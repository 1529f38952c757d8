import FormDesk.Numeral
import FormDesk.Proofs.Expression.Grammar
import FormDesk.Proofs.ValueText.Decimal

/-! The numbers of JSON, as a regular expression and as values. A text with a sign, a numeral and a
power of ten is a number, and it is read part by part. -/
namespace FormDesk

namespace Json.Grammar
open RegularExpression Expression.Grammar

def optional (r : RegularExpression Char) : RegularExpression Char := 1 + r

/-- Digits without a superfluous zero before them. -/
def whole : RegularExpression Char := char '0' + oneOf "123456789".toList * digit.star

def fraction : RegularExpression Char := point * oneOrMore digit

def power : RegularExpression Char :=
  oneOf "eE".toList * optional (oneOf "+-".toList) * oneOrMore digit

def number : RegularExpression Char :=
  optional (char '-') * whole * optional fraction * optional power

example : "-0.25e+10".toList ∈ number.matches' := by decide

theorem null_notMem_number : "null".toList ∉ number.matches' := by decide

theorem nil_mem_optional (r : RegularExpression Char) : [] ∈ (optional r).matches' := by
  rw [optional, matches'_add, Language.mem_add]
  exact Or.inl rfl

theorem mem_optional {r : RegularExpression Char} {s : List Char} (h : s ∈ r.matches') :
    s ∈ (optional r).matches' := by
  rw [optional, matches'_add, Language.mem_add]
  exact Or.inr h

theorem mem_whole_cons {c : Char} {t : List Char} (hc : c.isDigit = true) (hzero : c ≠ '0')
    (ht : t.all Char.isDigit = true) : c :: t ∈ whole.matches' := by
  rw [whole, matches'_add, matches'_mul, Language.mem_add]
  have hnonzero : c ∈ "123456789".toList := by
    have hmem : c ∈ '0' :: "123456789".toList := isDigit_iff.mp hc
    exact (List.mem_cons.mp hmem).resolve_left hzero
  exact Or.inr ⟨[c], mem_oneOf.mpr ⟨c, hnonzero, rfl⟩, t, mem_digit_star.mpr ht, rfl⟩

theorem zero_mem_whole : ['0'] ∈ whole.matches' := by
  rw [whole, matches'_add, Language.mem_add]
  exact Or.inl rfl

theorem isDigit_of_mem_whole {s : List Char} (h : s ∈ whole.matches') :
    s.all Char.isDigit = true ∧ s ≠ [] := by
  rw [whole, matches'_add, matches'_mul, Language.mem_add] at h
  rcases h with rfl | ⟨_, hc, t, ht, rfl⟩
  · exact ⟨rfl, List.cons_ne_nil _ _⟩
  · obtain ⟨c, hmem, rfl⟩ := mem_oneOf.mp hc
    have hdigit : c.isDigit = true := isDigit_iff.mpr (List.mem_cons_of_mem '0' hmem)
    refine ⟨?_, List.cons_ne_nil _ _⟩
    rw [List.all_append, mem_digit_star.mp ht, List.all_cons, hdigit]
    rfl

end Json.Grammar

namespace Binary64

def withSign (negative : Bool) : Binary64 → Binary64
  | .nan => .nan
  | .infinity _ => .infinity negative
  | .finite _ m => .finite negative m

/-- An integer in decimal, with a sign or without. -/
def power? (s : List Char) : Option Int :=
  let (negative, digits) := Numeral.signed s
  if digits.all Char.isDigit && !digits.isEmpty then
    let n : Int := Nat.ofDigitChars 10 digits 0
    some (if negative then -n else n)
  else none

/-- Reads a numeral with an optional power of ten behind it, as the nearest value. -/
def unsignedOfText? (s : List Char) : Option Binary64 :=
  match s.splitOnP fun c => c == 'e' || c == 'E' with
  | [digits] => (Numeral.ofText? digits).map fun n => n.timesTenTo 0
  | [digits, power] => do
    let n ← Numeral.ofText? digits
    let k ← power? power
    return n.timesTenTo k
  | _ => none

/-- Reads the text of a number, with an optional sign before it. -/
def ofText? (s : List Char) : Option Binary64 :=
  let (negative, s) := Numeral.signed s
  (unsignedOfText? s).map (withSign negative)

end Binary64

namespace Json
open RegularExpression Expression.Grammar Binary64

/-- The text of a power of ten; none when it is one. -/
inductive PowerText : Int → List Char → Prop
  | one : PowerText 0 []
  | signed (k : Int) :
      PowerText k ('e' :: (if k < 0 then '-' else '+') :: Nat.toDigits 10 k.natAbs)

theorem PowerText.mem_optional {k : Int} {t : List Char} (h : PowerText k t) :
    t ∈ (Grammar.optional Grammar.power).matches' := by
  cases h with
  | one => exact Grammar.nil_mem_optional _
  | signed =>
    have hdigits : Nat.toDigits 10 k.natAbs ∈ (oneOrMore digit).matches' :=
      mem_oneOrMore_digit.mpr ⟨Nat.toDigits_ne_nil, Numeral.all_isDigit_toDigits _⟩
    have hsign : [if k < 0 then '-' else '+'] ∈ (oneOf "+-".toList).matches' := by
      refine mem_oneOf.mpr ⟨_, ?_, rfl⟩
      split_ifs <;> decide
    refine Grammar.mem_optional ?_
    rw [Grammar.power, matches'_mul, matches'_mul]
    exact ⟨_, ⟨['e'], mem_oneOf.mpr ⟨'e', by decide, rfl⟩, _, Grammar.mem_optional hsign, rfl⟩,
      _, hdigits, rfl⟩

theorem mem_number (negative : Bool) {n : Numeral} {k : Int} {t : List Char}
    (hwhole : n.whole ∈ Grammar.whole.matches') (hfraction : n.fraction.all Char.isDigit = true)
    (hpower : PowerText k t) : signText negative ++ (n.text ++ t) ∈ Grammar.number.matches' := by
  have hsign : signText negative ∈ (Grammar.optional (char '-')).matches' := by
    cases negative with
    | false => exact Grammar.nil_mem_optional _
    | true => exact Grammar.mem_optional rfl
  have hpoint : (if n.fraction = [] then [] else '.' :: n.fraction) ∈
      (Grammar.optional Grammar.fraction).matches' := by
    split_ifs with hempty
    · exact Grammar.nil_mem_optional _
    · refine Grammar.mem_optional ?_
      rw [Grammar.fraction, matches'_mul]
      exact ⟨['.'], rfl, _, mem_oneOrMore_digit.mpr ⟨hempty, hfraction⟩, rfl⟩
  rw [Grammar.number, matches'_mul, matches'_mul, matches'_mul, Numeral.text, ← List.append_assoc,
    ← List.append_assoc]
  exact ⟨_, ⟨_, ⟨_, hsign, _, hwhole, rfl⟩, _, hpoint, rfl⟩, _, hpower.mem_optional, rfl⟩

end Json

namespace Binary64
open Json

theorem signed_of_ne {c : Char} {s : List Char} (hminus : c ≠ '-') (hplus : c ≠ '+') :
    Numeral.signed (c :: s) = (false, c :: s) := by
  unfold Numeral.signed
  split
  · next h => exact absurd (List.cons.inj h).1 hminus
  · next h => exact absurd (List.cons.inj h).1 hplus
  · rfl

theorem power?_eq (k : Int) :
    power? ((if k < 0 then '-' else '+') :: Nat.toDigits 10 k.natAbs) = some k := by
  have hne : (Nat.toDigits 10 k.natAbs).isEmpty = false := by simp
  unfold power?
  split_ifs with hk
  · simp only [Numeral.signed, Numeral.all_isDigit_toDigits, hne, Bool.not_false, Bool.and_self,
      if_true, Nat.ofDigitChars_ten_toDigits, Option.some.injEq]
    omega
  · simp only [Numeral.signed, Numeral.all_isDigit_toDigits, hne, Bool.not_false, Bool.and_self,
      if_true, Nat.ofDigitChars_ten_toDigits, Bool.false_eq_true, if_false, Option.some.injEq]
    omega

theorem isLiteral_of_spells {n : Numeral} {s : List Char} (hn : n.Spells s) {c : Char}
    (hc : c ∈ s) : Expression.isLiteral c = true :=
  Expression.Grammar.isLiteral_of_mem_numeral (Expression.Grammar.mem_numeral.mpr ⟨n, hn⟩) hc

theorem isLiteral_of_mem_toDigits {n : Nat} {c : Char} (hc : c ∈ Nat.toDigits 10 n) :
    Expression.isLiteral c = true := by
  rw [Expression.isLiteral, List.all_eq_true.mp (Numeral.all_isDigit_toDigits n) c hc,
    Bool.true_or]

private theorem not_mark_of_isLiteral {c : Char} (h : Expression.isLiteral c = true) :
    (c == 'e' || c == 'E') = false := by
  rw [Bool.or_eq_false_iff, beq_eq_false_iff_ne, beq_eq_false_iff_ne]
  constructor
  · rintro rfl
    cases h
  · rintro rfl
    cases h

theorem unsignedOfText?_eq {n : Numeral} {s t : List Char} {k : Int} (hn : n.Spells s)
    (ht : PowerText k t) : unsignedOfText? (s ++ t) = some (n.timesTenTo k) := by
  have hs : ∀ c ∈ s, (c == 'e' || c == 'E') = false :=
    fun c hc => not_mark_of_isLiteral (isLiteral_of_spells hn hc)
  unfold unsignedOfText?
  cases ht with
  | one =>
    rw [List.append_nil, List.splitOnP_eq_singleton hs]
    simp only [hn.ofText?_eq, Option.map_some]
  | signed =>
    have hpower : ∀ c ∈ (if k < 0 then '-' else '+') :: Nat.toDigits 10 k.natAbs,
        (c == 'e' || c == 'E') = false := by
      intro c hc
      rcases List.mem_cons.mp hc with rfl | hmem
      · split_ifs <;> rfl
      · exact not_mark_of_isLiteral (isLiteral_of_mem_toDigits hmem)
    rw [List.splitOnP_append_cons_of_forall_mem hs 'e' rfl, List.splitOnP_eq_singleton hpower]
    simp only [hn.ofText?_eq, power?_eq]
    rfl

/-- A number is read part by part. -/
theorem ofText?_eq (negative : Bool) {n : Numeral} {s t : List Char} {k : Int} (hn : n.Spells s)
    (ht : PowerText k t) : ofText? (signText negative ++ (s ++ t)) =
      some (withSign negative (n.timesTenTo k)) := by
  have hsigned : Numeral.signed (signText negative ++ (s ++ t)) = (negative, s ++ t) := by
    cases negative with
    | true => rfl
    | false =>
      obtain ⟨c, s', rfl⟩ := List.exists_cons_of_ne_nil
        (Expression.Grammar.ne_nil_of_mem_numeral (Expression.Grammar.mem_numeral.mpr ⟨n, hn⟩))
      have hliteral := isLiteral_of_spells hn (List.mem_cons_self ..)
      refine signed_of_ne ?_ ?_
      · rintro rfl
        cases hliteral
      · rintro rfl
        cases hliteral
  rw [ofText?, hsigned]
  simp only [unsignedOfText?_eq hn ht, Option.map_some]

end Binary64

end FormDesk
