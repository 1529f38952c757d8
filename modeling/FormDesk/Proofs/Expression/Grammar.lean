import FormDesk.Proofs.Expression.Pieces
import FormDesk.Proofs.Numeral
import Mathlib.Computability.RegularExpressions
import Mathlib.Tactic.IntervalCases

/-! The grammar of expressions as regular expressions. A chain of operands is recognized by its
pieces, and the numerals are the texts that are read as numbers. -/
namespace FormDesk.Expression.Grammar
open RegularExpression

def digits : List Char := "0123456789".toList

def operators : List Char := "+*".toList

def alphabet : List Char := digits ++ '.' :: operators ++ [' ']

def oneOf (cs : List Char) : RegularExpression Char := (cs.map char).sum

def oneOrMore (r : RegularExpression Char) : RegularExpression Char := r * r.star

def digit : RegularExpression Char := oneOf digits

def point : RegularExpression Char := char '.'

def operator : RegularExpression Char := oneOf operators

def spaces : RegularExpression Char := (char ' ').star

/-- Digits with at most one point, and at least one digit. -/
def numeral : RegularExpression Char :=
  oneOrMore digit + oneOrMore digit * point * digit.star + point * oneOrMore digit

/-- Operands with an operator between neighbours. -/
def chain (operand : RegularExpression Char) : RegularExpression Char :=
  operand * (operator * operand).star

def expression : RegularExpression Char := chain numeral

def spacedNumeral : RegularExpression Char := spaces * numeral * spaces

/-- Expressions with spaces around their numerals. -/
def spacedExpression : RegularExpression Char := chain spacedNumeral

example : "3.*.5+42".toList ∈ expression.matches' := by decide
example : " 3. * .5".toList ∈ spacedExpression.matches' := by decide
example : "3 4".toList ∉ spacedExpression.matches' := by decide

theorem mem_oneOf {cs s : List Char} : s ∈ (oneOf cs).matches' ↔ ∃ c ∈ cs, s = [c] := by
  unfold oneOf
  induction cs with
  | nil => simp
  | cons c cs ih =>
    rw [List.map_cons, List.sum_cons, matches'_add, Language.mem_add, ih, matches'_char,
      List.exists_mem_cons_iff]
    rfl

theorem mem_star_oneOf {cs s : List Char} : s ∈ (oneOf cs).star.matches' ↔ ∀ c ∈ s, c ∈ cs := by
  rw [matches'_star, Language.mem_kstar]
  constructor
  · rintro ⟨ws, rfl, hws⟩ c hc
    obtain ⟨w, hw, hcw⟩ := List.mem_flatten.mp hc
    obtain ⟨d, hd, rfl⟩ := mem_oneOf.mp (hws w hw)
    rwa [List.mem_singleton.mp hcw]
  · intro h
    refine ⟨s.map ([·]), ?_, ?_⟩
    · rw [← List.flatMap_def, List.flatMap_singleton']
    · intro w hw
      obtain ⟨c, hc, rfl⟩ := List.mem_map.mp hw
      exact mem_oneOf.mpr ⟨c, h c hc, rfl⟩

theorem mem_oneOrMore_oneOf {cs s : List Char} :
    s ∈ (oneOrMore (oneOf cs)).matches' ↔ s ≠ [] ∧ ∀ c ∈ s, c ∈ cs := by
  rw [oneOrMore, matches'_mul, Language.mem_mul]
  constructor
  · rintro ⟨a, ha, b, hb, rfl⟩
    obtain ⟨c, hc, rfl⟩ := mem_oneOf.mp ha
    exact ⟨by simp, List.forall_mem_cons.mpr ⟨hc, mem_star_oneOf.mp hb⟩⟩
  · rintro ⟨hne, h⟩
    obtain ⟨c, t, rfl⟩ := List.exists_cons_of_ne_nil hne
    obtain ⟨hc, ht⟩ := List.forall_mem_cons.mp h
    exact ⟨[c], mem_oneOf.mpr ⟨c, hc, rfl⟩, t, mem_star_oneOf.mpr ht, rfl⟩

theorem isDigit_iff {c : Char} : c.isDigit = true ↔ c ∈ digits := by
  constructor
  · intro h
    simp only [Char.isDigit, Bool.and_eq_true, decide_eq_true_eq, ge_iff_le,
      UInt32.le_iff_toNat_le] at h
    change 48 ≤ c.toNat ∧ c.toNat ≤ 57 at h
    obtain ⟨h₁, h₂⟩ := h
    rw [← Char.ofNat_toNat c]
    generalize c.toNat = n at h₁ h₂
    interval_cases n <;> decide
  · intro h
    have hall : digits.all Char.isDigit = true := by decide
    exact List.all_eq_true.mp hall c h

theorem isOperator_iff {c : Char} : isOperator c = true ↔ c ∈ operators := by
  simp [isOperator, operators]

theorem isAllowed_iff {c : Char} : isAllowed c = true ↔ c ∈ alphabet := by
  simp only [isAllowed, isLiteral, Bool.or_eq_true, isDigit_iff, isOperator_iff, beq_iff_eq,
    alphabet, List.mem_append, List.mem_cons, List.not_mem_nil, or_false, or_assoc]

theorem mem_digit_star {s : List Char} : s ∈ digit.star.matches' ↔ s.all Char.isDigit = true := by
  simp only [digit, mem_star_oneOf, List.all_eq_true, isDigit_iff]

theorem mem_oneOrMore_digit {s : List Char} :
    s ∈ (oneOrMore digit).matches' ↔ s ≠ [] ∧ s.all Char.isDigit = true := by
  simp only [digit, mem_oneOrMore_oneOf, List.all_eq_true, isDigit_iff]

/-- The numerals of the grammar are those that are read. -/
theorem mem_numeral {s : List Char} : s ∈ numeral.matches' ↔ ∃ n : Numeral, n.Spells s := by
  rw [numeral, matches'_add, matches'_add, matches'_mul, matches'_mul, matches'_mul,
    Language.mem_add, Language.mem_add]
  constructor
  · rintro ((h | ⟨_, ⟨w, hw, _, rfl, rfl⟩, f, hf, rfl⟩) | ⟨_, rfl, f, hf, rfl⟩)
    · obtain ⟨hne, hd⟩ := mem_oneOrMore_digit.mp h
      exact ⟨⟨s, []⟩, hd, rfl, by simpa using hne, Or.inl ⟨rfl, rfl⟩⟩
    · obtain ⟨hne, hd⟩ := mem_oneOrMore_digit.mp hw
      exact ⟨⟨w, f⟩, hd, mem_digit_star.mp hf, by simp [hne], Or.inr (by simp)⟩
    · obtain ⟨hne, hd⟩ := mem_oneOrMore_digit.mp hf
      exact ⟨⟨[], f⟩, rfl, hd, by simpa using hne, Or.inr rfl⟩
  · rintro ⟨⟨w, f⟩, hw, hf, hne, ⟨rfl, rfl⟩ | rfl⟩
    · exact Or.inl (Or.inl (mem_oneOrMore_digit.mpr ⟨by simpa using hne, hw⟩))
    · by_cases hempty : w = []
      · subst hempty
        exact Or.inr ⟨['.'], rfl, f, mem_oneOrMore_digit.mpr ⟨by simpa using hne, hf⟩, rfl⟩
      · exact Or.inl (Or.inr ⟨w ++ ['.'], ⟨w, mem_oneOrMore_digit.mpr ⟨hempty, hw⟩, _, rfl, rfl⟩,
          f, mem_digit_star.mpr hf, by simp⟩)

theorem mem_spaces {s : List Char} : s ∈ spaces.matches' ↔ ∀ c ∈ s, c = ' ' := by
  have h : spaces.matches' = (oneOf [' ']).star.matches' := by
    simp [spaces, oneOf]
  rw [h, mem_star_oneOf]
  simp only [List.mem_singleton]

/-- Behind the first operand there is nothing, or an operator and another chain. -/
theorem mem_chain_iff {r : RegularExpression Char} {s : List Char} :
    s ∈ (chain r).matches' ↔ s ∈ r.matches' ∨
      ∃ p o t, p ∈ r.matches' ∧ isOperator o = true ∧ t ∈ (chain r).matches' ∧
        s = p ++ o :: t := by
  have hstar : (operator * r).star.matches' =
      1 + operator.matches' * r.matches' * (operator * r).star.matches' := by
    rw [matches'_star, matches'_mul, Language.one_add_self_mul_kstar_eq_kstar]
  have hchain : (chain r).matches' =
      r.matches' * (1 + operator.matches' * (chain r).matches') := by
    conv_lhs => rw [chain, matches'_mul, hstar, mul_assoc]
    rw [chain, matches'_mul r]
  have hmem : s ∈ (chain r).matches' ↔
      s ∈ r.matches' * (1 + operator.matches' * (chain r).matches') := by rw [← hchain]
  rw [hmem, Language.mem_mul]
  constructor
  · rintro ⟨p, hp, rest, hrest, rfl⟩
    rcases (Language.mem_add ..).mp hrest with rfl | ⟨_, hop, t, ht, rfl⟩
    · exact Or.inl (by simpa using hp)
    · obtain ⟨o, ho, rfl⟩ := mem_oneOf.mp hop
      exact Or.inr ⟨p, o, t, hp, isOperator_iff.mpr ho, ht, rfl⟩
  · rintro (hs | ⟨p, o, t, hp, ho, ht, rfl⟩)
    · exact ⟨s, hs, [], Or.inl rfl, List.append_nil s⟩
    · have ho' : [o] ∈ operator.matches' := mem_oneOf.mpr ⟨o, isOperator_iff.mp ho, rfl⟩
      exact ⟨p, hp, o :: t, Or.inr ⟨[o], ho', t, ht, rfl⟩, rfl⟩

/-- A chain is recognized piece by piece when no operand holds an operator. -/
theorem mem_chain {r : RegularExpression Char} (hr : ∀ p ∈ r.matches', OperatorFree p)
    {s : List Char} : s ∈ (chain r).matches' ↔ ∀ p ∈ pieces s, p ∈ r.matches' := by
  induction s using pieceInduction with
  | piece s hs =>
    rw [pieces_of_operatorFree hs, List.forall_mem_singleton, mem_chain_iff]
    refine ⟨fun h => h.resolve_right ?_, Or.inl⟩
    rintro ⟨p, o, t, -, ho, -, rfl⟩
    have := hs o (by simp)
    simp [ho] at this
  | step p o t hp ho ih =>
    rw [pieces_piece_cons hp ho, List.forall_mem_cons, ← ih, mem_chain_iff]
    constructor
    · rintro (h | ⟨q, o', t', hq, ho', ht', h⟩)
      · have := hr _ h o (by simp)
        simp [ho] at this
      · obtain ⟨rfl, -, rfl⟩ := piece_cons_inj hp (hr q hq) ho ho' h
        exact ⟨hq, ht'⟩
    · rintro ⟨hp', ht⟩
      exact Or.inr ⟨p, o, t, hp', ho, ht, rfl⟩

theorem isLiteral_of_mem_numeral {s : List Char} (h : s ∈ numeral.matches') {c : Char}
    (hc : c ∈ s) : isLiteral c = true := by
  obtain ⟨n, hn⟩ := mem_numeral.mp h
  have hw := List.all_eq_true.mp hn.whole_isDigit
  have hf := List.all_eq_true.mp hn.fraction_isDigit
  rw [isLiteral, Bool.or_eq_true, beq_iff_eq]
  rcases hn.spelling with ⟨rfl, -⟩ | rfl
  · exact Or.inl (hw c hc)
  · rcases List.mem_append.mp hc with hc | hc
    · exact Or.inl (hw c hc)
    · rcases List.mem_cons.mp hc with rfl | hc
      · exact Or.inr rfl
      · exact Or.inl (hf c hc)

theorem ne_nil_of_mem_numeral {s : List Char} (h : s ∈ numeral.matches') : s ≠ [] := by
  obtain ⟨n, hn⟩ := mem_numeral.mp h
  rcases hn.spelling with ⟨rfl, hf⟩ | rfl
  · simpa [hf] using hn.ne_nil
  · simp

theorem operatorFree_of_mem_numeral {s : List Char} (h : s ∈ numeral.matches') : OperatorFree s :=
  fun _ hc => isOperator_of_isLiteral (isLiteral_of_mem_numeral h hc)

theorem mem_spacedNumeral {s : List Char} : s ∈ spacedNumeral.matches' ↔
    ∃ a n b, s = a ++ n ++ b ∧ (∀ c ∈ a, c = ' ') ∧ n ∈ numeral.matches' ∧ ∀ c ∈ b, c = ' ' := by
  rw [spacedNumeral, matches'_mul, matches'_mul]
  constructor
  · intro h
    obtain ⟨_, ⟨a, ha, n, hn, rfl⟩, b, hb, rfl⟩ := h
    exact ⟨a, n, b, rfl, mem_spaces.mp ha, hn, mem_spaces.mp hb⟩
  · intro h
    obtain ⟨a, n, b, rfl, ha, hn, hb⟩ := h
    exact ⟨a ++ n, ⟨a, mem_spaces.mpr ha, n, hn, rfl⟩, b, mem_spaces.mpr hb, rfl⟩

theorem operatorFree_of_mem_spacedNumeral {s : List Char} (h : s ∈ spacedNumeral.matches') :
    OperatorFree s := by
  obtain ⟨a, n, b, rfl, ha, hn, hb⟩ := mem_spacedNumeral.mp h
  have hspaces : ∀ t : List Char, (∀ c ∈ t, c = ' ') → OperatorFree t :=
    fun t ht c hc => ht c hc ▸ isOperator_space
  exact ((hspaces a ha).append (operatorFree_of_mem_numeral hn)).append (hspaces b hb)

end FormDesk.Expression.Grammar
