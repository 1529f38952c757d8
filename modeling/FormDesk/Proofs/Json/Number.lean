import FormDesk.Json.Text
import FormDesk.Proofs.Binary64.Literal
import FormDesk.Proofs.Binary64.Shortest
import FormDesk.Proofs.Json.Grammar

/-! The text of a finite value is a number, and it reads back as the value. Wherever the point is
put, the numeral and the power of ten of the text write the shortest decimal. -/
namespace FormDesk

theorem Numeral.Significant.mem_whole {s : List Char} (h : Significant s) :
    s ∈ Json.Grammar.whole.matches' := by
  obtain ⟨hdigit, hne, hhead⟩ := h
  obtain ⟨c, t, rfl⟩ := List.exists_cons_of_ne_nil hne
  rw [List.all_cons, Bool.and_eq_true] at hdigit
  exact Json.Grammar.mem_whole_cons hdigit.1 (fun hc => hhead (by rw [hc]; rfl)) hdigit.2

theorem Numeral.Significant.take_mem_whole {digits : List Char} (h : Significant digits) {n : Nat}
    (hn : n ≠ 0) : digits.take n ∈ Json.Grammar.whole.matches' := by
  refine (h.of_prefix (List.take_prefix n digits) ?_).mem_whole
  rw [ne_eq, List.take_eq_nil_iff, not_or]
  exact ⟨hn, h.ne_nil⟩

namespace Json
open Binary64
open Numeral (Significant significant_toDigits)

attribute [local instance (high)] instPowNat

theorem significant_significantDigits {d : Decimal} (h : d.digits ≠ 0) :
    Significant (significantDigits d) := by
  have hdigits := significant_toDigits h
  refine hdigits.of_prefix (List.rdropWhile_prefix _ _) ?_
  change List.rdropWhile _ _ ≠ []
  rw [ne_eq, List.rdropWhile_eq_nil_iff]
  intro hzeros
  obtain ⟨c, t, hct⟩ := List.exists_cons_of_ne_nil hdigits.ne_nil
  refine hdigits.head_ne ?_
  rw [hct] at hzeros ⊢
  rw [List.head?_cons, eq_of_beq (hzeros c (List.mem_cons_self ..))]

/-- A numeral times a power of ten that writes given digits, with the point at a given position,
in the way that numbers are written. -/
structure Writes (digits : List Char) (point : Int) (n : Numeral) (power : Int) : Prop where
  whole_mem : n.whole ∈ Grammar.whole.matches'
  fraction_isDigit : n.fraction.all Char.isDigit = true
  value : ∃ zeros : Nat, n.scaled = Nat.ofDigitChars 10 digits 0 * 10 ^ zeros ∧
    zeros + power + digits.length = point + n.places

private theorem mul_powers (s : Nat) {a b u c d e : Nat} (h : a + b + u = c + d + e) :
    s * 10 ^ a * 10 ^ b * 2 ^ u * 5 ^ u = s * 10 ^ c * 10 ^ d * 10 ^ e := by
  have hten : 2 ^ u * 5 ^ u = 10 ^ u := (Nat.mul_pow 2 5 u).symm
  simp only [Nat.mul_assoc, hten, ← Nat.pow_add]
  rw [h]

/-- What writes the digits of the shortest decimal has the value of the magnitude. -/
theorem Writes.timesTenTo_eq {m : Magnitude} {n : Numeral} {power : Int}
    (h : Writes (significantDigits m.shortest) (pointPosition m.shortest) n power) :
    n.timesTenTo power = .finite false m := by
  obtain ⟨zeros, hscaled, hplaces⟩ := h.value
  obtain ⟨z, hz⟩ := Numeral.exists_zeros (Nat.toDigits 10 m.shortest.digits)
  have hdigits : m.shortest.digits =
      Nat.ofDigitChars 10 (significantDigits m.shortest) 0 * 10 ^ z := by
    conv_lhs => rw [← @Nat.ofDigitChars_ten_toDigits m.shortest.digits, ← hz]
    rw [Nat.ofDigitChars_append, Nat.ofDigitChars_replicate_zero, Nat.mul_comm]
    rfl
  have hlength : (Nat.toDigits 10 m.shortest.digits).length =
      (significantDigits m.shortest).length + z := by
    conv_lhs => rw [← hz]
    rw [List.length_append, List.length_replicate]
    rfl
  have hexponent : zeros + power.toNat + unitPlaces =
      z + m.shortest.place + (n.places + (-power).toNat) := by
    rw [pointPosition, hlength] at hplaces
    omega
  have hnearest : Magnitude.nearest? (n.scaled * 10 ^ power.toNat * one)
      (10 ^ (n.places + (-power).toNat)) = some m := by
    rw [← m.nearest?_shortest, Decimal.nearest?]
    refine Magnitude.nearest?_congr (Nat.pow_pos (by decide)) (Nat.pow_pos (by decide)) ?_
    rw [hscaled, Decimal.units, hdigits]
    exact mul_powers _ hexponent
  rw [Numeral.timesTenTo_eq, ofQuotient, hnearest]
  rfl

/-- The numeral of a positional text. -/
def positionalNumeral (digits : List Char) (point : Int) : Numeral :=
  if point ≤ 0 then ⟨['0'], List.replicate (-point).toNat '0' ++ digits⟩
  else if digits.length ≤ point.toNat then
    ⟨digits ++ List.replicate (point.toNat - digits.length) '0', ['0']⟩
  else ⟨digits.take point.toNat, digits.drop point.toNat⟩

/-- The numeral of a text with a power of ten. -/
def leadingNumeral (digits : List Char) : Numeral := ⟨digits.take 1, digits.drop 1⟩

section
variable {digits : List Char} (h : Significant digits) (point : Int)

theorem all_isDigit_zeros (n : Nat) : (List.replicate n '0').all Char.isDigit = true :=
  List.all_eq_true.mpr fun _ hc => List.eq_of_mem_replicate hc ▸ rfl

theorem exponentText_eq : exponentText digits point = (leadingNumeral digits).text ++
    'e' :: (if point - 1 < 0 then '-' else '+') :: Nat.toDigits 10 (point - 1).natAbs := by
  simp only [exponentText, leadingNumeral, Numeral.text, List.drop_eq_nil_iff, List.append_assoc]
  rfl

include h

theorem positionalText_eq :
    positionalText digits point = (positionalNumeral digits point).text := by
  unfold positionalText positionalNumeral
  split_ifs with hzero hwhole
  · rw [Numeral.text, if_neg (List.append_ne_nil_of_right_ne_nil _ h.ne_nil), List.append_assoc]
    rfl
  · rfl
  · have hrest : digits.drop point.toNat ≠ [] := by
      rwa [ne_eq, List.drop_eq_nil_iff]
    rw [Numeral.text, if_neg hrest]

theorem writes_positionalNumeral : Writes digits point (positionalNumeral digits point) 0 := by
  unfold positionalNumeral
  split_ifs with hzero hwhole
  · refine ⟨Grammar.zero_mem_whole, ?_, 0, ?_, ?_⟩
    · rw [List.all_append, all_isDigit_zeros, h.isDigit, Bool.and_self]
    · change Nat.ofDigitChars 10 (List.replicate ((-point).toNat + 1) '0' ++ digits) 0 = _
      rw [Nat.ofDigitChars_append, Nat.ofDigitChars_replicate_zero, Nat.mul_zero, Nat.pow_zero,
        Nat.mul_one]
    · simp only [Numeral.places, List.length_append, List.length_replicate]
      omega
  · refine ⟨(h.append (all_isDigit_zeros _)).mem_whole, rfl,
      point.toNat - digits.length + 1, ?_, ?_⟩
    · rw [Numeral.scaled, List.append_assoc, ← List.replicate_succ', Nat.ofDigitChars_append,
        Nat.ofDigitChars_replicate_zero, Nat.mul_comm]
    · simp only [Numeral.places, List.length_singleton]
      omega
  · refine ⟨h.take_mem_whole (by omega), h.all_isDigit_drop _, 0, ?_, ?_⟩
    · rw [Numeral.scaled, List.take_append_drop, Nat.pow_zero, Nat.mul_one]
    · simp only [Numeral.places, List.length_drop]
      omega

theorem writes_leadingNumeral : Writes digits point (leadingNumeral digits) (point - 1) := by
  have hlength : 0 < digits.length := List.length_pos_iff.mpr h.ne_nil
  refine ⟨h.take_mem_whole Nat.one_ne_zero, h.all_isDigit_drop 1, 0, ?_, ?_⟩
  · rw [leadingNumeral, Numeral.scaled, List.take_append_drop, Nat.pow_zero, Nat.mul_one]
  · simp only [leadingNumeral, Numeral.places, List.length_drop]
    omega

end

/-- The text of a magnitude is a numeral and a power of ten with its value. -/
theorem exists_magnitudeText (m : Magnitude) : ∃ (n : Numeral) (power : Int) (t : List Char),
    magnitudeText m = n.text ++ t ∧ PowerText power t ∧ n.whole ∈ Grammar.whole.matches' ∧
      n.fraction.all Char.isDigit = true ∧ n.timesTenTo power = .finite false m := by
  unfold magnitudeText
  dsimp only
  split_ifs with hzero hpositional
  · rw [Magnitude.eq_zero_of_units hzero]
    exact ⟨⟨['0'], ['0']⟩, 0, [], rfl, .one, Grammar.zero_mem_whole, rfl, rfl⟩
  · have hdigits := significant_significantDigits (Magnitude.digits_shortest_ne_zero hzero)
    have hwrites := writes_positionalNumeral hdigits (pointPosition m.shortest)
    refine ⟨_, 0, [], ?_, .one, hwrites.whole_mem, hwrites.fraction_isDigit, hwrites.timesTenTo_eq⟩
    rw [positionalText_eq hdigits, List.append_nil]
  · have hdigits := significant_significantDigits (Magnitude.digits_shortest_ne_zero hzero)
    have hwrites := writes_leadingNumeral hdigits (pointPosition m.shortest)
    exact ⟨_, _, _, exponentText_eq _, .signed _, hwrites.whole_mem, hwrites.fraction_isDigit,
      hwrites.timesTenTo_eq⟩

/-- The characters that a number is written with. -/
def isNumberChar (c : Char) : Bool := Expression.isLiteral c || c == '-' || c == '+' || c == 'e'

theorem isNumberChar_of_isLiteral {c : Char} (h : Expression.isLiteral c = true) :
    isNumberChar c = true := by
  rw [isNumberChar, h]
  rfl

theorem PowerText.all_isNumberChar {k : Int} {t : List Char} (h : PowerText k t) :
    t.all isNumberChar = true := by
  cases h with
  | one => rfl
  | signed =>
    have hsign : isNumberChar (if k < 0 then '-' else '+') = true := by split_ifs <;> rfl
    have hdigits : (Nat.toDigits 10 k.natAbs).all isNumberChar = true :=
      List.all_eq_true.mpr fun c hc => isNumberChar_of_isLiteral (isLiteral_of_mem_toDigits hc)
    rw [List.all_cons, List.all_cons, hsign, hdigits]
    rfl

theorem all_isNumberChar_numberText (negative : Bool) (m : Magnitude) :
    (numberText (.finite negative m)).all isNumberChar = true := by
  obtain ⟨n, power, t, htext, hpower, hwhole, hfraction, -⟩ := exists_magnitudeText m
  obtain ⟨hdigit, hne⟩ := Grammar.isDigit_of_mem_whole hwhole
  have hsign : (signText negative).all isNumberChar = true := by cases negative <;> rfl
  have hnumeral : n.text.all isNumberChar = true := List.all_eq_true.mpr fun c hc =>
    isNumberChar_of_isLiteral
      (isLiteral_of_spells (Numeral.spells_text hdigit hfraction hne) hc)
  rw [numberText, htext, List.all_append, List.all_append, hsign, hnumeral,
    hpower.all_isNumberChar]
  rfl

/-- The text of a finite value is a number, and it reads back as the value. -/
theorem numberText_finite (negative : Bool) (m : Magnitude) :
    numberText (.finite negative m) ∈ Grammar.number.matches' ∧
      ofText? (numberText (.finite negative m)) = some (.finite negative m) := by
  obtain ⟨n, power, t, htext, hpower, hwhole, hfraction, hvalue⟩ := exists_magnitudeText m
  obtain ⟨hdigit, hne⟩ := Grammar.isDigit_of_mem_whole hwhole
  rw [numberText, htext]
  refine ⟨mem_number negative hwhole hfraction hpower, ?_⟩
  rw [ofText?_eq negative (Numeral.spells_text hdigit hfraction hne) hpower, hvalue]
  rfl

end Json

end FormDesk
