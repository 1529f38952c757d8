import FormDesk.Proofs.ValueText.Decimal
import FormDesk.Toml.Document

/-! Decimal digits as a value. They are no date and no name, and a whole number in decimal reads as
the integer it is. -/
namespace FormDesk.Toml
open Numeral (signed)

attribute [local instance (high)] instPowNat

section
variable {s : List Char} (hs : s.all Char.isDigit = true)
include hs

theorem literalChar_of_all_isDigit {c : Char} (hc : c.isDigit = false) :
    literalChar c s = none := by
  cases s with
  | nil => rfl
  | cons d s =>
    have hne : d ≠ c := by
      rintro rfl
      exact Numeral.notMem_of_all_isDigit hs hc List.mem_cons_self
    rw [literalChar, if_neg hne]

theorem all_isDigit_of_fixedNumber {width n : Nat} {rest : List Char}
    (h : fixedNumber width s = some (n, rest)) : rest.all Char.isDigit = true := by
  rw [fixedNumber, Option.ite_none_right_eq_some] at h
  obtain ⟨-, h⟩ := h
  cases h
  exact List.all_eq_true.mpr fun c hc => List.all_eq_true.mp hs c (List.mem_of_mem_drop hc)

theorem date?_of_all_isDigit : date? s = none := by
  unfold date?
  cases hyear : fixedNumber 4 s with
  | none => rfl
  | some read =>
    have hrest := all_isDigit_of_fixedNumber hs hyear
    simp only [Option.bind_eq_bind, Option.bind_some,
      literalChar_of_all_isDigit hrest (by decide : '-'.isDigit = false), Option.bind_none]

theorem time?_of_all_isDigit : time? s = none := by
  unfold time?
  cases hhour : fixedNumber 2 s with
  | none => rfl
  | some read =>
    have hrest := all_isDigit_of_fixedNumber hs hhour
    simp only [Option.bind_eq_bind, Option.bind_some,
      literalChar_of_all_isDigit hrest (by decide : ':'.isDigit = false), Option.bind_none]

theorem isMoment_of_all_isDigit : isMoment s = false := by
  unfold isMoment
  rw [date?_of_all_isDigit hs, time?_of_all_isDigit hs]
  rfl

theorem signed_of_all_isDigit : signed s = (false, s) := by
  unfold signed
  split
  · exact absurd List.mem_cons_self (Numeral.notMem_of_all_isDigit hs (by decide))
  · exact absurd List.mem_cons_self (Numeral.notMem_of_all_isDigit hs (by decide))
  · rfl

theorem ne_of_all_isDigit {c : Char} (hc : c.isDigit = false) {t : List Char} : s ≠ c :: t := by
  rintro rfl
  exact Numeral.notMem_of_all_isDigit hs hc List.mem_cons_self

theorem namedFloat?_of_all_isDigit : namedFloat? s = none := by
  unfold namedFloat?
  rw [signed_of_all_isDigit hs]
  exact (if_neg (ne_of_all_isDigit hs (by decide))).trans
    (if_neg (ne_of_all_isDigit hs (by decide)))

theorem parted?_of_all_isDigit (hne : s ≠ []) : parted? Char.isDigit s = some s := by
  have hcut : s.splitOnP (· == '_') = [s] := List.splitOnP_eq_singleton fun c hc => by
    have hdigit : c.isDigit = true := List.all_eq_true.mp hs c hc
    refine beq_false_of_ne ?_
    rintro rfl
    cases hdigit
  have hempty : s.isEmpty = false := List.isEmpty_eq_false_iff.mpr hne
  simp [parted?, hcut, hempty, hs]

/-- Digits are a decimal integer: the sign of another base has a letter in it. -/
theorem integer?_of_all_isDigit {digits : List Char} (h : wholeDigits? s = some digits) :
    integer? s = some (Nat.ofDigitChars 10 digits 0 : Int) := by
  have hbase {c : Char} (hc : c.isDigit = false) {t : List Char} : s ≠ '0' :: c :: t := by
    rintro rfl
    exact Numeral.notMem_of_all_isDigit hs hc (List.mem_cons_of_mem _ List.mem_cons_self)
  unfold integer?
  split
  · exact absurd rfl (hbase (by decide))
  · exact absurd rfl (hbase (by decide))
  · exact absurd rfl (hbase (by decide))
  · simp [signed_of_all_isDigit hs, h]

end

theorem wholeDigits?_toDigits (n : Nat) :
    wholeDigits? (Nat.toDigits 10 n) = some (Nat.toDigits 10 n) := by
  have hparted := parted?_of_all_isDigit (Numeral.all_isDigit_toDigits n) Nat.toDigits_ne_nil
  have hzeros : (Nat.toDigits 10 n).length = 1 ∨ (Nat.toDigits 10 n).head? ≠ some '0' := by
    rcases eq_or_ne n 0 with rfl | hn
    · exact Or.inl rfl
    · exact Or.inr (Numeral.significant_toDigits hn).head_ne
  simp [wholeDigits?, hparted, guard, hzeros]

/-- A whole number for which there is room reads as the integer it is. -/
theorem Value.ofToken?_toDigits {n : Nat} (hn : n < 2 ^ 128) :
    ofToken? (Nat.toDigits 10 n) = some (.integer n) := by
  have hs := Numeral.all_isDigit_toDigits n
  have hroom : ofInteger n = .integer n := by
    rw [ofInteger, if_pos]
    constructor
    · omega
    · exact_mod_cast hn
  have hinteger : integer? (Nat.toDigits 10 n) = some (n : Int) := by
    rw [integer?_of_all_isDigit hs (wholeDigits?_toDigits n), Nat.ofDigitChars_ten_toDigits]
  have htrue : Nat.toDigits 10 n ≠ "true".toList := ne_of_all_isDigit hs (by decide)
  have hfalse : Nat.toDigits 10 n ≠ "false".toList := ne_of_all_isDigit hs (by decide)
  unfold ofToken?
  rw [if_neg htrue, if_neg hfalse, isMoment_of_all_isDigit hs, namedFloat?_of_all_isDigit hs,
    hinteger]
  simp [hroom]

end FormDesk.Toml
