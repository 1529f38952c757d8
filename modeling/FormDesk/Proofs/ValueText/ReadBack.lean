import FormDesk.Proofs.Binary64.Fixed
import FormDesk.Proofs.Expression.Sign
import FormDesk.Proofs.ValueText.Decimal

/-! The text of a value is an expression again, and what is read from it has the same text. -/
namespace FormDesk.ValueText
open Binary64

/-- Reading the text of a rounded number rounds the number itself. -/
theorem nearest?_ofScaled (k places : Nat) :
    Magnitude.nearest? ((Numeral.ofScaled k places).scaled * one)
      (10 ^ (Numeral.ofScaled k places).places) = Magnitude.nearest? (k * one) (10 ^ places) := by
  refine Magnitude.nearest?_congr (Nat.pow_pos (by decide)) (Nat.pow_pos (by decide)) ?_
  rw [Nat.mul_right_comm, Numeral.scaled_ofScaled, Nat.mul_right_comm]

/-- The two ways to write a magnitude agree on the numeral. Zero has no sign. -/
theorem plain_finite_of_sign (negative : Bool) (m : Magnitude) {p : Nat} (hp : p ≤ maxPrecision) :
    plain (.finite negative m) p = .ok (signText (negative && m.units != 0) ++
      (Numeral.ofScaled (m.rounded (min p unitPlaces)) (min p unitPlaces)).text) := by
  unfold plain
  dsimp only
  split_ifs with hint hlarge
  · rw [Bool.and_eq_true] at hint
    have hsign : (m.whole != 0) = (m.units != 0) := by
      rw [← Magnitude.whole_mul_one hint.1, Bool.eq_iff_iff, bne_iff_ne, bne_iff_ne, ne_eq, ne_eq,
        Nat.mul_eq_zero, or_iff_left Binary64.one_pos.ne']
    rw [Magnitude.rounded_of_isWhole hint.1, Numeral.text_ofScaled_mul, hsign]
  · omega
  · have hpoint : '.' ∉ signText negative := by cases negative <;> decide
    have hunits : (m.units != 0) = true := by
      rw [bne_iff_ne]
      intro hzero
      rw [Magnitude.eq_zero_of_units hzero] at hint
      exact hint (by decide +kernel)
    rw [Magnitude.fixedText, trimFraction_append_placedText hpoint, hunits, Bool.and_true]

theorem plain_finite (m : Magnitude) {p : Nat} (hp : p ≤ maxPrecision) :
    plain (.finite false m) p =
      .ok (Numeral.ofScaled (m.rounded (min p unitPlaces)) (min p unitPlaces)).text :=
  plain_finite_of_sign false m hp

/-- A finite value of an expression has a text that is an expression again, and the finite value
of that text has the same text. -/
theorem evaluate_plain {s : List Char} {v : Binary64} {p : Nat}
    (hv : Expression.evaluate s = .ok v) (hfinite : v.isFinite = true) (hp : p ≤ maxPrecision) :
    ∃ t w, plain v p = .ok t ∧ Expression.evaluate t = .ok w ∧ w.isFinite = true ∧
      plain w p = .ok t := by
  cases Expression.unsigned_of_evaluate hv with
  | nan => cases hfinite
  | infinity => cases hfinite
  | finite m =>
    obtain ⟨w, hw, hrounded⟩ := m.exists_nearest?_rounded (min p unitPlaces)
    refine ⟨_, .finite false w, plain_finite m hp, ?_, rfl, ?_⟩
    · rw [Expression.evaluate_of_spells (Numeral.spells_ofScaled ..), Numeral.toBinary64,
        ofQuotient, nearest?_ofScaled, hw]
      rfl
    · rw [plain_finite w hp, hrounded]

/-- Three places do not hold all digits of `0.1 + 0.2`, and yet its text is kept. -/
theorem evaluate_plain_tenths :
    ∃ v, Expression.evaluate "0.1 + 0.2".toList = .ok v ∧ ∃ t w, plain v 3 = .ok t ∧
      Expression.evaluate t = .ok w ∧ w.isFinite = true ∧ plain w 3 = .ok t := by
  let sum : Binary64 := .finite false (.ofSignificand 5404319552844596 1020 (by decide) (by decide))
  have hsum : Expression.evaluate "0.1 + 0.2".toList = .ok sum := by decide +kernel
  exact ⟨sum, hsum, evaluate_plain hsum rfl (by decide)⟩

end FormDesk.ValueText
