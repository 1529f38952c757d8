import FormDesk.Numeral
import FormDesk.Proofs.Binary64.Rounding
import Mathlib.Tactic.SplitIfs

/-! Literals with a power of ten. What is told from the position of the point is what the quotient
rounds to. -/
namespace FormDesk

attribute [local instance (high)] instPowNat

namespace Binary64

/-- Less than half a unit rounds to zero, for nothing else is as near. -/
theorem Magnitude.nearest?_of_two_mul_lt {num den : Nat} (h : 2 * num < den) :
    nearest? num den = some .zero := by
  have hden : 0 < den := by omega
  have hlimit : 0 < limit := by decide +kernel
  obtain ⟨w, hw⟩ := exists_nearest? (h.trans_le (Nat.le_mul_of_pos_left den hlimit))
  have hle : w.units * den ≤ 2 * num := by
    have hdist := dist_nearest?_le hden hw .zero
    have hzero : Magnitude.zero.units * den = 0 := Nat.zero_mul den
    rw [hzero] at hdist
    unfold Nat.dist at hdist
    omega
  have hunits : w.units = 0 := by
    by_contra hne
    have hlow := Nat.le_mul_of_pos_left den (Nat.pos_of_ne_zero hne)
    omega
  rw [hw, eq_zero_of_units hunits]

/-- Nothing is nearest to a quotient that reaches the limit. -/
theorem Magnitude.nearest?_of_limit_mul_le {num den : Nat} (hden : 0 < den)
    (h : limit * den ≤ num) : nearest? num den = none := by
  cases hw : nearest? num den with
  | none => rfl
  | some w =>
    have hquotient : limit ≤ num / den := (Nat.le_div_iff_mul_le hden).mpr h
    have hplace : maxPlace + 1 ≤ lastPlace (num / den) := by
      have hlt := hquotient.trans_lt (lt_two_pow_lastPlace (num / den))
      rw [limit] at hlt
      exact (Nat.pow_lt_pow_iff_right (by decide)).mp (Nat.lt_of_mul_lt_mul_left hlt)
    have hlow : 2 ^ 52 * 2 ^ lastPlace (num / den) ≤ num / den := by
      rcases lastPlace_eq_zero_or (num / den) with hzero | hlow
      · omega
      · exact hlow
    have hround : 2 ^ 52 ≤ roundQuotient num (den * 2 ^ lastPlace (num / den)) := by
      refine le_trans ?_ (le_roundQuotient _ _)
      rw [← Nat.div_div_eq_div_mul]
      exact (Nat.le_div_iff_mul_le (Nat.two_pow_pos _)).mpr hlow
    have hunits : limit ≤ w.units :=
      calc limit = 2 ^ 52 * 2 ^ (maxPlace + 1) := by decide +kernel
        _ ≤ 2 ^ 52 * 2 ^ lastPlace (num / den) :=
          Nat.mul_le_mul_left _ (Nat.pow_le_pow_right (by decide) hplace)
        _ ≤ w.units := by
          rw [units_of_nearest? hw]
          exact Nat.mul_le_mul_right _ hround
    exact absurd w.isRepresentable.1 (Nat.not_lt.mpr hunits)

end Binary64

namespace Numeral
open Binary64

theorem lt_ten_pow_length_toDigits (n : Nat) : n < 10 ^ (Nat.toDigits 10 n).length :=
  (Nat.length_toDigits_le_iff (by decide) Nat.length_toDigits_pos).mp le_rfl

theorem ten_pow_length_toDigits_le {n : Nat} (h : n ≠ 0) :
    10 ^ ((Nat.toDigits 10 n).length - 1) ≤ n := by
  by_contra hlt
  rcases Nat.eq_zero_or_pos ((Nat.toDigits 10 n).length - 1) with hone | hpos
  · rw [hone, Nat.pow_zero] at hlt
    omega
  · have hlength := (Nat.length_toDigits_le_iff (by decide) hpos).mpr (Nat.not_le.mp hlt)
    omega

/-- A numeral times a power of ten is rounded once, also where no rounding is done for it. -/
theorem timesTenTo_eq (n : Numeral) (power : Int) : n.timesTenTo power =
    .ofQuotient (n.scaled * 10 ^ power.toNat) (10 ^ (n.places + (-power).toNat)) := by
  unfold timesTenTo
  dsimp only
  split_ifs with hsmall hlarge
  · have htiny : 2 * (n.scaled * 10 ^ power.toNat * one) < 10 ^ (n.places + (-power).toNat) := by
      rcases hsmall with hzero | hpoint
      · rw [hzero, Nat.zero_mul, Nat.zero_mul, Nat.mul_zero]
        exact Nat.pow_pos (by decide)
      · have hdigits := lt_ten_pow_length_toDigits n.scaled
        have hone : 2 * one ≤ 10 ^ 400 := by decide +kernel
        calc 2 * (n.scaled * 10 ^ power.toNat * one)
            = n.scaled * 10 ^ power.toNat * (2 * one) := Nat.mul_left_comm ..
          _ ≤ n.scaled * 10 ^ power.toNat * 10 ^ 400 := Nat.mul_le_mul_left _ hone
          _ = n.scaled * 10 ^ (power.toNat + 400) := by rw [Nat.mul_assoc, ← Nat.pow_add]
          _ < 10 ^ (Nat.toDigits 10 n.scaled).length * 10 ^ (power.toNat + 400) :=
            Nat.mul_lt_mul_of_pos_right hdigits (Nat.pow_pos (by decide))
          _ = 10 ^ ((Nat.toDigits 10 n.scaled).length + (power.toNat + 400)) := (Nat.pow_add ..).symm
          _ ≤ 10 ^ (n.places + (-power).toNat) := Nat.pow_le_pow_right (by decide) (by omega)
    rw [ofQuotient, Magnitude.nearest?_of_two_mul_lt htiny]
    rfl
  · rw [not_or] at hsmall
    have hdigits := ten_pow_length_toDigits_le hsmall.1
    have hhuge : limit * 10 ^ (n.places + (-power).toNat) ≤ n.scaled * 10 ^ power.toNat * one := by
      have hlimit : limit ≤ 10 ^ 400 * one := by decide +kernel
      calc limit * 10 ^ (n.places + (-power).toNat)
          ≤ 10 ^ 400 * one * 10 ^ (n.places + (-power).toNat) := Nat.mul_le_mul_right _ hlimit
        _ = 10 ^ (400 + (n.places + (-power).toNat)) * one := by
          rw [Nat.mul_right_comm, ← Nat.pow_add]
        _ ≤ 10 ^ ((Nat.toDigits 10 n.scaled).length - 1 + power.toNat) * one :=
          Nat.mul_le_mul_right _ (Nat.pow_le_pow_right (by decide) (by omega))
        _ ≤ n.scaled * 10 ^ power.toNat * one := by
          rw [Nat.pow_add]
          exact Nat.mul_le_mul_right _ (Nat.mul_le_mul_right _ hdigits)
    rw [ofQuotient, Magnitude.nearest?_of_limit_mul_le (Nat.pow_pos (by decide)) hhuge]
    rfl
  · rfl

end Numeral

end FormDesk
