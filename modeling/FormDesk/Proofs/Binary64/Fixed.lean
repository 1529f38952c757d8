import FormDesk.Binary64.Fixed
import FormDesk.Proofs.Binary64.Rounding
import Mathlib.Tactic.Ring

/-! Magnitudes rounded to decimal places. What is read back from a rounded magnitude is rounded to
the same number of units of the last place. -/
namespace FormDesk.Binary64.Magnitude

theorem whole_mul_one {m : Magnitude} (h : m.isWhole = true) : m.whole * one = m.units := by
  have hmod : m.units % one = 0 := by simpa [isWhole] using h
  exact Nat.div_mul_cancel (Nat.dvd_of_mod_eq_zero hmod)

theorem rounded_of_isWhole {m : Magnitude} (h : m.isWhole = true) (places : Nat) :
    m.rounded places = m.whole * 10 ^ places := by
  rw [rounded, ← whole_mul_one h, Nat.mul_right_comm, roundQuotient_mul_right _ one_pos]

/-- A magnitude with a fraction is below `2 ^ 52`. -/
theorem units_lt_of_not_isWhole {m : Magnitude} (h : m.isWhole = false) :
    m.units < 2 ^ 52 * one := by
  have hplace : lastPlace m.units < unitPlaces := by
    by_contra hle
    have hdvd : one ∣ m.units :=
      (Nat.pow_dvd_pow 2 (Nat.le_of_not_lt hle)).trans m.isRepresentable.2
    have hmod : m.units % one = 0 := Nat.mod_eq_zero_of_dvd hdvd
    simp [isWhole, hmod] at h
  have hlt := lt_two_pow_lastPlace m.units
  have hpow : 2 ^ (lastPlace m.units + 1) ≤ 2 ^ unitPlaces :=
    Nat.pow_le_pow_right (by decide) hplace
  rw [Nat.pow_succ] at hpow
  unfold one
  omega

private theorem exists_nearest?_rounded_aux (m : Magnitude) (places : Nat) :
    ∃ w, nearest? (m.rounded places * one) (10 ^ places) = some w := by
  have hpos : 0 < 10 ^ places := Nat.pow_pos (by decide)
  cases hwhole : m.isWhole with
  | true =>
    refine ⟨m, ?_⟩
    have hscaled : m.rounded places * one = m.units * 10 ^ places := by
      rw [rounded_of_isWhole hwhole, Nat.mul_right_comm, whole_mul_one hwhole]
    rw [hscaled, nearest?_units_mul m hpos]
  | false =>
    -- Rounding adds half a unit at most, which is far from enough to reach the limit.
    have hunits : m.units * 10 ^ places ≤ 2 ^ 52 * one * 10 ^ places :=
      Nat.mul_le_mul_right _ (Nat.le_of_lt (units_lt_of_not_isWhole hwhole))
    have hrounded : 2 * (m.rounded places * one) ≤ 2 * (m.units * 10 ^ places) + one :=
      two_mul_roundQuotient_le _ one_pos
    have hunit : one ≤ one * 10 ^ places := Nat.le_mul_of_pos_right _ hpos
    have hlimit : 2 ^ 53 * one + one < limit := by decide +kernel
    have hlow : 2 * (m.rounded places * one) < limit * 10 ^ places :=
      calc 2 * (m.rounded places * one)
          ≤ 2 * (m.units * 10 ^ places) + one := hrounded
        _ ≤ 2 * (2 ^ 52 * one * 10 ^ places) + one * 10 ^ places :=
          Nat.add_le_add (Nat.mul_le_mul_left 2 hunits) hunit
        _ = (2 ^ 53 * one + one) * 10 ^ places := by ring
        _ < limit * 10 ^ places := Nat.mul_lt_mul_of_pos_right hlimit hpos
    exact exists_nearest? hlow

/-- What is read from a magnitude rounded to some places rounds to the same number. -/
theorem exists_nearest?_rounded (m : Magnitude) (places : Nat) :
    ∃ w, nearest? (m.rounded places * one) (10 ^ places) = some w ∧
      w.rounded places = m.rounded places := by
  obtain ⟨w, hw⟩ := exists_nearest?_rounded_aux m places
  -- What is read is as near to the rounded number as the magnitude is.
  refine ⟨w, hw, roundQuotient_of_dist_le one_pos ?_⟩
  have hdist := dist_nearest?_le (Nat.pow_pos (by decide)) hw m
  rw [Nat.dist_comm, Nat.dist_comm _ (m.units * _)]
  exact hdist

end FormDesk.Binary64.Magnitude
