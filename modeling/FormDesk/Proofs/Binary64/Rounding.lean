import FormDesk.Binary64.Basic
import Mathlib.Data.Nat.Dist

/-! Rounded quotients are nearest: the integer to the quotient, and the magnitude to the number of
units. What is no farther from a rounded value than the number it came from rounds to it too. -/
namespace FormDesk.Binary64

/-- The integer `k` is nearest to `num / den`, and even when another one is equally near. -/
def NearestEven (num den k : Nat) : Prop :=
  2 * Nat.dist (k * den) num < den ∨ (2 * Nat.dist (k * den) num = den ∧ k % 2 = 0)

theorem nearestEven_roundQuotient (num : Nat) {den : Nat} (h : 0 < den) :
    NearestEven num den (roundQuotient num den) := by
  have hd : num / den * den + num % den = num := Nat.div_add_mod' num den
  have hr : num % den < den := Nat.mod_lt num h
  have hsucc : (num / den + 1) * den = num / den * den + den := Nat.succ_mul ..
  unfold NearestEven roundQuotient Nat.dist
  dsimp only
  split_ifs with hlow hhigh
  · omega
  · rw [hsucc]
    omega
  · rcases Nat.mod_two_eq_zero_or_one (num / den) with heven | hodd
    · rw [heven, Nat.add_zero]
      omega
    · rw [hodd, hsucc]
      omega

theorem NearestEven.unique {num den k l : Nat} (h : 0 < den) (hk : NearestEven num den k)
    (hl : NearestEven num den l) : k = l := by
  have hdist : Nat.dist k l * den ≤ Nat.dist (k * den) num + Nat.dist (l * den) num := by
    rw [← Nat.dist_mul_right, Nat.dist_comm (l * den)]
    exact Nat.dist.triangle_inequality ..
  unfold NearestEven at hk hl
  generalize Nat.dist (k * den) num = a at *
  generalize Nat.dist (l * den) num = b at *
  have hle : Nat.dist k l ≤ 1 := Nat.le_of_mul_le_mul_right (by omega : _ ≤ 1 * den) h
  by_contra hne
  -- Neighbours are both nearest to a midpoint alone, and then they are not both even.
  have hone : Nat.dist k l = 1 := Nat.le_antisymm hle (Nat.dist_pos_of_ne hne)
  rw [hone, Nat.one_mul] at hdist
  have heven : k % 2 = 0 ∧ l % 2 = 0 := by omega
  unfold Nat.dist at hone
  omega

theorem roundQuotient_eq_iff {num den k : Nat} (h : 0 < den) :
    roundQuotient num den = k ↔ NearestEven num den k :=
  ⟨fun hk => hk ▸ nearestEven_roundQuotient num h,
    fun hk => (nearestEven_roundQuotient num h).unique h hk⟩

theorem dist_roundQuotient_le (num k : Nat) {den : Nat} (h : 0 < den) :
    Nat.dist (roundQuotient num den * den) num ≤ Nat.dist (k * den) num := by
  by_contra hlt
  have hround := nearestEven_roundQuotient num h
  have hk : NearestEven num den k := by
    unfold NearestEven at hround ⊢
    omega
  rw [(roundQuotient_eq_iff h).mpr hk] at hlt
  exact hlt le_rfl

/-- What is as near to a rounded quotient as the dividend rounds to it too. -/
theorem roundQuotient_of_dist_le {a b den : Nat} (h : 0 < den)
    (hdist : Nat.dist (roundQuotient a den * den) b ≤ Nat.dist (roundQuotient a den * den) a) :
    roundQuotient b den = roundQuotient a den := by
  rw [roundQuotient_eq_iff h]
  have hround := nearestEven_roundQuotient a h
  unfold NearestEven at hround ⊢
  omega

theorem roundQuotient_mul_mul (num den : Nat) {c : Nat} (hc : 0 < c) :
    roundQuotient (num * c) (den * c) = roundQuotient num den := by
  have hlt : ∀ a b : Nat, a * c < b * c ↔ a < b := fun a b => Nat.mul_lt_mul_right hc
  unfold roundQuotient
  simp only [Nat.mul_div_mul_right num den hc, Nat.mul_mod_mul_right, ← Nat.mul_assoc, hlt]

namespace Magnitude

theorem eq_zero_of_units {m : Magnitude} (h : m.units = 0) : m = .zero := by
  obtain ⟨units, _⟩ := m
  obtain rfl : units = 0 := h
  rfl

theorem lastPlace_eq_zero_or (n : Nat) : lastPlace n = 0 ∨ 2 ^ 52 * 2 ^ lastPlace n ≤ n := by
  by_cases hlog : n.log2 ≤ 52
  · left
    unfold lastPlace
    omega
  · right
    have hn : n ≠ 0 := by
      rintro rfl
      exact hlog (by decide)
    have hexp : 52 + lastPlace n = n.log2 := by
      unfold lastPlace
      omega
    rw [← Nat.pow_add, hexp]
    exact Nat.log2_self_le hn

theorem units_of_nearest? {num den : Nat} {w : Magnitude} (h : nearest? num den = some w) :
    w.units =
      roundQuotient num (den * 2 ^ lastPlace (num / den)) * 2 ^ lastPlace (num / den) := by
  unfold nearest? at h
  dsimp only at h
  split_ifs at h
  cases h
  rfl

/-- The nearest magnitude is as near as any multiple of its last place. -/
private theorem dist_nearest?_le_multiple {num den : Nat} (hden : 0 < den) {w : Magnitude}
    (h : nearest? num den = some w) (j : Nat) :
    Nat.dist (w.units * den) num ≤ Nat.dist (j * 2 ^ lastPlace (num / den) * den) num := by
  have hpos : 0 < den * 2 ^ lastPlace (num / den) := Nat.mul_pos hden (Nat.two_pow_pos _)
  have hshape : ∀ k : Nat, k * 2 ^ lastPlace (num / den) * den =
      k * (den * 2 ^ lastPlace (num / den)) := by
    intro k
    rw [Nat.mul_assoc, Nat.mul_comm den]
  rw [units_of_nearest? h, hshape, hshape]
  exact dist_roundQuotient_le num j hpos

/-- The nearest magnitude is as near as any magnitude. -/
theorem dist_nearest?_le {num den : Nat} (hden : 0 < den) {w : Magnitude}
    (h : nearest? num den = some w) (m : Magnitude) :
    Nat.dist (w.units * den) num ≤ Nat.dist (m.units * den) num := by
  by_cases hplace : lastPlace (num / den) ≤ lastPlace m.units
  · obtain ⟨j, hj⟩ := (Nat.pow_dvd_pow 2 hplace).trans m.isRepresentable.2
    rw [hj, Nat.mul_comm (2 ^ _) j]
    exact dist_nearest?_le_multiple hden h j
  · -- The lowest number with this last place lies between the magnitude and the quotient.
    have hlow : 2 ^ 52 * 2 ^ lastPlace (num / den) ≤ num / den := by
      rcases lastPlace_eq_zero_or (num / den) with hzero | hlow
      · omega
      · exact hlow
    have hbelow : m.units ≤ 2 ^ 52 * 2 ^ lastPlace (num / den) := by
      have hm := lt_two_pow_lastPlace m.units
      have hpow : 2 ^ (lastPlace m.units + 1) ≤ 2 ^ lastPlace (num / den) :=
        Nat.pow_le_pow_right (by decide) (by omega)
      rw [Nat.pow_succ] at hpow
      omega
    have hnum : 2 ^ 52 * 2 ^ lastPlace (num / den) * den ≤ num :=
      (Nat.le_div_iff_mul_le hden).mp hlow
    have hunits := Nat.mul_le_mul_right den hbelow
    refine (dist_nearest?_le_multiple hden h (2 ^ 52)).trans ?_
    rw [Nat.dist_eq_sub_of_le hnum, Nat.dist_eq_sub_of_le (hunits.trans hnum)]
    exact Nat.sub_le_sub_left hunits num

theorem nearest?_mul_mul (num den : Nat) {c : Nat} (hc : 0 < c) :
    nearest? (num * c) (den * c) = nearest? num den := by
  have hround : roundQuotient (num * c) (den * c * 2 ^ lastPlace (num / den)) =
      roundQuotient num (den * 2 ^ lastPlace (num / den)) := by
    rw [Nat.mul_right_comm, roundQuotient_mul_mul num _ hc]
  simp only [nearest?, Nat.mul_div_mul_right num den hc, hround]

/-- Quotients of equal value have one nearest magnitude. -/
theorem nearest?_congr {a b c d : Nat} (hb : 0 < b) (hd : 0 < d) (h : a * d = c * b) :
    nearest? a b = nearest? c d := by
  rw [← nearest?_mul_mul a b hd, ← nearest?_mul_mul c d hb, h, Nat.mul_comm b d]

/-- Units in the lower half of the range have a nearest magnitude. -/
theorem exists_nearest? {num den : Nat} (h : 2 * num < limit * den) :
    ∃ w, nearest? num den = some w := by
  have hhalf : 2 * (num / den) < limit := by
    refine Nat.lt_of_mul_lt_mul_right (a := den) (lt_of_le_of_lt ?_ h)
    rw [Nat.mul_assoc]
    exact Nat.mul_le_mul_left 2 (Nat.div_mul_le_self num den)
  have hround : roundQuotient num (den * 2 ^ lastPlace (num / den)) * 2 ^ lastPlace (num / den) ≤
      num / den + 2 ^ lastPlace (num / den) := by
    have hle := roundQuotient_le num (den * 2 ^ lastPlace (num / den))
    rw [← Nat.div_div_eq_div_mul] at hle
    refine (Nat.mul_le_mul_right _ hle).trans ?_
    rw [Nat.succ_mul]
    exact Nat.add_le_add_right (Nat.div_mul_le_self ..) _
  have hone : 1 < limit := two_pow_mul_lt_limit (m := 1) (e := 0) (by decide) (by decide)
  have hlt : roundQuotient num (den * 2 ^ lastPlace (num / den)) * 2 ^ lastPlace (num / den) <
      limit := by
    refine lt_of_le_of_lt hround ?_
    rcases lastPlace_eq_zero_or (num / den) with hzero | hlow
    · rw [hzero]
      omega
    · omega
  unfold nearest?
  dsimp only
  rw [dif_pos hlt]
  exact ⟨_, rfl⟩

end Magnitude

end FormDesk.Binary64
