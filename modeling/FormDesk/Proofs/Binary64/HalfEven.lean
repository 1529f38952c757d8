import FormDesk.Proofs.Binary64.Natural
import Mathlib.Algebra.Order.Ring.Abs
import Mathlib.Algebra.Order.Ring.Rat
import Mathlib.Algebra.Ring.Int.Parity
import Mathlib.Tactic.FieldSimp
import Mathlib.Tactic.Linarith

/-! Exact rational values, and rounding to decimal places with ties to even. A rounded magnitude
is the nearest multiple of its last place, however many places are asked for. -/
namespace FormDesk.Binary64

/-- The integer nearest to a number; of two equally near ones, the even one. -/
def RoundsEvenTo (x : ℚ) (k : ℤ) : Prop := |x - k| < 1 / 2 ∨ |x - k| = 1 / 2 ∧ Even k

/-- The number rounded to a multiple of `10 ^ -places`. -/
def RoundsToPlaces (x : ℚ) (places : ℕ) (q : ℚ) : Prop :=
  ∃ k : ℤ, RoundsEvenTo (x * 10 ^ places) k ∧ q = k / 10 ^ places

theorem RoundsEvenTo.dist_le {x : ℚ} {k : ℤ} (h : RoundsEvenTo x k) : |x - k| ≤ 1 / 2 := by
  rcases h with h | h
  · exact h.le
  · exact h.1.le

theorem RoundsEvenTo.unique {x : ℚ} {k l : ℤ} (hk : RoundsEvenTo x k) (hl : RoundsEvenTo x l) :
    k = l := by
  have hclose : |(k : ℚ) - l| ≤ |x - k| + |x - l| := by
    have h := abs_sub_le (k : ℚ) x l
    rwa [abs_sub_comm (k : ℚ) x] at h
  have hkle := hk.dist_le
  have hlle := hl.dist_le
  by_contra hne
  have hapart : (1 : ℤ) ≤ |k - l| := by
    have := abs_pos.mpr (sub_ne_zero.mpr hne)
    omega
  have hapart' : (1 : ℚ) ≤ |(k : ℚ) - l| := by exact_mod_cast hapart
  -- Two integers are both nearest only as neighbours of a midpoint, and one of them is odd.
  have hone : |k - l| = 1 := by
    have : |(k : ℚ) - l| = 1 := by linarith
    exact_mod_cast this
  rcases hk with hk | ⟨-, hkeven⟩
  · linarith
  rcases hl with hl | ⟨-, hleven⟩
  · linarith
  have heven : Even (k - l) := hkeven.sub hleven
  rw [← even_abs, hone] at heven
  exact absurd heven (by decide)

theorem RoundsEvenTo.neg {x : ℚ} {k : ℤ} (h : RoundsEvenTo x k) : RoundsEvenTo (-x) (-k) := by
  have hdist : |(-x) - ((-k : ℤ) : ℚ)| = |x - k| := by
    rw [Int.cast_neg, ← abs_neg]
    congr 1
    ring
  unfold RoundsEvenTo
  rwa [hdist, even_neg]

theorem RoundsToPlaces.unique {x q r : ℚ} {places : ℕ} (hq : RoundsToPlaces x places q)
    (hr : RoundsToPlaces x places r) : q = r := by
  obtain ⟨k, hk, rfl⟩ := hq
  obtain ⟨l, hl, rfl⟩ := hr
  rw [hk.unique hl]

theorem RoundsToPlaces.neg {x q : ℚ} {places : ℕ} (h : RoundsToPlaces x places q) :
    RoundsToPlaces (-x) places (-q) := by
  obtain ⟨k, hk, rfl⟩ := h
  refine ⟨-k, ?_, ?_⟩
  · rw [neg_mul]
    exact hk.neg
  · push_cast
    ring

theorem cast_dist (a b : ℕ) : ((Nat.dist a b : ℕ) : ℚ) = |(a : ℚ) - b| := by
  rcases Nat.le_total a b with h | h
  · have hle : (a : ℚ) ≤ b := by exact_mod_cast h
    rw [Nat.dist_eq_sub_of_le h, Nat.cast_sub h, abs_sub_comm, abs_of_nonneg (by linarith)]
  · have hle : (b : ℚ) ≤ a := by exact_mod_cast h
    rw [Nat.dist_eq_sub_of_le_right h, Nat.cast_sub h, abs_of_nonneg (by linarith)]

theorem NearestEven.roundsEvenTo {num den k : ℕ} (hden : 0 < den) (h : NearestEven num den k) :
    RoundsEvenTo ((num : ℚ) / den) k := by
  have hpos : (0 : ℚ) < den := by exact_mod_cast hden
  have hdist : |(num : ℚ) / den - ((k : ℤ) : ℚ)| = (Nat.dist (k * den) num : ℕ) / (den : ℚ) := by
    rw [cast_dist, eq_div_iff hpos.ne', ← abs_of_pos hpos, ← abs_mul, abs_of_pos hpos,
      abs_sub_comm]
    congr 1
    push_cast
    field_simp
  unfold RoundsEvenTo
  rw [hdist, div_lt_iff₀ hpos, div_eq_iff hpos.ne']
  rcases h with hlt | ⟨htie, heven⟩
  · have hlt' : 2 * ((Nat.dist (k * den) num : ℕ) : ℚ) < den := by exact_mod_cast hlt
    exact Or.inl (by linarith)
  · have htie' : 2 * ((Nat.dist (k * den) num : ℕ) : ℚ) = den := by exact_mod_cast htie
    have hk : Even (k : ℤ) := (Int.even_coe_nat k).mpr (Nat.even_iff.mpr heven)
    exact Or.inr ⟨by linarith, hk⟩

namespace Magnitude

/-- The exact value of a magnitude. -/
def toRat (m : Magnitude) : ℚ := m.units / one

theorem cast_one_pos : (0 : ℚ) < (one : ℕ) := by exact_mod_cast Binary64.one_pos

theorem toRat_nonneg (m : Magnitude) : 0 ≤ m.toRat :=
  div_nonneg (Nat.cast_nonneg _) cast_one_pos.le

theorem toRat_pos_iff {m : Magnitude} : 0 < m.toRat ↔ 0 < m.units := by
  rw [toRat, lt_div_iff₀ cast_one_pos, zero_mul, Nat.cast_pos]

theorem toRat_ofNat {n : ℕ} (h : n ≤ exactLimit) : (ofNat n h).toRat = n := by
  rw [toRat, units_ofNat, Nat.cast_mul, mul_div_assoc, div_self cast_one_pos.ne', mul_one]

theorem roundsEvenTo_rounded (m : Magnitude) (places : ℕ) :
    RoundsEvenTo (m.toRat * 10 ^ places) (m.rounded places : ℕ) := by
  have hnear : NearestEven (m.units * 10 ^ places) one (m.rounded places) :=
    nearestEven_roundQuotient _ Binary64.one_pos
  have hvalue : m.toRat * 10 ^ places = ((m.units * 10 ^ places : ℕ) : ℚ) / (one : ℕ) := by
    rw [toRat]
    push_cast
    ring
  rw [hvalue]
  exact hnear.roundsEvenTo Binary64.one_pos

/-- No magnitude has more than `unitPlaces` decimal places: more of them add zeros. -/
theorem rounded_unitPlaces_add (m : Magnitude) (j : ℕ) :
    m.rounded (unitPlaces + j) = m.rounded unitPlaces * 10 ^ j := by
  have hten : 10 ^ unitPlaces = 5 ^ unitPlaces * one := by
    unfold one
    rw [← Nat.mul_pow]
  have hexact : m.rounded unitPlaces = m.units * 5 ^ unitPlaces := by
    rw [rounded, hten, ← Nat.mul_assoc, roundQuotient_mul_right _ Binary64.one_pos]
  have hshift : m.units * 10 ^ (unitPlaces + j) = m.units * 5 ^ unitPlaces * 10 ^ j * one := by
    rw [Nat.pow_add, hten]
    ring
  rw [hexact, rounded, hshift, roundQuotient_mul_right _ Binary64.one_pos]

theorem roundsToPlaces_rounded_min (m : Magnitude) (places : ℕ) :
    RoundsToPlaces m.toRat places
      ((m.rounded (min places unitPlaces) : ℕ) / 10 ^ min places unitPlaces) := by
  refine ⟨m.rounded places, m.roundsEvenTo_rounded places, ?_⟩
  rcases Nat.le_total places unitPlaces with hle | hge
  · rw [Nat.min_eq_left hle]
    rfl
  · obtain ⟨j, rfl⟩ := Nat.exists_eq_add_of_le hge
    have hzeros : (10 : ℚ) ^ j ≠ 0 := pow_ne_zero j (by norm_num)
    rw [Nat.min_eq_right hge, rounded_unitPlaces_add, pow_add]
    push_cast
    rw [mul_div_mul_right _ _ hzeros]

end Magnitude

/-- The exact value of a finite value. Infinities and NaN have none. -/
def toRat? : Binary64 → Option ℚ
  | .nan => none
  | .infinity _ => none
  | .finite negative m => some (if negative then -m.toRat else m.toRat)

/-- The value with the other sign. -/
def neg : Binary64 → Binary64
  | .nan => .nan
  | .infinity negative => .infinity (!negative)
  | .finite negative m => .finite (!negative) m

instance : Neg Binary64 := ⟨neg⟩

/-- A negative value is the one that has a sign and is not zero. -/
theorem decide_neg_of_toRat? {negative : Bool} {m : Magnitude} {x : ℚ}
    (hx : (finite negative m).toRat? = some x) :
    decide (x < 0) = (negative && m.units != 0) := by
  have hvalue : x = if negative then -m.toRat else m.toRat := (Option.some.inj hx).symm
  have hsign : x < 0 ↔ negative = true ∧ 0 < m.units := by
    rw [hvalue, ← m.toRat_pos_iff]
    cases negative with
    | false => simp [m.toRat_nonneg]
    | true => simp
  rw [Bool.eq_iff_iff, decide_eq_true_iff, Bool.and_eq_true, bne_iff_ne, hsign,
    Nat.pos_iff_ne_zero]

theorem eq_of_toRat? {negative : Bool} {m : Magnitude} {x : ℚ}
    (hx : (finite negative m).toRat? = some x) :
    x = if decide (x < 0) then -m.toRat else m.toRat := by
  have hvalue : x = if negative then -m.toRat else m.toRat := (Option.some.inj hx).symm
  rw [decide_neg_of_toRat? hx]
  cases negative with
  | false => exact hvalue
  | true =>
    by_cases hzero : m.units = 0
    · have hm : m.toRat = 0 := by rw [Magnitude.toRat, hzero, Nat.cast_zero, zero_div]
      simpa [hm] using hvalue
    · simpa [hzero] using hvalue

theorem exists_of_toRat?_pos {v : Binary64} {x : ℚ} (hv : v.toRat? = some x) (hx : 0 < x) :
    ∃ m : Magnitude, v = .finite false m ∧ 0 < m.units := by
  cases v with
  | nan => cases hv
  | infinity negative => cases hv
  | finite negative m =>
    have hvalue := eq_of_toRat? hv
    have hsign := decide_neg_of_toRat? hv
    rw [decide_eq_false (not_lt.mpr hx.le)] at hvalue hsign
    have hpos : 0 < m.units := by
      rw [← m.toRat_pos_iff]
      rwa [hvalue] at hx
    have hnonzero : (m.units != 0) = true := bne_iff_ne.mpr hpos.ne'
    rw [hnonzero, Bool.and_true] at hsign
    exact ⟨m, by rw [← hsign], hpos⟩

end FormDesk.Binary64
