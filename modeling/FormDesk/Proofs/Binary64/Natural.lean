import FormDesk.Numeral
import FormDesk.Proofs.Binary64.Fixed
import FormDesk.Proofs.Binary64.Sign
import Mathlib.Algebra.BigOperators.Group.List.Basic
import Mathlib.Data.List.Infix

/-! Natural numbers as values. Each of them up to `2 ^ 53` is a magnitude, so a sum or a product
that stays within this range is exact, and so is a running one. -/
namespace FormDesk.Binary64

/-- The natural numbers up to this one are magnitudes. -/
def exactLimit : Nat := 2 ^ 53

/-- The value nearest to a natural number. -/
def ofNat (n : Nat) : Binary64 := ofQuotient n 1

def Magnitude.ofNat (n : Nat) (h : n ≤ exactLimit) : Magnitude where
  units := n * one
  isRepresentable := by
    refine ⟨?_, two_pow_lastPlace_dvd h⟩
    have hscaled : n * one ≤ exactLimit * one := Nat.mul_le_mul_right one h
    have hlimit : exactLimit * one < limit := by decide +kernel
    exact Nat.lt_of_le_of_lt hscaled hlimit

@[simp] theorem Magnitude.units_ofNat (n : Nat) (h : n ≤ exactLimit) :
    (Magnitude.ofNat n h).units = n * one := by
  unfold Magnitude.ofNat
  rfl

theorem ofNat_eq {n : Nat} (h : n ≤ exactLimit) : ofNat n = .finite false (.ofNat n h) := by
  have hnearest : Magnitude.nearest? (n * one) 1 = some (.ofNat n h) := by
    rw [← Magnitude.nearest?_units_mul (.ofNat n h) Nat.one_pos, Nat.mul_one]
    rfl
  rw [ofNat, ofQuotient, hnearest]
  rfl

theorem ofNat_mul {a b : Nat} (ha : a ≤ exactLimit) (hb : b ≤ exactLimit)
    (hab : a * b ≤ exactLimit) : ofNat a * ofNat b = ofNat (a * b) := by
  have hunits : a * one * (b * one) = a * b * one * one := by
    rw [Nat.mul_mul_mul_comm, Nat.mul_assoc (a * b)]
  have hnearest : Magnitude.nearest? (a * one * (b * one)) one = some (.ofNat (a * b) hab) := by
    rw [hunits]
    exact Magnitude.nearest?_units_mul (.ofNat (a * b) hab) one_pos
  rw [ofNat_eq ha, ofNat_eq hb, ofNat_eq hab, finite_mul_finite]
  exact congrArg (ofRounded false) hnearest

theorem ofNat_add {a b : Nat} (hab : a + b ≤ exactLimit) : ofNat a + ofNat b = ofNat (a + b) := by
  have ha : a ≤ exactLimit := by omega
  have hb : b ≤ exactLimit := by omega
  have hnearest : Magnitude.nearest? (a * one + b * one) 1 = some (.ofNat (a + b) hab) := by
    rw [← Nat.add_mul, ← Nat.mul_one ((a + b) * one)]
    exact Magnitude.nearest?_units_mul (.ofNat (a + b) hab) Nat.one_pos
  rw [ofNat_eq ha, ofNat_eq hb, ofNat_eq hab, finite_add_finite]
  exact congrArg (ofRounded false) hnearest

/-- A running product that stays within the range is exact. -/
theorem foldl_mul_ofNat {a : Nat} {xs : List Nat} (hxs : ∀ x ∈ xs, x ≤ exactLimit)
    (h : ∀ front ∈ xs.inits, a * front.prod ≤ exactLimit) :
    (xs.map ofNat).foldl (· * ·) (ofNat a) = ofNat (a * xs.prod) := by
  have ha : a ≤ exactLimit := by simpa using h [] (by simp)
  induction xs generalizing a with
  | nil => rw [List.map_nil, List.foldl_nil, List.prod_nil, Nat.mul_one]
  | cons x xs ih =>
    rw [List.forall_mem_cons] at hxs
    rw [List.inits_cons, List.forall_mem_cons, List.forall_mem_map] at h
    have hrest : ∀ front ∈ xs.inits, a * x * front.prod ≤ exactLimit := by
      intro front hfront
      have hnext := h.2 front hfront
      rwa [List.prod_cons, ← Nat.mul_assoc] at hnext
    have hax : a * x ≤ exactLimit := by simpa using hrest [] (by simp)
    rw [List.map_cons, List.foldl_cons, ofNat_mul ha hxs.1 hax, ih hxs.2 hrest hax,
      List.prod_cons, Nat.mul_assoc]

/-- A running sum that stays within the range is exact. -/
theorem foldl_add_ofNat {a : Nat} {xs : List Nat}
    (h : ∀ front ∈ xs.inits, a + front.sum ≤ exactLimit) :
    (xs.map ofNat).foldl (· + ·) (ofNat a) = ofNat (a + xs.sum) := by
  induction xs generalizing a with
  | nil => rw [List.map_nil, List.foldl_nil, List.sum_nil, Nat.add_zero]
  | cons x xs ih =>
    rw [List.inits_cons, List.forall_mem_cons, List.forall_mem_map] at h
    have hrest : ∀ front ∈ xs.inits, a + x + front.sum ≤ exactLimit := by
      intro front hfront
      have hnext := h.2 front hfront
      rwa [List.sum_cons, ← Nat.add_assoc] at hnext
    have hax : a + x ≤ exactLimit := by simpa using hrest [] (by simp)
    rw [List.map_cons, List.foldl_cons, ofNat_add hax, ih hrest, List.sum_cons, Nat.add_assoc]

end FormDesk.Binary64
