import FormDesk.Binary64.Rounding

/-! Binary64 values. A finite magnitude is a number of units of `2 ^ -1074`, the distance between
the smallest magnitudes, and arithmetic rounds an exact quotient of units once. -/
namespace FormDesk.Binary64

-- Powers are the core ones, also where those of a monoid are in scope. An exponent that is a
-- numeral has to be told to be a `Nat` for this.
attribute [local instance (high)] instPowNat

/-- The exponent of the last significant place of a number of units: 53 places are kept. -/
def lastPlace (units : Nat) : Nat := units.log2 - 52

def maxPlace : Nat := 2045

def limit : Nat := 2 ^ (53 : Nat) * 2 ^ maxPlace

/-- The binary places of a unit after the point, and its decimal places as well. -/
def unitPlaces : Nat := 1074

def one : Nat := 2 ^ unitPlaces

theorem one_pos : 0 < one := Nat.two_pow_pos unitPlaces

theorem two_pow_mul_lt_limit {m e : Nat} (hm : m < 2 ^ (53 : Nat)) (he : e ≤ maxPlace) :
    m * 2 ^ e < limit := by
  have lo : m * 2 ^ e < 2 ^ (53 : Nat) * 2 ^ e :=
    Nat.mul_lt_mul_of_pos_right hm (Nat.two_pow_pos e)
  have hi : 2 ^ e ≤ 2 ^ maxPlace := Nat.pow_le_pow_right (by decide) he
  unfold limit
  exact Nat.lt_of_lt_of_le lo (Nat.mul_le_mul_left _ hi)

/-- A number of units below `2 ^ 1024` that 53 significant binary places write exactly. -/
def Representable (units : Nat) : Prop := units < limit ∧ 2 ^ lastPlace units ∣ units

instance (units : Nat) : Decidable (Representable units) := by
  unfold Representable
  infer_instance

/-- A finite magnitude, counted in units of `2 ^ -1074`. -/
structure Magnitude where
  units : Nat
  isRepresentable : Representable units
  deriving DecidableEq

theorem lt_two_pow_lastPlace (u : Nat) : u < 2 ^ (53 : Nat) * 2 ^ lastPlace u := by
  have h : u < 2 ^ (u.log2 + 1) := Nat.lt_log2_self
  refine Nat.lt_of_lt_of_le h ?_
  rw [← Nat.pow_add]
  exact Nat.pow_le_pow_right (by decide) (by unfold lastPlace; omega)

theorem lastPlace_mul_two_pow_le {m e : Nat} (h : m < 2 ^ (53 : Nat)) :
    lastPlace (m * 2 ^ e) ≤ e := by
  unfold lastPlace
  by_cases hm : m = 0
  · simp [hm]
  · have hne : m * 2 ^ e ≠ 0 := Nat.mul_ne_zero hm (Nat.ne_of_gt (Nat.two_pow_pos e))
    have : (m * 2 ^ e).log2 < 53 + e := by
      rw [Nat.log2_lt hne, Nat.pow_add]
      exact Nat.mul_lt_mul_of_pos_right h (Nat.two_pow_pos e)
    omega

/-- A significand of at most `2 ^ 53` shifted to any place is exact. -/
theorem two_pow_lastPlace_dvd {m e : Nat} (h : m ≤ 2 ^ (53 : Nat)) :
    2 ^ lastPlace (m * 2 ^ e) ∣ m * 2 ^ e := by
  rcases Nat.lt_or_eq_of_le h with h | rfl
  · exact Nat.dvd_trans (Nat.pow_dvd_pow 2 (lastPlace_mul_two_pow_le h)) (Nat.dvd_mul_left ..)
  · rw [← Nat.pow_add]
    exact Nat.pow_dvd_pow 2 (by unfold lastPlace; rw [Nat.log2_two_pow]; omega)

theorem roundQuotient_lastPlace_le (num den : Nat) :
    roundQuotient num (den * 2 ^ lastPlace (num / den)) ≤ 2 ^ (53 : Nat) := by
  have hk : num / (den * 2 ^ lastPlace (num / den)) < 2 ^ (53 : Nat) := by
    rw [← Nat.div_div_eq_div_mul]
    exact Nat.div_lt_of_lt_mul (by rw [Nat.mul_comm]; exact lt_two_pow_lastPlace _)
  have := roundQuotient_le num (den * 2 ^ lastPlace (num / den))
  omega

namespace Magnitude

/-- The magnitude nearest to `num / den` units, ties to the even significand; none when that is
beyond the largest magnitude. -/
def nearest? (num den : Nat) : Option Magnitude :=
  let place := lastPlace (num / den)
  let units := roundQuotient num (den * 2 ^ place) * 2 ^ place
  if h : units < limit then
    some ⟨units, h, two_pow_lastPlace_dvd (roundQuotient_lastPlace_le num den)⟩
  else none

@[simp] theorem nearest?_units_mul (m : Magnitude) {den : Nat} (h : 0 < den) :
    nearest? (m.units * den) den = some m := by
  obtain ⟨units, hlt, hdvd⟩ := m
  obtain ⟨k, hk⟩ := hdvd
  have hround : roundQuotient (units * den) (den * 2 ^ lastPlace units) * 2 ^ lastPlace units =
      units := by
    have he : units * den = k * (den * 2 ^ lastPlace units) := by
      rw [Nat.mul_left_comm k, Nat.mul_comm k, ← hk, Nat.mul_comm]
    rw [he, roundQuotient_mul_right k (Nat.mul_pos h (Nat.two_pow_pos _)), Nat.mul_comm, ← hk]
  simp only [nearest?, Nat.mul_div_cancel units h, hround]
  rw [dif_pos hlt]

def zero : Magnitude where
  units := 0
  isRepresentable :=
    ⟨by simpa using two_pow_mul_lt_limit (m := 0) (e := 0) (by decide) (by decide), Nat.dvd_zero _⟩

/-- A significand below `2 ^ 53` at one of the places of the finite range. -/
def ofSignificand (m e : Nat) (hm : m < 2 ^ (53 : Nat)) (he : e ≤ maxPlace) : Magnitude where
  units := m * 2 ^ e
  isRepresentable := ⟨two_pow_mul_lt_limit hm he, two_pow_lastPlace_dvd (Nat.le_of_lt hm)⟩

end Magnitude

end Binary64

/-- A binary64 value. The payload of a NaN is not told apart. -/
inductive Binary64 where
  | nan
  | infinity (negative : Bool)
  | finite (negative : Bool) (magnitude : Binary64.Magnitude)
  deriving DecidableEq

namespace Binary64

/-- The value of a rounded magnitude, infinite when there is none. -/
def ofRounded (negative : Bool) : Option Magnitude → Binary64
  | some m => .finite negative m
  | none => .infinity negative

def zero (negative : Bool) : Binary64 := .finite negative .zero

def isFinite : Binary64 → Bool
  | .finite _ _ => true
  | _ => false

def ofQuotient (num den : Nat) : Binary64 :=
  ofRounded false (Magnitude.nearest? (num * one) den)

/-- The sum of two values. Opposite equal magnitudes add up to positive zero. -/
def add : Binary64 → Binary64 → Binary64
  | .nan, _ => .nan
  | _, .nan => .nan
  | .infinity a, .infinity b => if a = b then .infinity a else .nan
  | .infinity a, .finite _ _ => .infinity a
  | .finite _ _, .infinity b => .infinity b
  | .finite a x, .finite b y =>
    if a = b then ofRounded a (Magnitude.nearest? (x.units + y.units) 1)
    else if y.units < x.units then ofRounded a (Magnitude.nearest? (x.units - y.units) 1)
    else if x.units < y.units then ofRounded b (Magnitude.nearest? (y.units - x.units) 1)
    else zero false

/-- The product of two values. An infinity times zero is no number. -/
def mul : Binary64 → Binary64 → Binary64
  | .nan, _ => .nan
  | _, .nan => .nan
  | .infinity a, .infinity b => .infinity (a != b)
  | .infinity a, .finite b y => if y.units = 0 then .nan else .infinity (a != b)
  | .finite a x, .infinity b => if x.units = 0 then .nan else .infinity (a != b)
  | .finite a x, .finite b y =>
    ofRounded (a != b) (Magnitude.nearest? (x.units * y.units) one)

instance : Add Binary64 := ⟨add⟩
instance : Mul Binary64 := ⟨mul⟩

end Binary64

end FormDesk
