import FormDesk.Binary64.Interchange
import FormDesk.Proofs.Binary64.Rounding
import Mathlib.Tactic.SplitIfs

/-! Signs of sums and products. Values without a sign stay so, and negative zero is neutral. -/
namespace FormDesk.Binary64

attribute [local instance (high)] instPowNat

/-- A NaN or a value whose sign bit is clear. -/
inductive Unsigned : Binary64 → Prop
  | nan : Unsigned .nan
  | infinity : Unsigned (.infinity false)
  | finite (m : Magnitude) : Unsigned (.finite false m)

theorem Magnitude.lastPlace_le (m : Magnitude) : lastPlace m.units ≤ maxPlace := by
  have hlt : m.units < 2 ^ (53 + maxPlace) := by
    rw [Nat.pow_add]
    exact m.isRepresentable.1
  by_cases hzero : m.units = 0
  · rw [hzero]
    decide
  · have hlog : m.units.log2 < 53 + maxPlace := (Nat.log2_lt hzero).mpr hlt
    unfold lastPlace
    omega

theorem Magnitude.bits_lt (m : Magnitude) : m.bits < 2047 * 2 ^ (52 : Nat) := by
  have hplace : lastPlace m.units ≤ 2045 := m.lastPlace_le
  have hsignificand : m.units / 2 ^ lastPlace m.units < 2 ^ (53 : Nat) :=
    Nat.div_lt_of_lt_mul (Nat.mul_comm .. ▸ lt_two_pow_lastPlace m.units)
  unfold Magnitude.bits
  dsimp only
  omega

/-- The values without a sign are those whose highest bit is clear. -/
theorem unsigned_iff_toBits_lt {v : Binary64} : Unsigned v ↔ v.toBits < 2 ^ (63 : Nat) := by
  cases v with
  | nan => exact ⟨fun _ => by decide, fun _ => .nan⟩
  | infinity negative =>
    cases negative with
    | false => exact ⟨fun _ => by decide, fun _ => .infinity⟩
    | true => exact ⟨nofun, fun h => absurd h (by decide)⟩
  | finite negative m =>
    have hbits := m.bits_lt
    cases negative with
    | false =>
      refine ⟨fun _ => ?_, fun _ => .finite m⟩
      unfold toBits
      simp only [Bool.toNat_false]
      omega
    | true =>
      refine ⟨nofun, fun h => ?_⟩
      unfold toBits at h
      simp only [Bool.toNat_true] at h
      omega

theorem unsigned_ofRounded (m? : Option Magnitude) : Unsigned (ofRounded false m?) := by
  cases m? with
  | none => exact .infinity
  | some m => exact .finite m

theorem unsigned_ofQuotient (num den : Nat) : Unsigned (ofQuotient num den) :=
  unsigned_ofRounded _

theorem finite_add_finite (negative : Bool) (x y : Magnitude) :
    finite negative x + finite negative y =
      ofRounded negative (Magnitude.nearest? (x.units + y.units) 1) := by
  change Binary64.add _ _ = _
  simp only [Binary64.add, if_true]

theorem finite_mul_finite (a b : Bool) (x y : Magnitude) :
    finite a x * finite b y = ofRounded (a != b) (Magnitude.nearest? (x.units * y.units) one) := by
  change Binary64.mul _ _ = _
  simp only [Binary64.mul]

theorem Unsigned.add {x y : Binary64} (hx : Unsigned x) (hy : Unsigned y) : Unsigned (x + y) := by
  cases hx with
  | nan => exact .nan
  | infinity =>
    cases hy with
    | nan => exact .nan
    | infinity => exact .infinity
    | finite n => exact .infinity
  | finite m =>
    cases hy with
    | nan => exact .nan
    | infinity => exact .infinity
    | finite n =>
      rw [finite_add_finite]
      exact unsigned_ofRounded _

theorem Unsigned.mul {x y : Binary64} (hx : Unsigned x) (hy : Unsigned y) : Unsigned (x * y) := by
  cases hx with
  | nan => exact .nan
  | infinity =>
    cases hy with
    | nan => exact .nan
    | infinity => exact .infinity
    | finite n =>
      change Unsigned (Binary64.mul _ _)
      simp only [Binary64.mul]
      split_ifs
      · exact .nan
      · exact .infinity
  | finite m =>
    cases hy with
    | nan => exact .nan
    | infinity =>
      change Unsigned (Binary64.mul _ _)
      simp only [Binary64.mul]
      split_ifs
      · exact .nan
      · exact .infinity
    | finite n =>
      rw [finite_mul_finite]
      exact unsigned_ofRounded _

/-- Negative zero is neutral. -/
theorem zero_true_add (x : Binary64) : zero true + x = x := by
  change Binary64.add (.finite true .zero) x = x
  have hzero : Magnitude.zero.units = 0 := rfl
  cases x with
  | nan => rfl
  | infinity b => rfl
  | finite b m =>
    have hkeep : Magnitude.nearest? m.units 1 = some m := by
      simpa using Magnitude.nearest?_units_mul m Nat.one_pos
    simp only [Binary64.add, hzero, Nat.zero_add, Nat.sub_zero, hkeep]
    split_ifs with hb hneg hpos
    · rw [← hb]
      rfl
    · omega
    · rfl
    · have hm : m = .zero := Magnitude.eq_zero_of_units (Nat.eq_zero_of_not_pos hpos)
      have hfalse : b = false := by simpa using hb
      rw [hm, hfalse]
      rfl

end FormDesk.Binary64
