import FormDesk.Proofs.Binary64.Sign
import Mathlib.Tactic.ByContra

/-! Where a NaN comes from. A product makes one of an infinity and a zero only, and a sum of values
without a sign makes none. -/
namespace FormDesk.Binary64

/-- One of two factors is an infinity, and the other one a zero. -/
inductive InfinityAndZero : Binary64 → Binary64 → Prop
  | infinityFirst (a b : Bool) : InfinityAndZero (.infinity a) (zero b)
  | zeroFirst (a b : Bool) : InfinityAndZero (zero a) (.infinity b)

theorem ofRounded_ne_nan (negative : Bool) (m? : Option Magnitude) :
    ofRounded negative m? ≠ .nan := by
  intro h
  cases m? with
  | none => cases h
  | some m => cases h

theorem nan_mul (x : Binary64) : .nan * x = (.nan : Binary64) := rfl

theorem infinity_mul_finite (a b : Bool) (m : Magnitude) :
    .infinity a * finite b m = if m.units = 0 then .nan else .infinity (a != b) := rfl

theorem finite_mul_infinity (a b : Bool) (m : Magnitude) :
    finite a m * .infinity b = if m.units = 0 then .nan else .infinity (a != b) := rfl

theorem InfinityAndZero.mul {x y : Binary64} (h : InfinityAndZero x y) : x * y = .nan := by
  cases h with
  | infinityFirst a b => exact infinity_mul_finite a b .zero
  | zeroFirst a b => exact finite_mul_infinity a b .zero

theorem infinityAndZero_of_mul {x y : Binary64} (h : x * y = .nan) (hx : x ≠ .nan)
    (hy : y ≠ .nan) : InfinityAndZero x y := by
  cases x with
  | nan => exact absurd rfl hx
  | infinity a =>
    cases y with
    | nan => exact absurd rfl hy
    | infinity b => cases h
    | finite b m =>
      rw [infinity_mul_finite] at h
      split_ifs at h with hzero
      rw [Magnitude.eq_zero_of_units hzero]
      exact .infinityFirst a b
  | finite a m =>
    cases y with
    | nan => exact absurd rfl hy
    | infinity b =>
      rw [finite_mul_infinity] at h
      split_ifs at h with hzero
      rw [Magnitude.eq_zero_of_units hzero]
      exact .zeroFirst a b
    | finite b n =>
      rw [finite_mul_finite] at h
      exact absurd h (ofRounded_ne_nan _ _)

/-- Infinities without a sign do not cancel. -/
theorem Unsigned.add_ne_nan {x y : Binary64} (hx : Unsigned x) (hy : Unsigned y) (hxn : x ≠ .nan)
    (hyn : y ≠ .nan) : x + y ≠ .nan := by
  intro h
  cases hx with
  | nan => exact hxn rfl
  | infinity =>
    cases hy with
    | nan => exact hyn rfl
    | infinity => cases h
    | finite n => cases h
  | finite m =>
    cases hy with
    | nan => exact hyn rfl
    | infinity => cases h
    | finite n =>
      rw [finite_add_finite] at h
      exact ofRounded_ne_nan _ _ h

theorem nan_add (x : Binary64) : .nan + x = (.nan : Binary64) := rfl

theorem add_nan (x : Binary64) : x + .nan = (.nan : Binary64) := by
  cases x with
  | nan => rfl
  | infinity a => rfl
  | finite a m => rfl

theorem Unsigned.add_eq_nan_iff {x y : Binary64} (hx : Unsigned x) (hy : Unsigned y) :
    x + y = .nan ↔ x = .nan ∨ y = .nan := by
  constructor
  · intro h
    by_contra hne
    rw [not_or] at hne
    exact hx.add_ne_nan hy hne.1 hne.2 h
  · intro h
    rcases h with rfl | rfl
    · exact nan_add y
    · exact add_nan x

theorem foldl_mul_nan (ys : List Binary64) : ys.foldl (· * ·) .nan = .nan := by
  induction ys with
  | nil => rfl
  | cons y ys ih => rw [List.foldl_cons, nan_mul, ih]

/-- A running product of numbers becomes a NaN where it and the next factor are an infinity and a
zero. -/
theorem foldl_mul_eq_nan_iff {x : Binary64} (hx : x ≠ .nan) {ys : List Binary64}
    (hys : ∀ y ∈ ys, y ≠ .nan) : ys.foldl (· * ·) x = .nan ↔
      ∃ front y back, ys = front ++ y :: back ∧ InfinityAndZero (front.foldl (· * ·) x) y := by
  induction ys generalizing x with
  | nil => simpa using hx
  | cons y ys ih =>
    rw [List.forall_mem_cons] at hys
    rw [List.foldl_cons]
    by_cases hnan : x * y = .nan
    · have hpair : InfinityAndZero x y := infinityAndZero_of_mul hnan hx hys.1
      rw [hnan, foldl_mul_nan]
      exact ⟨fun _ => ⟨[], y, ys, rfl, hpair⟩, fun _ => rfl⟩
    · rw [ih hnan hys.2]
      constructor
      · rintro ⟨front, z, back, rfl, hpair⟩
        exact ⟨y :: front, z, back, rfl, hpair⟩
      · rintro ⟨front, z, back, hcut, hpair⟩
        cases front with
        | nil =>
          obtain ⟨rfl, rfl⟩ := List.cons.inj hcut
          exact absurd hpair.mul hnan
        | cons w front =>
          obtain ⟨rfl, rfl⟩ := List.cons.inj hcut
          exact ⟨front, z, back, rfl, hpair⟩

theorem Unsigned.foldl_mul {x : Binary64} (hx : Unsigned x) {ys : List Binary64}
    (hys : ∀ y ∈ ys, Unsigned y) : Unsigned (ys.foldl (· * ·) x) := by
  induction ys generalizing x with
  | nil => exact hx
  | cons y ys ih =>
    rw [List.forall_mem_cons] at hys
    exact ih (hx.mul hys.1) hys.2

theorem Unsigned.foldl_add_eq_nan_iff {x : Binary64} (hx : Unsigned x) {ys : List Binary64}
    (hys : ∀ y ∈ ys, Unsigned y) : ys.foldl (· + ·) x = .nan ↔ x = .nan ∨ .nan ∈ ys := by
  induction ys generalizing x with
  | nil => simp
  | cons y ys ih =>
    rw [List.forall_mem_cons] at hys
    rw [List.foldl_cons, ih (hx.add hys.1) hys.2, hx.add_eq_nan_iff hys.1, List.mem_cons, or_assoc,
      eq_comm (a := y)]

end FormDesk.Binary64
