import FormDesk.Binary64.Shortest
import FormDesk.Proofs.Binary64.Rounding

/-! The shortest decimal reads back as the magnitude it is taken from. -/
namespace FormDesk.Binary64.Magnitude

attribute [local instance (high)] instPowNat

theorem roundQuotient_eq_or (num den : Nat) :
    roundQuotient num den = num / den ∨ roundQuotient num den = num / den + 1 := by
  have hlow := le_roundQuotient num den
  have hhigh := roundQuotient_le num den
  omega

/-- A decimal is taken at a place only when it reads back. -/
theorem nearest?_of_decimalAt? {m : Magnitude} {place : Nat} {d : Decimal}
    (h : m.decimalAt? place = some d) : d.nearest? = some m := by
  -- Opened as a function: applied, the choice would make the kernel evaluate both readings.
  have hdef := Eq.refl decimalAt?
  conv at hdef => rhs; delta decimalAt?
  rw [hdef] at h
  -- Only whether a decimal reads back matters here, so the reading is any function.
  generalize Decimal.nearest? = read at h ⊢
  generalize decimalUnits = count at h
  dsimp only at h
  by_cases hbelow : read ⟨count m / 10 ^ place, place⟩ = some m
  · rw [decide_eq_true hbelow] at h
    by_cases habove : read ⟨count m / 10 ^ place + 1, place⟩ = some m
    · rw [decide_eq_true habove] at h
      obtain rfl := Option.some.inj h
      -- The nearer one is one of the two, and both of them read back.
      rcases roundQuotient_eq_or (count m) (10 ^ place) with heq | heq
      · rw [heq]
        exact hbelow
      · rw [heq]
        exact habove
    · rw [decide_eq_false habove] at h
      obtain rfl := Option.some.inj h
      exact hbelow
  · rw [decide_eq_false hbelow] at h
    by_cases habove : read ⟨count m / 10 ^ place + 1, place⟩ = some m
    · rw [decide_eq_true habove] at h
      obtain rfl := Option.some.inj h
      exact habove
    · rw [decide_eq_false habove] at h
      cases h

/-- At place zero the decimal is the magnitude itself. -/
theorem nearest?_decimalUnits (m : Magnitude) :
    (Decimal.mk m.decimalUnits 0).nearest? = some m := by
  rw [Decimal.nearest?, Decimal.units, Nat.pow_zero, Nat.mul_one, decimalUnits]
  exact nearest?_units_mul m (Nat.pow_pos (by decide))

theorem nearest?_decimalFrom (m : Magnitude) (place : Nat) :
    (m.decimalFrom place).nearest? = some m := by
  induction place with
  | zero => exact m.nearest?_decimalUnits
  | succ place ih =>
    rw [decimalFrom]
    cases hat : m.decimalAt? (place + 1) with
    | none => exact ih
    | some d => exact nearest?_of_decimalAt? hat

/-- The shortest decimal reads back. -/
theorem nearest?_shortest (m : Magnitude) : m.shortest.nearest? = some m :=
  m.nearest?_decimalFrom _

/-- No digit but zero stands for zero alone. -/
theorem digits_shortest_ne_zero {m : Magnitude} (h : m.units ≠ 0) : m.shortest.digits ≠ 0 := by
  intro hzero
  have hread := m.nearest?_shortest
  have hscaled : Magnitude.zero.units * 5 ^ unitPlaces = m.shortest.units := by
    have hunits : Magnitude.zero.units = 0 := rfl
    rw [Decimal.units, hzero, hunits, Nat.zero_mul, Nat.zero_mul]
  have hzero' : m.shortest.nearest? = some .zero := by
    rw [Decimal.nearest?, ← hscaled]
    exact nearest?_units_mul .zero (Nat.pow_pos (by decide))
  have hm : m = .zero := Option.some.inj (hread.symm.trans hzero')
  rw [hm] at h
  exact h rfl

end FormDesk.Binary64.Magnitude
