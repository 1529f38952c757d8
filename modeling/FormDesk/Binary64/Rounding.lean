/-! Quotients of natural numbers rounded to the nearest integer, ties to even. -/
namespace FormDesk.Binary64

/-- The integer nearest to `num / den`; of two equally near ones, the even one. -/
def roundQuotient (num den : Nat) : Nat :=
  let k := num / den
  let r := num % den
  if 2 * r < den then k
  else if den < 2 * r then k + 1
  else k + k % 2

theorem roundQuotient_le (num den : Nat) : roundQuotient num den ≤ num / den + 1 := by
  unfold roundQuotient
  dsimp only
  split
  · omega
  · split <;> omega

theorem le_roundQuotient (num den : Nat) : num / den ≤ roundQuotient num den := by
  unfold roundQuotient
  dsimp only
  split
  · omega
  · split <;> omega

/-- The rounded quotient is at most half the divisor above the dividend. -/
theorem two_mul_roundQuotient_le (num : Nat) {den : Nat} (h : 0 < den) :
    2 * (roundQuotient num den * den) ≤ 2 * num + den := by
  have hd : den * (num / den) + num % den = num := Nat.div_add_mod num den
  have hr : num % den < den := Nat.mod_lt num h
  unfold roundQuotient
  dsimp only
  split
  · rw [Nat.mul_comm (num / den)]
    omega
  · split
    · rw [Nat.add_mul, Nat.mul_comm (num / den)]
      omega
    · have hm : num / den % 2 * den ≤ 1 * den :=
        Nat.mul_le_mul_right den (by omega)
      rw [Nat.add_mul, Nat.mul_comm (num / den)]
      omega

@[simp] theorem roundQuotient_mul_right (k : Nat) {den : Nat} (h : 0 < den) :
    roundQuotient (k * den) den = k := by
  simp [roundQuotient, Nat.mul_div_cancel k h, h]

end FormDesk.Binary64
