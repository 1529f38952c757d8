import FormDesk.Proofs.Expression.Evaluate

/-! Literals have no sign, so no value of an expression has one: the negative zero that a sum
starts from is lost in its first term. -/
namespace FormDesk
open Binary64

namespace Expression

theorem unsigned_toBinary64 (n : Numeral) : Unsigned n.toBinary64 := by
  unfold Numeral.toBinary64
  exact unsigned_ofQuotient _ _

theorem unsigned_readOperand {p : List Char} {x : Binary64} (h : readOperand p = .ok (some x)) :
    Unsigned x := by
  unfold readOperand at h
  dsimp only at h
  split at h
  · cases h
  · split at h
    · rw [Except.ok.injEq, Option.some.injEq] at h
      rw [← h]
      exact unsigned_toBinary64 _
    · cases h

theorem unsigned_of_ofText {s : List Char} {t : Tokens} (h : Tokens.ofText s = .ok t) :
    ∀ x ∈ t.operands, Unsigned x := by
  induction s using pieceInduction generalizing t with
  | piece s hfree =>
    rw [Tokens.ofText_of_operatorFree hfree] at h
    cases hread : readOperand s with
    | error f =>
      rw [hread] at h
      cases h
    | ok x? =>
      rw [hread] at h
      cases h
      intro x hx
      exact unsigned_readOperand (hread.trans (congrArg _ (Option.mem_toList.mp hx)))
  | step p o u hp ho ih =>
    obtain ⟨op, rfl⟩ := exists_toChar_of_isOperator ho
    rw [Tokens.ofText_piece_cons hp] at h
    cases hread : readOperand p with
    | error f =>
      rw [hread] at h
      cases h
    | ok x? =>
      cases hrest : Tokens.ofText u with
      | error f =>
        rw [hread, hrest] at h
        cases h
      | ok r =>
        rw [hread, hrest] at h
        cases h
        intro x hx
        rcases List.mem_append.mp hx with hx | hx
        · exact unsigned_readOperand (hread.trans (congrArg _ (Option.mem_toList.mp hx)))
        · exact ih hrest x hx

namespace Tokens

/-- Terms are read, and none of them has a sign. -/
def UnsignedTerms (terms : List Binary64) : Prop := terms ≠ [] ∧ ∀ x ∈ terms, Unsigned x

theorem UnsignedTerms.pushTerm {terms : List Binary64} (h : UnsignedTerms terms)
    {step : Operator × Binary64} (hstep : Unsigned step.2) :
    UnsignedTerms (pushTerm terms step) := by
  obtain ⟨hne, hall⟩ := h
  obtain ⟨o, x⟩ := step
  obtain ⟨t, ts, rfl⟩ := List.exists_cons_of_ne_nil hne
  rw [List.forall_mem_cons] at hall
  cases o with
  | times =>
    exact ⟨List.cons_ne_nil _ _, List.forall_mem_cons.mpr ⟨hall.1.mul hstep, hall.2⟩⟩
  | plus =>
    exact ⟨List.cons_ne_nil _ _, List.forall_mem_cons.mpr ⟨hstep, List.forall_mem_cons.mpr hall⟩⟩

theorem UnsignedTerms.foldl_pushTerm {terms : List Binary64} (h : UnsignedTerms terms)
    {steps : List (Operator × Binary64)} (hsteps : ∀ step ∈ steps, Unsigned step.2) :
    UnsignedTerms (steps.foldl Tokens.pushTerm terms) := by
  induction steps generalizing terms with
  | nil => exact h
  | cons step steps ih =>
    rw [List.forall_mem_cons] at hsteps
    exact ih (h.pushTerm hsteps.1) hsteps.2

theorem unsigned_foldl_add {x : Binary64} (hx : Unsigned x) {ys : List Binary64}
    (hys : ∀ y ∈ ys, Unsigned y) : Unsigned (ys.foldl (· + ·) x) := by
  induction ys generalizing x with
  | nil => exact hx
  | cons y ys ih =>
    rw [List.forall_mem_cons] at hys
    exact ih (hx.add hys.1) hys.2

theorem UnsignedTerms.sum {terms : List Binary64} (h : UnsignedTerms terms) :
    Unsigned (sum terms) := by
  obtain ⟨hne, hall⟩ := h
  obtain ⟨t, ts, rfl⟩ := List.exists_cons_of_ne_nil hne
  rw [List.forall_mem_cons] at hall
  -- The first term takes the place of the negative zero.
  rw [Tokens.sum, List.foldl_cons, zero_true_add]
  exact unsigned_foldl_add hall.1 hall.2

theorem unsigned_of_value {t : Tokens} {v : Binary64} (ht : ∀ x ∈ t.operands, Unsigned x)
    (h : t.value = .ok v) : Unsigned v := by
  unfold value at h
  split at h
  · next x xs hoperands =>
    split_ifs at h
    cases h
    rw [hoperands, List.forall_mem_cons] at ht
    have hsteps : ∀ step ∈ t.operators.zip xs, Unsigned step.2 := by
      intro step hstep
      exact ht.2 step.2 (List.of_mem_zip hstep).2
    have hfirst : UnsignedTerms [x] := ⟨List.cons_ne_nil _ _, by simpa using ht.1⟩
    have hterms := hfirst.foldl_pushTerm hsteps
    exact UnsignedTerms.sum ⟨by simpa using hterms.1, by simpa using hterms.2⟩
  · cases h

end Tokens

/-- No value has a sign, not even zero. -/
theorem unsigned_of_evaluate {s : List Char} {v : Binary64} (h : evaluate s = .ok v) :
    Unsigned v := by
  obtain ⟨hfind, hcheck⟩ := check_clean_of_evaluate h
  obtain ⟨t, w, htext, hvalue, hw, -⟩ := evaluate_of_check_ok hfind hcheck
  cases hw.symm.trans h
  exact Tokens.unsigned_of_value (unsigned_of_ofText htext) hvalue

end Expression

end FormDesk
