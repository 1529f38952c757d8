import FormDesk.Expression.Evaluate
import FormDesk.Proofs.Binary64.Sign
import FormDesk.Proofs.Expression.FirstFault
import FormDesk.Proofs.Expression.Terms

/-! The value of an expression. Blanks do not count, and what is left is an expression of the
grammar whose value is its sum of products. -/
namespace FormDesk.Expression
open Grammar

def unblank (s : List Char) : List Char := s.filter (!Text.isBlank ·)

theorem isBlank_space : Text.isBlank ' ' = true := by decide

theorem isLiteral_or_isOperator_of_isBlank {c : Char} (h : Text.isBlank c = true) :
    (isLiteral c || isOperator c) = false := by
  by_contra hkeep
  have hmem : c ∈ digits ++ '.' :: operators := by
    rw [Bool.not_eq_false, Bool.or_eq_true, isLiteral, Bool.or_eq_true, isDigit_iff,
      isOperator_iff, beq_iff_eq, or_assoc] at hkeep
    simpa using hkeep
  have hall : (digits ++ '.' :: operators).all (!Text.isBlank ·) = true := by decide
  have hblank := List.all_eq_true.mp hall c hmem
  rw [h] at hblank
  cases hblank

theorem isLiteral_or_isOperator_eq {c : Char} (h : isForeign c = false) :
    (isLiteral c || isOperator c) = !Text.isBlank c := by
  by_cases hb : Text.isBlank c = true
  · rw [isLiteral_or_isOperator_of_isBlank hb, hb]
    rfl
  · have hspace : (c == ' ') = false := by
      by_contra hc
      simp only [Bool.not_eq_false, beq_iff_eq] at hc
      exact hb (hc ▸ isBlank_space)
    simp only [Bool.not_eq_true] at hb
    rw [isForeign, isAllowed, hb, hspace, Bool.or_false, Bool.not_false, Bool.true_and,
      Bool.not_eq_false'] at h
    rw [h, hb]
    rfl

theorem clean_eq_unblank {s : List Char} (h : s.find? isForeign = none) : clean s = unblank s := by
  rw [List.find?_eq_none] at h
  exact List.filter_congr fun c hc => isLiteral_or_isOperator_eq (by simpa using h c hc)

theorem isLiteral_or_isOperator_of_mem_clean {s : List Char} {c : Char} (h : c ∈ clean s) :
    (isLiteral c || isOperator c) = true := (List.mem_filter.mp h).2

theorem ne_space_of_mem_clean {s : List Char} {c : Char} (h : c ∈ clean s) : c ≠ ' ' := by
  intro hc
  have := isLiteral_or_isOperator_of_mem_clean h
  simp [hc] at this

/-- Without spaces the two grammars agree. -/
theorem mem_spacedExpression_iff_of_ne_space {s : List Char} (h : ∀ c ∈ s, c ≠ ' ') :
    s ∈ spacedExpression.matches' ↔ s ∈ expression.matches' := by
  rw [spacedExpression, expression, mem_chain fun p => operatorFree_of_mem_spacedNumeral,
    mem_chain fun p => operatorFree_of_mem_numeral]
  refine forall₂_congr fun p hp => ?_
  constructor
  · intro hs
    obtain ⟨a, n, b, rfl, ha, hn, hb⟩ := mem_spacedNumeral.mp hs
    have hnil : ∀ t : List Char, (∀ c ∈ t, c = ' ') → (∀ c ∈ t, c ∈ a ++ n ++ b) → t = [] := by
      intro t ht hsub
      refine List.eq_nil_iff_forall_not_mem.mpr fun c hc => ?_
      exact h c (mem_of_mem_pieces hp (hsub c hc)) (ht c hc)
    rw [hnil a ha (by simp +contextual), hnil b hb (by simp +contextual)]
    simpa using hn
  · intro hn
    exact mem_spacedNumeral.mpr ⟨[], p, [], by simp, by simp, hn, by simp⟩

theorem check_clean_eq_ok_iff {s : List Char} :
    check (clean s) = .ok () ↔ clean s ∈ expression.matches' := by
  rw [check_eq_ok_iff, mem_spacedExpression_iff_of_ne_space fun _ => ne_space_of_mem_clean]

theorem exists_value_of_mem_expression {s : List Char} (hs : s ∈ expression.matches') :
    ∃ t v, Tokens.ofText s = .ok t ∧ t.value = .ok v ∧ sumOfProducts? s = some v := by
  obtain ⟨x, steps, htext, hfactors⟩ := exists_ofSteps hs
  refine ⟨_, _, htext, Tokens.value_ofSteps x steps, ?_⟩
  rw [sumOfProducts?, hfactors]
  change ((Tokens.groups x steps).mapM product?).bind _ = _
  rw [Tokens.mapM_product?_groups]
  rfl

theorem evaluate_of_isForeign {s : List Char} {c : Char} (h : s.find? isForeign = some c) :
    evaluate s = .error (.invalidCharacter c) := by
  rw [evaluate, h]

theorem evaluate_of_check_error {s : List Char} {f : Fault} (h : s.find? isForeign = none)
    (hf : check (clean s) = .error f) : evaluate s = .error f := by
  simp only [evaluate, h, hf]
  rfl

theorem evaluate_of_check_ok {s : List Char} (h : s.find? isForeign = none)
    (hok : check (clean s) = .ok ()) :
    ∃ t v, Tokens.ofText (clean s) = .ok t ∧ t.value = .ok v ∧ evaluate s = .ok v ∧
      sumOfProducts? (clean s) = some v := by
  obtain ⟨t, v, ht, hv, hsum⟩ := exists_value_of_mem_expression (check_clean_eq_ok_iff.mp hok)
  refine ⟨t, v, ht, hv, ?_, hsum⟩
  simp only [evaluate, h, hok, ht, bind, Except.bind]
  exact hv

/-- Past the scan for foreign characters the check of the cleaned text decides. -/
theorem map_evaluate {s : List Char} (h : s.find? isForeign = none) :
    ((evaluate s).map fun _ => ()) = check (clean s) := by
  cases hcheck : check (clean s) with
  | error f => rw [evaluate_of_check_error h hcheck]; rfl
  | ok u =>
    obtain ⟨t, v, -, -, hv, -⟩ := evaluate_of_check_ok h hcheck
    rw [hv]
    rfl

theorem ne_space_of_mem_unblank {s : List Char} {c : Char} (h : c ∈ unblank s) : c ≠ ' ' := by
  intro hc
  have := (List.mem_filter.mp h).2
  simp [hc, isBlank_space] at this

theorem unblank_mem_expression_iff {s : List Char} : unblank s ∈ expression.matches' ↔
    s.find? isForeign = none ∧ check (clean s) = .ok () := by
  rw [check_clean_eq_ok_iff]
  constructor
  · intro h
    have hspaced : unblank s ∈ spacedExpression.matches' :=
      (mem_spacedExpression_iff_of_ne_space fun _ => ne_space_of_mem_unblank).mpr h
    have hfind : s.find? isForeign = none := by
      refine List.find?_eq_none.mpr fun c hc hforeign => ?_
      rw [isForeign, Bool.and_eq_true, Bool.not_eq_true'] at hforeign
      have hmem : c ∈ unblank s := List.mem_filter.mpr ⟨hc, by simp [hforeign.1]⟩
      have hallowed := isAllowed_iff.mpr (mem_alphabet_of_mem hspaced c hmem)
      simp [hallowed] at hforeign
    exact ⟨hfind, clean_eq_unblank hfind ▸ h⟩
  · intro h
    exact clean_eq_unblank h.1 ▸ h.2

theorem check_clean_of_evaluate {s : List Char} {v : Binary64} (h : evaluate s = .ok v) :
    s.find? isForeign = none ∧ check (clean s) = .ok () := by
  cases hfind : s.find? isForeign with
  | some c => cases (evaluate_of_isForeign hfind).symm.trans h
  | none => exact ⟨rfl, by rw [← map_evaluate hfind, h]; rfl⟩

theorem sumOfProducts?_of_evaluate {s : List Char} {v : Binary64} (h : evaluate s = .ok v) :
    sumOfProducts? (unblank s) = some v := by
  obtain ⟨hfind, hcheck⟩ := check_clean_of_evaluate h
  obtain ⟨t, w, -, -, hw, hsum⟩ := evaluate_of_check_ok hfind hcheck
  cases hw.symm.trans h
  exact clean_eq_unblank hfind ▸ hsum

theorem unblank_of_mem_expression {s : List Char} (h : s ∈ expression.matches') :
    unblank s = s := by
  rw [expression, mem_chain fun p => operatorFree_of_mem_numeral] at h
  refine List.filter_eq_self.mpr fun c hc => ?_
  have hsymbol : isLiteral c = true ∨ isOperator c = true := by
    rcases mem_piece_or_isOperator hc with ⟨p, hp, hcp⟩ | hop
    · exact Or.inl (isLiteral_of_mem_numeral (h p hp) hcp)
    · exact Or.inr hop
  by_contra hblank
  have hkeep := isLiteral_or_isOperator_of_isBlank (by simpa using hblank)
  rw [Bool.or_eq_false_iff] at hkeep
  simp [hkeep.1, hkeep.2] at hsymbol

/-- An expression without blanks is accepted as it stands. -/
theorem evaluate_of_mem_expression {s : List Char} (h : s ∈ expression.matches') :
    check s = .ok () ∧ ∃ v, evaluate s = .ok v ∧ sumOfProducts? s = some v := by
  have hunblank := unblank_of_mem_expression h
  obtain ⟨hfind, hcheck⟩ := unblank_mem_expression_iff.mp (hunblank.symm ▸ h)
  obtain ⟨t, v, -, -, hv, hsum⟩ := evaluate_of_check_ok hfind hcheck
  rw [clean_eq_unblank hfind, hunblank] at hcheck hsum
  exact ⟨hcheck, v, hv, hsum⟩

/-- A numeral alone is an expression. -/
theorem evaluate_of_spells {n : Numeral} {s : List Char} (h : n.Spells s) :
    evaluate s = .ok n.toBinary64 := by
  have hnum : s ∈ numeral.matches' := mem_numeral.mpr ⟨n, h⟩
  have hfree := operatorFree_of_mem_numeral hnum
  have hexpr : s ∈ expression.matches' := by
    rw [expression, mem_chain fun p => operatorFree_of_mem_numeral,
      pieces_of_operatorFree hfree]
    simpa using hnum
  obtain ⟨-, v, hv, hsum⟩ := evaluate_of_mem_expression hexpr
  rw [sumOfProducts?_of_operatorFree hfree, literal?, h.ofText?_eq, Option.map_some,
    Option.map_some, Binary64.zero_true_add, Option.some.injEq] at hsum
  rw [hv, hsum]

/-- The texts with a value are those that are expressions without their blanks, and the value is
the sum of products. -/
theorem evaluate_sumOfProducts (s : List Char) :
    ((∃ v, evaluate s = .ok v) ↔ unblank s ∈ expression.matches') ∧
      ∀ v, evaluate s = .ok v → sumOfProducts? (unblank s) = some v := by
  constructor
  · rw [unblank_mem_expression_iff]
    constructor
    · intro h
      obtain ⟨v, hv⟩ := h
      exact check_clean_of_evaluate hv
    · intro h
      obtain ⟨t, v, -, -, hv, -⟩ := evaluate_of_check_ok h.1 h.2
      exact ⟨v, hv⟩
  · intro v hv
    obtain ⟨hfind, hcheck⟩ := check_clean_of_evaluate hv
    obtain ⟨t, w, -, -, hw, hsum⟩ := evaluate_of_check_ok hfind hcheck
    cases hw.symm.trans hv
    exact clean_eq_unblank hfind ▸ hsum

end FormDesk.Expression
