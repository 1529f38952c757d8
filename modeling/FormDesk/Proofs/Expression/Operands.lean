import FormDesk.Proofs.Expression.Evaluate
import FormDesk.Proofs.Expression.Scan
import Mathlib.Data.List.Forall2
import Mathlib.Data.List.ReduceOption

/-! The operands of a text, one for each piece that writes one. A piece that writes none leaves the
operands short of the operators, and nothing makes up for it, so the counts fit only when every
piece writes its operand. -/
namespace FormDesk.Expression
open Grammar

/-- A digit or a point stands in a piece. -/
def HasLiteral (p : List Char) : Prop := ∃ c ∈ p, isLiteral c = true

theorem filter_isLiteral_eq_nil_iff {p : List Char} : p.filter isLiteral = [] ↔ ¬ HasLiteral p := by
  simp [HasLiteral, List.filter_eq_nil_iff]

theorem OperatorFree.clean_eq {p : List Char} (h : OperatorFree p) :
    Expression.clean p = p.filter isLiteral := by
  refine List.filter_congr fun c hc => ?_
  rw [h c hc, Bool.or_false]

theorem mem_numeral_iff_literal? {n : List Char} :
    n ∈ numeral.matches' ↔ ∃ x, literal? n = some x := by
  simp only [mem_numeral, literal?, Option.map_eq_some_iff, ← Numeral.ofText?_eq_some_iff]
  constructor
  · rintro ⟨m, hm⟩
    exact ⟨_, m, hm, rfl⟩
  · rintro ⟨x, m, hm, -⟩
    exact ⟨m, hm⟩

/-- No operand is read where no literal stands, and otherwise that of the literal. -/
theorem readOperand_eq_ok_iff {p : List Char} {x? : Option Binary64} :
    readOperand p = .ok x? ↔ (¬ HasLiteral p ∧ x? = none) ∨
      (HasLiteral p ∧ ∃ x, literal? (p.filter isLiteral) = some x ∧ x? = some x) := by
  unfold readOperand
  dsimp only
  split_ifs with hempty
  · have hlit : ¬ HasLiteral p := filter_isLiteral_eq_nil_iff.mp (List.isEmpty_iff.mp hempty)
    simp [hlit, eq_comm]
  · have hlit : HasLiteral p := by
      rwa [List.isEmpty_iff, filter_isLiteral_eq_nil_iff, not_not] at hempty
    rw [literal?]
    cases Numeral.ofText? (p.filter isLiteral) <;> simp [hlit, eq_comm]

theorem length_pieces (s : List Char) :
    (pieces s).length = (s.filterMap Operator.ofChar?).length + 1 := by
  induction s using pieceInduction with
  | piece s hs =>
    rw [pieces_of_operatorFree hs, Tokens.filterMap_ofChar?_of_operatorFree hs]
    rfl
  | step p o t hp ho ih =>
    obtain ⟨op, rfl⟩ := exists_toChar_of_isOperator ho
    rw [pieces_piece_cons hp ho, List.filterMap_append,
      Tokens.filterMap_ofChar?_of_operatorFree hp,
      List.filterMap_cons_some (Operator.ofChar?_eq_some_iff.mpr rfl), List.length_cons, ih]
    rfl

theorem map_toChar_filterMap_ofChar? (s : List Char) :
    (s.filterMap Operator.ofChar?).map Operator.toChar = s.filter isOperator := by
  induction s with
  | nil => rfl
  | cons c s ih =>
    cases hc : Operator.ofChar? c with
    | none =>
      have hop : isOperator c = false := by rw [← isSome_ofChar?, hc]; rfl
      rw [List.filterMap_cons_none hc, ih, List.filter_cons_of_neg (by simp [hop])]
    | some o =>
      obtain rfl := Operator.ofChar?_eq_some_iff.mp hc
      rw [List.filterMap_cons_some hc, List.map_cons, ih,
        List.filter_cons_of_pos (isOperator_toChar o)]

namespace Tokens

theorem mapM_readOperand_eq_ok_iff {ps : List (List Char)} {xs : List (Option Binary64)} :
    ps.mapM readOperand = .ok xs ↔ List.Forall₂ (fun p x? => readOperand p = .ok x?) ps xs := by
  induction ps generalizing xs with
  | nil => simp [pure, Except.pure, eq_comm]
  | cons p ps ih =>
    rw [List.mapM_cons, List.forall₂_cons_left_iff]
    simp only [← ih]
    cases readOperand p with
    | error f => simp [bind, Except.bind]
    | ok x? => cases ps.mapM readOperand <;> simp [bind, Except.bind, pure, Except.pure, eq_comm]

/-- Each piece gives an operand or none, and the operands that are given are kept in order. -/
theorem ofText_eq_ok_iff {s : List Char} {t : Tokens} : ofText s = .ok t ↔
    ∃ xs, List.Forall₂ (fun p x? => readOperand p = .ok x?) (pieces s) xs ∧
      t = ⟨xs.reduceOption, s.filterMap Operator.ofChar?⟩ := by
  simp only [← mapM_readOperand_eq_ok_iff, ofText]
  cases (pieces s).mapM readOperand with
  | error f => simp [bind, Except.bind]
  | ok xs => simp [bind, Except.bind, pure, Except.pure, List.reduceOption, eq_comm]

/-- The number of operands that are read is the number of pieces that write one. -/
private theorem length_reduceOption_eq_iff {ps : List (List Char)} {xs : List (Option Binary64)}
    (h : List.Forall₂ (fun p x? => readOperand p = .ok x?) ps xs) :
    xs.reduceOption.length = ps.length ↔ ∀ p ∈ ps, HasLiteral p := by
  rw [h.length_eq, List.reduceOption_length_eq_iff]
  induction h with
  | nil => simp
  | cons hp _ ih =>
    rw [List.forall_mem_cons, List.forall_mem_cons, ih]
    refine and_congr_left fun _ => ?_
    rcases readOperand_eq_ok_iff.mp hp with ⟨hlit, rfl⟩ | ⟨hlit, x, -, rfl⟩
    · simp [hlit]
    · simp [hlit]

private theorem forall₂_reduceOption {ps : List (List Char)} {xs : List (Option Binary64)}
    (h : List.Forall₂ (fun p x? => readOperand p = .ok x?) ps xs)
    (hall : ∀ p ∈ ps, HasLiteral p) :
    List.Forall₂ (fun p x => literal? (p.filter isLiteral) = some x) ps xs.reduceOption := by
  induction h with
  | nil => exact .nil
  | cons hp _ ih =>
    rw [List.forall_mem_cons] at hall
    rcases readOperand_eq_ok_iff.mp hp with ⟨hlit, -⟩ | ⟨-, x, hx, rfl⟩
    · exact absurd hall.1 hlit
    · rw [List.reduceOption_cons_of_some]
      exact .cons hx (ih hall.2)

theorem exists_value_of_length {t : Tokens} (h : t.operands.length = t.operators.length + 1) :
    ∃ v, t.value = .ok v := by
  obtain ⟨operands, operators⟩ := t
  cases operands with
  | nil => simp at h
  | cons x xs =>
    have hlen : xs.length = operators.length := by simpa using h
    simp only [value, hlen, if_true]
    exact ⟨_, rfl⟩

theorem value_eq_countMismatch {t : Tokens} (h : t.operands.length ≠ t.operators.length + 1) :
    t.value = .error (.countMismatch t.operands.length t.operators.length) := by
  obtain ⟨operands, operators⟩ := t
  cases operands with
  | nil => rfl
  | cons x xs =>
    have hlen : xs.length ≠ operators.length := by simpa using h
    simp only [value, hlen, if_false]

theorem length_of_value {t : Tokens} {v : Binary64} (h : t.value = .ok v) :
    t.operands.length = t.operators.length + 1 := by
  by_contra hlen
  rw [value_eq_countMismatch hlen] at h
  cases h

section
variable {s : List Char} {t : Tokens} (h : ofText s = .ok t)
include h

theorem length_pieces_of_ofText : (pieces s).length = t.operators.length + 1 := by
  obtain ⟨xs, -, rfl⟩ := ofText_eq_ok_iff.mp h
  exact length_pieces s

theorem map_toChar_operators : t.operators.map Operator.toChar = s.filter isOperator := by
  obtain ⟨xs, -, rfl⟩ := ofText_eq_ok_iff.mp h
  exact map_toChar_filterMap_ofChar? s

theorem length_operands_le : t.operands.length ≤ t.operators.length + 1 := by
  rw [← length_pieces_of_ofText h]
  obtain ⟨xs, hxs, rfl⟩ := ofText_eq_ok_iff.mp h
  rw [hxs.length_eq]
  exact List.reduceOption_length_le xs

/-- The counts fit when every piece writes an operand. -/
theorem length_operands_eq_iff :
    t.operands.length = t.operators.length + 1 ↔ ∀ p ∈ pieces s, HasLiteral p := by
  rw [← length_pieces_of_ofText h]
  obtain ⟨xs, hxs, rfl⟩ := ofText_eq_ok_iff.mp h
  exact length_reduceOption_eq_iff hxs

/-- With a value, each operand is the literal of the piece in its place. -/
theorem forall₂_of_value {v : Binary64} (hv : t.value = .ok v) :
    List.Forall₂ (fun p x => literal? (p.filter isLiteral) = some x) (pieces s) t.operands := by
  have hall := (length_operands_eq_iff h).mp (length_of_value hv)
  obtain ⟨xs, hxs, rfl⟩ := ofText_eq_ok_iff.mp h
  exact forall₂_reduceOption hxs hall

theorem value_eq_countMismatch_iff :
    (∃ m n, t.value = .error (.countMismatch m n)) ↔ ∃ p ∈ pieces s, ¬ HasLiteral p := by
  have hall := (length_operands_eq_iff h).not
  push Not at hall
  rw [← hall]
  constructor
  · rintro ⟨m, n, hv⟩ hlen
    obtain ⟨v, hv'⟩ := exists_value_of_length hlen
    rw [hv'] at hv
    cases hv
  · intro hlen
    exact ⟨_, _, value_eq_countMismatch hlen⟩

theorem check_clean_of_value {v : Binary64} (hv : t.value = .ok v) : check (clean s) = .ok () := by
  rw [check_clean_eq_ok_iff, expression, mem_chain fun p => operatorFree_of_mem_numeral,
    pieces_clean, List.forall_mem_map]
  intro p hp
  obtain ⟨i, hi, rfl⟩ := List.mem_iff_getElem.mp hp
  obtain ⟨hlen, hget⟩ := List.forall₂_iff_get.mp (forall₂_of_value h hv)
  rw [mem_numeral_iff_literal?, (operatorFree_of_mem_pieces hp).clean_eq]
  exact ⟨_, hget i hi (hlen ▸ hi)⟩

end

end Tokens

theorem find?_isForeign_clean (s : List Char) : (clean s).find? isForeign = none := by
  refine List.find?_eq_none.mpr fun c hc => ?_
  simp [isForeign, isAllowed, isLiteral_or_isOperator_of_mem_clean hc]

theorem evaluate_clean_of_value {s : List Char} {t : Tokens} {v : Binary64}
    (h : Tokens.ofText s = .ok t) (hv : t.value = .ok v) : evaluate (clean s) = .ok v := by
  have hcheck : check (clean (clean s)) = .ok () := by
    rw [clean_clean]
    exact Tokens.check_clean_of_value h hv
  obtain ⟨t', v', ht', hv', heval, -⟩ := evaluate_of_check_ok (find?_isForeign_clean s) hcheck
  rw [clean_clean, Tokens.ofText_clean, h] at ht'
  cases ht'
  rw [heval, ← hv', hv]

/-- Reading and valuing a text are as strict together as the check of what cleaning leaves, in one
pass as well. The operators are those of the text, the operands are never too many, and a mismatch
is told when some piece writes none. With a value, each operand comes from the piece in its
place. -/
theorem value_as_strict_as_check (s : List Char) :
    Scan.tokens s = Tokens.ofText s ∧
    ((∃ t v, Tokens.ofText s = .ok t ∧ t.value = .ok v) ↔ check (clean s) = .ok ()) ∧
    (∀ t v, Tokens.ofText s = .ok t → t.value = .ok v → evaluate (clean s) = .ok v) ∧
    ∀ t, Tokens.ofText s = .ok t →
      t.operators.map Operator.toChar = s.filter isOperator ∧
      t.operands.length ≤ t.operators.length + 1 ∧
      ((∃ m n, t.value = .error (.countMismatch m n)) ↔ ∃ p ∈ pieces s, ¬ HasLiteral p) ∧
      ∀ v, t.value = .ok v → List.Forall₂ (fun p x => literal? (p.filter isLiteral) = some x)
        (pieces s) t.operands := by
  refine ⟨Scan.tokens_eq_ofText s, ?_, fun t v h hv => evaluate_clean_of_value h hv, ?_⟩
  · constructor
    · rintro ⟨t, v, h, hv⟩
      exact Tokens.check_clean_of_value h hv
    · intro h
      obtain ⟨t, v, ht, hv, -⟩ := exists_value_of_mem_expression (check_clean_eq_ok_iff.mp h)
      exact ⟨t, v, Tokens.ofText_clean s ▸ ht, hv⟩
  · intro t h
    exact ⟨Tokens.map_toChar_operators h, Tokens.length_operands_le h,
      Tokens.value_eq_countMismatch_iff h, fun v hv => Tokens.forall₂_of_value h hv⟩

end FormDesk.Expression
