import FormDesk.Proofs.Expression.Diagnosis

/-! Expressions that are still being typed. On the way to an accepted text the feedback finds at
most that the last operand is missing, or that it is no more than a point so far. -/
namespace FormDesk.Expression
open Grammar Text

/-- The last operand has not begun. -/
def AwaitsOperand (u : List Char) : Prop :=
  ∃ a, OnlySpaces a ∧ (u = a ∨ ∃ v, ∃ o ∈ operators, u = v ++ o :: a)

theorem AwaitsOperand.onlySpaces_or_operatorAtEnd {u : List Char} (h : AwaitsOperand u) :
    OnlySpaces u ∨ OperatorAtEnd u := by
  obtain ⟨a, ha, rfl | ⟨v, o, ho, rfl⟩⟩ := h
  · exact Or.inl ha
  · exact Or.inr ⟨a, o, v, ha, ho, Or.inr rfl⟩

theorem AwaitsOperand.behind {u : List Char} (h : AwaitsOperand u) (p : List Char) {o : Char}
    (ho : o ∈ operators) : AwaitsOperand (p ++ o :: u) := by
  obtain ⟨a, ha, rfl | ⟨v, o', ho', rfl⟩⟩ := h
  · exact ⟨u, ha, Or.inr ⟨p, o, ho, rfl⟩⟩
  · exact ⟨a, ha, Or.inr ⟨p ++ o :: v, o', ho', by simp⟩⟩

private theorem beginning_append_cases {p s t : List Char} (h : p <+: s ++ t) :
    p <+: s ∨ ∃ q, q <+: t ∧ p = s ++ q := by
  obtain ⟨r, hr⟩ := h
  rcases List.append_eq_append_iff.mp hr with ⟨a, rfl, -⟩ | ⟨q, rfl, rfl⟩
  · exact Or.inl (List.prefix_append p a)
  · exact Or.inr ⟨q, List.prefix_append q r, rfl⟩

/-- What a numeral begins with is a numeral, unless it is nothing or a point alone. -/
theorem eq_nil_or_point_or_mem_numeral {n m : List Char} (hm : m ∈ numeral.matches')
    (h : n <+: m) : n = [] ∨ n = ['.'] ∨ n ∈ numeral.matches' := by
  by_cases hnil : n = []
  · exact Or.inl hnil
  by_cases hnum : n ∈ numeral.matches'
  · exact Or.inr (Or.inr hnum)
  have hlit : ∀ c ∈ n, isLiteral c = true := fun c hc => isLiteral_of_mem_numeral hm (h.mem hc)
  rcases (not_mem_numeral_iff_malformed hnil hlit).mp hnum with hpoints | hpoint
  · obtain ⟨k, hk⟩ := mem_numeral.mp hm
    have hone := hk.count_point_le
    have hle := h.count_le '.'
    omega
  · exact Or.inr (Or.inl hpoint)

theorem core_of_beginning {p s n : List Char} (hs : s ∈ spacedNumeral.matches') (hp : p <+: s)
    (hcore : IsCore isSpace p n) : OnlySpaces p ∨ n = ['.'] ∨ n ∈ numeral.matches' := by
  obtain ⟨a, m, b, rfl, ha, hm, hb⟩ := mem_spacedNumeral.mp hs
  rw [List.append_assoc] at hp
  rcases beginning_append_cases hp with hpa | ⟨q, hq, rfl⟩
  · exact Or.inl fun c hc => ha c (hpa.mem hc)
  rcases beginning_append_cases hq with hqm | ⟨b', hb', rfl⟩
  · have hlit : ∀ c ∈ q, isLiteral c = true := fun c hc =>
      isLiteral_of_mem_numeral hm (hqm.mem hc)
    have hself : IsCore isSpace (a ++ q) q := by
      simpa using isCore_of_isLiteral ha hlit (b := []) (by simp)
    obtain rfl : n = q := hcore.trimBy_eq.symm.trans hself.trimBy_eq
    refine (eq_nil_or_point_or_mem_numeral hm hqm).imp (fun hnil => ?_) id
    rwa [hnil, List.append_nil]
  · have hself : IsCore isSpace (a ++ (m ++ b')) m := by
      rw [← List.append_assoc]
      exact isCore_of_mem_numeral ha hm fun c hc => hb c (hb'.mem hc)
    obtain rfl : n = m := hcore.trimBy_eq.symm.trans hself.trimBy_eq
    exact Or.inr (Or.inr hm)

/-- A text that begins with a piece goes on with the rest of that piece. -/
theorem exists_spacedNumeral_of_append {p t : List Char} (hp : OperatorFree p)
    (h : p ++ t ∈ spacedExpression.matches') : ∃ s ∈ spacedNumeral.matches', p <+: s := by
  rw [spacedExpression, mem_chain fun p => operatorFree_of_mem_spacedNumeral] at h
  induction t using pieceInduction with
  | piece q hq =>
    rw [pieces_of_operatorFree (hp.append hq), List.forall_mem_singleton] at h
    exact ⟨p ++ q, h, List.prefix_append p q⟩
  | step q o t hq ho _ =>
    rw [← List.append_assoc, pieces_piece_cons (hp.append hq) ho, List.forall_mem_cons] at h
    exact ⟨p ++ q, h.1, List.prefix_append p q⟩

theorem mem_spacedExpression_piece_cons {p : List Char} (hp : OperatorFree p) {o : Char}
    (ho : o ∈ operators) {t : List Char} : p ++ o :: t ∈ spacedExpression.matches' ↔
      p ∈ spacedNumeral.matches' ∧ t ∈ spacedExpression.matches' := by
  simp only [spacedExpression, mem_chain fun p => operatorFree_of_mem_spacedNumeral,
    pieces_piece_cons hp (isOperator_iff.mpr ho), List.forall_mem_cons]

/-- Of an operand that can be continued nothing is there, or a point. -/
theorem FirstBadOperand.of_append {u n t : List Char} (h : FirstBadOperand u n)
    (hs : u ++ t ∈ spacedExpression.matches') : AwaitsOperand u ∨ n = ['.'] := by
  induction h with
  | @here p v n hp hv hcore hn =>
    cases v with
    | nil =>
      rw [List.append_nil] at hs ⊢
      obtain ⟨s, hspaced, hbegins⟩ := exists_spacedNumeral_of_append hp hs
      rcases core_of_beginning hspaced hbegins hcore with hspaces | hpoint | hnum
      · exact Or.inl ⟨p, hspaces, Or.inl rfl⟩
      · exact Or.inr hpoint
      · exact absurd hnum hn
    | cons o v =>
      -- The operator behind the piece has ended it.
      rw [List.append_assoc] at hs
      have hspaced := ((mem_spacedExpression_piece_cons hp (hv o rfl)).mp hs).1
      rw [← trim_mem_numeral_iff, hcore.trimBy_eq] at hspaced
      exact absurd hspaced hn
  | @later p v n o hp ho _ ih =>
    rw [List.append_assoc] at hs
    have hrest :=
      ((mem_spacedExpression_piece_cons (operatorFree_of_mem_spacedNumeral hp) ho).mp hs).2
    exact (ih hrest).imp (fun hawaits => hawaits.behind p ho) id

/-- Feedback on the beginning of an accepted text says that it is accepted itself, that it is empty
or ends with an operator, or that its last number is a point. -/
theorem check_of_append {u t : List Char} (h : check (u ++ t) = .ok ()) :
    check u = .ok () ∨ check u = .error .emptyExpression ∨ check u = .error .operatorAtEnd ∨
      check u = .error (.malformedNumber ['.'] .notANumeral) := by
  have hs := check_eq_ok_iff.mp h
  cases hcheck : check u with
  | ok _ => exact Or.inl rfl
  | error f =>
    refine Or.inr ?_
    cases check_eq_error_iff.mp hcheck with
    | emptyExpression => exact Or.inl rfl
    | @invalidCharacter c _ hforeign =>
      obtain ⟨v, w, rfl, -, hc⟩ := hforeign
      exact absurd (mem_alphabet_of_mem hs c (by simp)) hc
    | operatorAtEnd => exact Or.inr (Or.inl rfl)
    | adjacentOperators _ _ _ hadj =>
      obtain ⟨o, ho, o', ho', hpart⟩ := hadj
      refine absurd ?_ (not_adjacentOperators_of_mem hs)
      exact ⟨o, ho, o', ho', List.infix_append_of_infix_left hpart⟩
    | operand hspaces _ hend _ hbad =>
      rcases hbad.of_append hs with hawaits | rfl
      · rcases hawaits.onlySpaces_or_operatorAtEnd with hnone | hlast
        · exact absurd hnone hspaces
        · exact absurd hlast hend
      · exact Or.inr (Or.inr rfl)

/-- The last operand is a point until its digit is typed. -/
theorem check_of_append_point : check ("2 + .".toList ++ "5".toList) = .ok () ∧
    (check "2 + .".toList = .ok () ∨ check "2 + .".toList = .error .emptyExpression ∨
      check "2 + .".toList = .error .operatorAtEnd ∨
      check "2 + .".toList = .error (.malformedNumber ['.'] .notANumeral)) :=
  ⟨by decide, check_of_append (t := "5".toList) (by decide)⟩

end FormDesk.Expression
