import FormDesk.Expression.Alphabet
import FormDesk.Proofs.Text.Cut
import Mathlib.Data.List.Infix

/-! Texts cut at their operators. A text is a piece, or a piece, an operator and a text: the
induction `pieceInduction` follows this form, and the laws of cutting are proved along it. -/
namespace FormDesk.Expression

def OperatorFree (s : List Char) : Prop := ∀ c ∈ s, isOperator c = false

theorem isOperator_of_isLiteral {c : Char} (h : isLiteral c = true) : isOperator c = false := by
  by_contra ho
  simp only [isOperator, Bool.not_eq_false, Bool.or_eq_true, beq_iff_eq] at ho
  rcases ho with rfl | rfl <;> simp [isLiteral, Char.isDigit] at h

theorem isOperator_toChar (o : Operator) : isOperator o.toChar = true := by
  cases o <;> decide

theorem exists_toChar_of_isOperator {c : Char} (h : isOperator c = true) :
    ∃ o : Operator, o.toChar = c := by
  rw [← isSome_ofChar?, Option.isSome_iff_exists] at h
  obtain ⟨o, ho⟩ := h
  exact ⟨o, (Operator.ofChar?_eq_some_iff.mp ho).symm⟩

@[simp] theorem isOperator_space : isOperator ' ' = false := by decide

@[simp] theorem isLiteral_space : isLiteral ' ' = false := by decide

theorem operatorFree_nil : OperatorFree [] := fun _ h => absurd h List.not_mem_nil

theorem operatorFree_cons {c : Char} {s : List Char} :
    OperatorFree (c :: s) ↔ isOperator c = false ∧ OperatorFree s := List.forall_mem_cons

theorem OperatorFree.append {s t : List Char} (hs : OperatorFree s) (ht : OperatorFree t) :
    OperatorFree (s ++ t) := by
  intro c hc
  rcases List.mem_append.mp hc with h | h
  · exact hs c h
  · exact ht c h

theorem pieces_of_operatorFree {s : List Char} (h : OperatorFree s) : pieces s = [s] :=
  List.splitOnP_eq_singleton h

theorem pieces_append_cons (u v : List Char) {o : Char} (ho : isOperator o = true) :
    pieces (u ++ o :: v) = pieces u ++ pieces v :=
  List.splitOnP_append_cons u v ho

theorem pieces_piece_cons {p : List Char} (hp : OperatorFree p) {o : Char}
    (ho : isOperator o = true) (t : List Char) : pieces (p ++ o :: t) = p :: pieces t :=
  Text.splitOnP_part_cons hp ho t

/-- A text is a piece, or begins with a piece and an operator. -/
@[elab_as_elim] theorem pieceInduction {motive : List Char → Prop}
    (piece : ∀ p, OperatorFree p → motive p)
    (step : ∀ p o t, OperatorFree p → isOperator o = true → motive t → motive (p ++ o :: t))
    (s : List Char) : motive s :=
  Text.cutInduction piece step s

theorem piece_cons_inj {p q : List Char} (hp : OperatorFree p) (hq : OperatorFree q) {o o' : Char}
    (ho : isOperator o = true) (ho' : isOperator o' = true) {t t' : List Char}
    (h : p ++ o :: t = q ++ o' :: t') : p = q ∧ o = o' ∧ t = t' := by
  induction p generalizing q with
  | nil =>
    cases q with
    | nil => simpa using h
    | cons c q =>
      obtain ⟨rfl, -⟩ := List.cons.inj h
      exact absurd ho (by simp [hq o List.mem_cons_self])
  | cons c p ih =>
    obtain ⟨hc, hp⟩ := operatorFree_cons.mp hp
    cases q with
    | nil =>
      obtain ⟨rfl, -⟩ := List.cons.inj h
      exact absurd ho' (by simp [hc])
    | cons d q =>
      obtain ⟨rfl, htail⟩ := List.cons.inj h
      obtain ⟨rfl, rest⟩ := ih hp (operatorFree_cons.mp hq).2 htail
      exact ⟨rfl, rest⟩

theorem operatorFree_of_mem_pieces {s p : List Char} (h : p ∈ pieces s) : OperatorFree p :=
  Text.eq_false_of_mem_splitOnP h

theorem mem_of_mem_pieces {s p : List Char} (h : p ∈ pieces s) {c : Char} (hc : c ∈ p) : c ∈ s :=
  Text.mem_of_mem_splitOnP h hc

theorem mem_piece_or_isOperator {s : List Char} {c : Char} (h : c ∈ s) :
    (∃ p ∈ pieces s, c ∈ p) ∨ isOperator c = true :=
  Text.exists_mem_splitOnP_or h

private theorem eq_nil_of_prefix_operator_cons {w : List Char} (hw : OperatorFree w) {o : Char}
    (ho : isOperator o = true) {t : List Char} (h : w <+: o :: t) : w = [] := by
  rcases List.prefix_cons_iff.mp h with rfl | ⟨v, rfl, -⟩
  · rfl
  · have := hw o List.mem_cons_self
    simp [ho] at this

/-- What holds no operator stands inside one piece. -/
theorem infix_iff_exists_piece {w : List Char} (hw : OperatorFree w) {s : List Char} :
    w <:+: s ↔ ∃ p ∈ pieces s, w <:+: p := by
  induction s using pieceInduction with
  | piece s hs => simp [pieces_of_operatorFree hs]
  | step p o t hp ho ih =>
    rw [pieces_piece_cons hp ho, List.exists_mem_cons_iff, ← ih]
    constructor
    · intro h
      rcases List.infix_append_iff_ne_nil.mp h with h | h | ⟨w₁, w₂, -, hne, rfl, -, h⟩
      · exact Or.inl h
      · rcases List.infix_cons_iff.mp h with h | h
        · exact Or.inl (eq_nil_of_prefix_operator_cons hw ho h ▸ List.nil_infix)
        · exact Or.inr h
      · have hw₂ : OperatorFree w₂ := fun c hc => hw c (List.mem_append_right w₁ hc)
        exact absurd (eq_nil_of_prefix_operator_cons hw₂ ho h) hne
    · rintro (h | h)
      · exact List.infix_append_of_infix_left h
      · exact List.infix_append_of_infix_right (List.infix_cons h)

theorem OperatorFree.clean {s : List Char} (h : OperatorFree s) : OperatorFree (clean s) :=
  fun c hc => h c (List.mem_of_mem_filter hc)

theorem clean_operator_cons {o : Char} (ho : isOperator o = true) (t : List Char) :
    clean (o :: t) = o :: clean t :=
  List.filter_cons_of_pos (by simp [ho])

/-- Cleaning keeps the cuts. -/
theorem pieces_clean (s : List Char) : pieces (clean s) = (pieces s).map clean := by
  induction s using pieceInduction with
  | piece s hs => simp [pieces_of_operatorFree hs, pieces_of_operatorFree hs.clean]
  | step p o t hp ho ih =>
    rw [clean_append, clean_operator_cons ho, pieces_piece_cons hp.clean ho,
      pieces_piece_cons hp ho, List.map_cons, ih]

end FormDesk.Expression
