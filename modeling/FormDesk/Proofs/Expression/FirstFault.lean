import FormDesk.Expression.Check
import FormDesk.Proofs.Expression.Grammar
import FormDesk.Proofs.Text.Trim

/-! Which texts are accepted while they are typed, and which fault is told about the others. The
faults of a text are stated on the text itself; the check finds the first of them. -/
namespace FormDesk.Expression
open Grammar Text

def OnlySpaces (s : List Char) : Prop := ∀ c ∈ s, c = ' '

/-- The first character that expressions do not hold. -/
def FirstForeign (s : List Char) (c : Char) : Prop :=
  ∃ u v, s = u ++ c :: v ∧ (∀ d ∈ u, d ∈ alphabet) ∧ c ∉ alphabet

/-- Before the first operator, or behind the last one, stand spaces alone. -/
def OperatorAtEnd (s : List Char) : Prop :=
  ∃ a o t, OnlySpaces a ∧ o ∈ operators ∧ (s = a ++ o :: t ∨ s = t ++ o :: a)

def AdjacentOperators (s : List Char) : Prop :=
  ∃ o ∈ operators, ∃ o' ∈ operators, [o, o'] <:+: s

/-- The first piece that is no numeral between spaces, without those spaces. -/
inductive FirstBadOperand : List Char → List Char → Prop where
  | here {p v n : List Char} : OperatorFree p → (∀ c ∈ v.head?, c ∈ operators) →
      IsCore isSpace p n → n ∉ numeral.matches' → FirstBadOperand (p ++ v) n
  | later {p t n : List Char} {o : Char} : p ∈ spacedNumeral.matches' → o ∈ operators →
      FirstBadOperand t n → FirstBadOperand (p ++ o :: t) n

def operandFault (n : List Char) : Fault :=
  if n = [] then .emptyOperand
  else if 2 ≤ n.count '.' then .malformedNumber n .tooManyPoints
  else .malformedNumber n .notANumeral

/-- The fault of a text under the first rule that it violates. -/
inductive FirstFault (s : List Char) : Fault → Prop where
  | emptyExpression : OnlySpaces s → FirstFault s .emptyExpression
  | invalidCharacter {c : Char} : ¬ OnlySpaces s → FirstForeign s c →
      FirstFault s (.invalidCharacter c)
  | operatorAtEnd : ¬ OnlySpaces s → (∀ c ∈ s, c ∈ alphabet) → OperatorAtEnd s →
      FirstFault s .operatorAtEnd
  | adjacentOperators : ¬ OnlySpaces s → (∀ c ∈ s, c ∈ alphabet) → ¬ OperatorAtEnd s →
      AdjacentOperators s → FirstFault s .adjacentOperators
  | operand {n : List Char} : ¬ OnlySpaces s → (∀ c ∈ s, c ∈ alphabet) → ¬ OperatorAtEnd s →
      ¬ AdjacentOperators s → FirstBadOperand s n → FirstFault s (operandFault n)

theorem all_isSpace_iff {s : List Char} : s.all isSpace = true ↔ OnlySpaces s := by
  simp [isSpace, OnlySpaces]

theorem find?_not_isAllowed_eq_some_iff {s : List Char} {c : Char} :
    s.find? (!isAllowed ·) = some c ↔ FirstForeign s c := by
  rw [List.find?_eq_some_iff_append]
  simp only [FirstForeign, ← isAllowed_iff]
  constructor
  · intro h
    obtain ⟨hc, u, v, hs, hu⟩ := h
    exact ⟨u, v, hs, by simpa using hu, by simpa using hc⟩
  · intro h
    obtain ⟨u, v, hs, hu, hc⟩ := h
    exact ⟨by simpa using hc, u, v, hs, by simpa using hu⟩

theorem find?_not_isAllowed_eq_none_iff {s : List Char} :
    s.find? (!isAllowed ·) = none ↔ ∀ c ∈ s, c ∈ alphabet := by
  simp [← isAllowed_iff]

theorem isSpace_of_mem_operators {o : Char} (h : o ∈ operators) : isSpace o = false := by
  have hall : operators.all (!isSpace ·) = true := by decide
  simpa using List.all_eq_true.mp hall o h

private theorem find?_any_isOperator_iff {s : List Char} :
    (s.find? (!isSpace ·)).any isOperator = true ↔
      ∃ a o t, OnlySpaces a ∧ o ∈ operators ∧ s = a ++ o :: t := by
  rw [Option.any_eq_true]
  constructor
  · intro h
    obtain ⟨o, hfind, ho⟩ := h
    obtain ⟨-, a, t, hs, ha⟩ := List.find?_eq_some_iff_append.mp hfind
    exact ⟨a, o, t, all_isSpace_iff.mp (by simpa using ha), isOperator_iff.mp ho, hs⟩
  · intro h
    obtain ⟨a, o, t, ha, ho, hs⟩ := h
    refine ⟨o, List.find?_eq_some_iff_append.mpr ⟨?_, a, t, hs, ?_⟩, isOperator_iff.mpr ho⟩
    · simp [isSpace_of_mem_operators ho]
    · simpa using all_isSpace_iff.mpr ha

theorem onlySpaces_reverse {s : List Char} : OnlySpaces s.reverse ↔ OnlySpaces s := by
  simp [OnlySpaces]

theorem hasOperatorAtEnd_trim_iff {s : List Char} :
    hasOperatorAtEnd (trimBy isSpace s) = true ↔ OperatorAtEnd s := by
  rw [hasOperatorAtEnd, Bool.or_eq_true, head?_trimBy, getLast?_trimBy,
    find?_any_isOperator_iff, find?_any_isOperator_iff]
  constructor
  · intro h
    rcases h with ⟨a, o, t, ha, ho, hs⟩ | ⟨a, o, t, ha, ho, hs⟩
    · exact ⟨a, o, t, ha, ho, Or.inl hs⟩
    · refine ⟨a.reverse, o, t.reverse, onlySpaces_reverse.mpr ha, ho, Or.inr ?_⟩
      rw [← List.reverse_reverse s, hs]
      simp
  · intro h
    obtain ⟨a, o, t, ha, ho, rfl | rfl⟩ := h
    · exact Or.inl ⟨a, o, t, ha, ho, rfl⟩
    · exact Or.inr ⟨a.reverse, o, t.reverse, onlySpaces_reverse.mpr ha, ho, by simp⟩

private theorem not_adjacentOperators_of_length {s : List Char} (hs : s.length < 2) :
    ¬ AdjacentOperators s := by
  intro h
  obtain ⟨o, -, o', -, h⟩ := h
  have := h.length_le
  simp only [List.length_cons, List.length_nil] at this
  omega

theorem hasAdjacentOperators_iff {s : List Char} :
    hasAdjacentOperators s = true ↔ AdjacentOperators s := by
  fun_induction hasAdjacentOperators s with
  | case1 c d s ih =>
    rw [Bool.or_eq_true, Bool.and_eq_true, ih, isOperator_iff, isOperator_iff]
    constructor
    · intro h
      rcases h with ⟨hc, hd⟩ | ⟨o, ho, o', ho', h⟩
      · exact ⟨c, hc, d, hd, [], s, rfl⟩
      · exact ⟨o, ho, o', ho', List.infix_cons h⟩
    · intro h
      obtain ⟨o, ho, o', ho', h⟩ := h
      rcases List.infix_cons_iff.mp h with ⟨t, ht⟩ | h
      · simp only [List.cons_append, List.nil_append, List.cons.injEq] at ht
        obtain ⟨rfl, rfl, -⟩ := ht
        exact Or.inl ⟨ho, ho'⟩
      · exact Or.inr ⟨o, ho, o', ho', h⟩
  | case2 s hs =>
    refine iff_of_false (by simp) (not_adjacentOperators_of_length ?_)
    match s, hs with
    | [], _ => simp
    | [_], _ => simp
    | c :: d :: r, hs => exact absurd rfl (hs c d r)

theorem checkOperand_eq_ok_iff {n : List Char} :
    checkOperand n = .ok () ↔ n ∈ numeral.matches' := by
  rw [mem_numeral]
  unfold checkOperand
  constructor
  · intro h
    split_ifs at h with hempty hpoints hread
    obtain ⟨m, hm⟩ := Option.ne_none_iff_exists'.mp (by simpa using hread)
    exact ⟨m, Numeral.ofText?_eq_some_iff.mp hm⟩
  · intro h
    obtain ⟨m, hm⟩ := h
    have hne : n.isEmpty = false := by
      simpa using ne_nil_of_mem_numeral (mem_numeral.mpr ⟨m, hm⟩)
    have hpoints : ¬ 1 < n.count '.' := by
      have := hm.count_point_le
      omega
    simp [hne, hpoints, hm.ofText?_eq]

theorem checkOperand_of_not_mem {n : List Char} (h : n ∉ numeral.matches') :
    checkOperand n = .error (operandFault n) := by
  have hread : Numeral.ofText? n = none := by
    rw [Option.eq_none_iff_forall_ne_some]
    exact fun m hm => h (mem_numeral.mpr ⟨m, Numeral.ofText?_eq_some_iff.mp hm⟩)
  unfold checkOperand operandFault
  simp only [hread, List.isEmpty_iff, Option.isNone_none, if_true]
  split_ifs <;> first | rfl | omega

theorem isCore_of_isLiteral {a n b : List Char} (ha : ∀ c ∈ a, c = ' ')
    (hn : ∀ c ∈ n, isLiteral c = true) (hb : ∀ c ∈ b, c = ' ') :
    IsCore isSpace (a ++ n ++ b) n := by
  have hspace : ∀ c ∈ n, ¬ isSpace c := by
    intro c hc h
    have hl := hn c hc
    rw [isSpace, beq_iff_eq] at h
    simp [h] at hl
  refine ⟨a, b, rfl, by simpa [isSpace] using ha, by simpa [isSpace] using hb, ?_, ?_⟩
  · exact fun c hc => hspace c (List.mem_of_mem_head? hc)
  · exact fun c hc => hspace c (List.mem_of_mem_getLast? hc)

theorem isCore_of_mem_numeral {a n b : List Char} (ha : ∀ c ∈ a, c = ' ')
    (hn : n ∈ numeral.matches') (hb : ∀ c ∈ b, c = ' ') : IsCore isSpace (a ++ n ++ b) n :=
  isCore_of_isLiteral ha (fun _ hc => isLiteral_of_mem_numeral hn hc) hb

theorem trim_mem_numeral_iff {p : List Char} :
    trimBy isSpace p ∈ numeral.matches' ↔ p ∈ spacedNumeral.matches' := by
  constructor
  · intro h
    obtain ⟨a, b, hp, ha, hb, -⟩ := isCore_trimBy isSpace p
    exact mem_spacedNumeral.mpr
      ⟨a, _, b, hp, by simpa [isSpace] using ha, h, by simpa [isSpace] using hb⟩
  · intro h
    obtain ⟨a, n, b, rfl, ha, hn, hb⟩ := mem_spacedNumeral.mp h
    rwa [(isCore_of_mem_numeral ha hn hb).trimBy_eq]

theorem firstBadOperand_piece_iff {s n : List Char} (hs : OperatorFree s) :
    FirstBadOperand s n ↔ IsCore isSpace s n ∧ n ∉ numeral.matches' := by
  have hfree : ∀ o ∈ s, o ∉ operators := by
    intro o ho h
    have := hs o ho
    simp [isOperator_iff.mpr h] at this
  constructor
  · intro h
    cases h with
    | here hp hv hcore hn =>
      rename_i p v
      cases v with
      | nil => exact ⟨by simpa using hcore, hn⟩
      | cons o t => exact absurd (hv o rfl) (hfree o (by simp))
    | later hp ho h => exact absurd ho (hfree _ (by simp))
  · intro h
    simpa using FirstBadOperand.here (v := []) hs (by simp) h.1 h.2

theorem firstBadOperand_cons_iff {p t n : List Char} (hp : OperatorFree p) {o : Char}
    (ho : isOperator o = true) : FirstBadOperand (p ++ o :: t) n ↔
      (IsCore isSpace p n ∧ n ∉ numeral.matches') ∨
        (p ∈ spacedNumeral.matches' ∧ FirstBadOperand t n) := by
  constructor
  · intro h
    generalize hs : p ++ o :: t = s at h
    cases h with
    | here hq hv hcore hn =>
      rename_i q v
      cases v with
      | nil =>
        rw [List.append_nil] at hs
        exact absurd (hq o (by simp [← hs])) (by simp [ho])
      | cons o' t' =>
        obtain ⟨rfl, -⟩ := piece_cons_inj hp hq ho (isOperator_iff.mpr (hv o' rfl)) hs
        exact Or.inl ⟨hcore, hn⟩
    | later hq ho' h =>
      obtain ⟨rfl, -, rfl⟩ := piece_cons_inj hp (operatorFree_of_mem_spacedNumeral hq) ho
        (isOperator_iff.mpr ho') hs
      exact Or.inr ⟨hq, h⟩
  · intro h
    rcases h with ⟨hcore, hn⟩ | ⟨hq, h⟩
    · exact .here hp (by simpa using isOperator_iff.mp ho) hcore hn
    · exact .later hq (isOperator_iff.mp ho) h

theorem checkOperand_trim_eq_error_iff {p : List Char} {f : Fault} :
    checkOperand (trimBy isSpace p) = .error f ↔
      ∃ n, (IsCore isSpace p n ∧ n ∉ numeral.matches') ∧ f = operandFault n := by
  constructor
  · intro h
    have hn : trimBy isSpace p ∉ numeral.matches' := by
      intro hn
      rw [checkOperand_eq_ok_iff.mpr hn] at h
      cases h
    rw [checkOperand_of_not_mem hn] at h
    cases h
    exact ⟨_, ⟨isCore_trimBy isSpace p, hn⟩, rfl⟩
  · intro h
    obtain ⟨n, ⟨hcore, hn⟩, rfl⟩ := h
    rw [hcore.trimBy_eq, checkOperand_of_not_mem hn]

theorem forM_checkOperand_eq_error_iff {s : List Char} {f : Fault} :
    ((pieces s).forM fun p => checkOperand (trimBy isSpace p)) = .error f ↔
      ∃ n, FirstBadOperand s n ∧ f = operandFault n := by
  rw [List.forM_eq_forM]
  induction s using pieceInduction with
  | piece s hs =>
    simp only [pieces_of_operatorFree hs, List.forM_cons, List.forM_nil,
      firstBadOperand_piece_iff hs, ← checkOperand_trim_eq_error_iff]
    cases checkOperand (trimBy isSpace s) <;> rfl
  | step p o t hp ho ih =>
    have hor : (∃ n, FirstBadOperand (p ++ o :: t) n ∧ f = operandFault n) ↔
        checkOperand (trimBy isSpace p) = .error f ∨
          (trimBy isSpace p ∈ numeral.matches' ∧
            ∃ n, FirstBadOperand t n ∧ f = operandFault n) := by
      simp only [firstBadOperand_cons_iff hp ho, checkOperand_trim_eq_error_iff,
        trim_mem_numeral_iff, or_and_right, exists_or, and_assoc, exists_and_left]
    rw [pieces_piece_cons hp ho, List.forM_cons, hor, ← ih, ← checkOperand_eq_ok_iff]
    cases checkOperand (trimBy isSpace p) <;> simp [bind, Except.bind]

theorem forM_checkOperand_eq_ok_iff {s : List Char} :
    ((pieces s).forM fun p => checkOperand (trimBy isSpace p)) = .ok () ↔
      s ∈ spacedExpression.matches' := by
  rw [spacedExpression, mem_chain fun p => operatorFree_of_mem_spacedNumeral, List.forM_eq_forM]
  induction pieces s with
  | nil => simp [pure, Except.pure]
  | cons p ps ih =>
    rw [List.forM_cons, List.forall_mem_cons, ← ih, ← trim_mem_numeral_iff,
      ← checkOperand_eq_ok_iff]
    cases checkOperand (trimBy isSpace p) <;> simp [bind, Except.bind]

theorem not_onlySpaces_of_mem_spacedNumeral {p : List Char} (h : p ∈ spacedNumeral.matches') :
    ¬ OnlySpaces p := by
  intro hp
  obtain ⟨a, n, b, rfl, -, hn, -⟩ := mem_spacedNumeral.mp h
  obtain ⟨c, t, rfl⟩ := List.exists_cons_of_ne_nil (ne_nil_of_mem_numeral hn)
  have hl := isLiteral_of_mem_numeral hn List.mem_cons_self
  rw [hp c (by simp)] at hl
  simp at hl

theorem not_onlySpaces_of_mem_pieces {s p : List Char} (hs : s ∈ spacedExpression.matches')
    (hp : p ∈ pieces s) : ¬ OnlySpaces p :=
  not_onlySpaces_of_mem_spacedNumeral
    ((mem_chain fun _ => operatorFree_of_mem_spacedNumeral).mp hs p hp)

theorem OnlySpaces.pieces_eq {s : List Char} (h : OnlySpaces s) : pieces s = [s] :=
  pieces_of_operatorFree fun c hc => h c hc ▸ isOperator_space

theorem not_operatorAtEnd_of_mem {s : List Char} (hs : s ∈ spacedExpression.matches') :
    ¬ OperatorAtEnd s := by
  intro h
  obtain ⟨a, o, t, ha, ho, h⟩ := h
  refine not_onlySpaces_of_mem_pieces hs (p := a) ?_ ha
  rcases h with rfl | rfl
  · simp [pieces_append_cons _ _ (isOperator_iff.mpr ho), ha.pieces_eq]
  · simp [pieces_append_cons _ _ (isOperator_iff.mpr ho), ha.pieces_eq]

theorem not_adjacentOperators_of_mem {s : List Char} (hs : s ∈ spacedExpression.matches') :
    ¬ AdjacentOperators s := by
  intro h
  obtain ⟨o, ho, o', ho', u, v, rfl⟩ := h
  have hnil : OnlySpaces [] := fun _ h => absurd h List.not_mem_nil
  refine not_onlySpaces_of_mem_pieces hs (p := []) ?_ hnil
  have hcut : pieces (o' :: v) = [] :: pieces v :=
    pieces_piece_cons operatorFree_nil (isOperator_iff.mpr ho') v
  rw [List.append_assoc, List.cons_append, List.singleton_append,
    pieces_append_cons _ _ (isOperator_iff.mpr ho), hcut]
  simp

theorem mem_alphabet_of_mem {s : List Char} (hs : s ∈ spacedExpression.matches') :
    ∀ c ∈ s, c ∈ alphabet := by
  intro c hc
  rw [← isAllowed_iff]
  have hpiece : ∀ p ∈ spacedNumeral.matches', ∀ c ∈ p, isAllowed c = true := by
    intro p hp c hc
    obtain ⟨a, n, b, rfl, ha, hn, hb⟩ := mem_spacedNumeral.mp hp
    simp only [List.mem_append] at hc
    rcases hc with (hc | hc) | hc
    · rw [ha c hc]; decide
    · simp [isAllowed, isLiteral_of_mem_numeral hn hc]
    · rw [hb c hc]; decide
  rw [spacedExpression, mem_chain fun p => operatorFree_of_mem_spacedNumeral] at hs
  rcases mem_piece_or_isOperator hc with ⟨p, hp, hc⟩ | ho
  · exact hpiece p (hs p hp) c hc
  · simp [isAllowed, ho]

theorem check_of_onlySpaces {s : List Char} (h : OnlySpaces s) :
    check s = .error .emptyExpression := by
  rw [check, if_pos (all_isSpace_iff.mpr h)]

theorem check_of_firstForeign {s : List Char} {c : Char} (hspaces : ¬ OnlySpaces s)
    (h : FirstForeign s c) : check s = .error (.invalidCharacter c) := by
  rw [check, if_neg (mt all_isSpace_iff.mp hspaces), find?_not_isAllowed_eq_some_iff.mpr h]

section
variable {s : List Char} (hspaces : ¬ OnlySpaces s) (halphabet : ∀ c ∈ s, c ∈ alphabet)
include hspaces halphabet

private theorem check_eq_ite : check s =
    if hasOperatorAtEnd (trimBy isSpace s) then .error .operatorAtEnd
    else if hasAdjacentOperators s then .error .adjacentOperators
    else (pieces s).forM fun p => checkOperand (trimBy isSpace p) := by
  rw [check, if_neg (mt all_isSpace_iff.mp hspaces), find?_not_isAllowed_eq_none_iff.mpr halphabet]

theorem check_of_operatorAtEnd (h : OperatorAtEnd s) : check s = .error .operatorAtEnd := by
  rw [check_eq_ite hspaces halphabet, if_pos (hasOperatorAtEnd_trim_iff.mpr h)]

theorem check_of_adjacentOperators (hend : ¬ OperatorAtEnd s) (h : AdjacentOperators s) :
    check s = .error .adjacentOperators := by
  rw [check_eq_ite hspaces halphabet, if_neg (mt hasOperatorAtEnd_trim_iff.mp hend),
    if_pos (hasAdjacentOperators_iff.mpr h)]

/-- Past the rules on the whole text, the operands decide. -/
theorem check_eq_forM (hend : ¬ OperatorAtEnd s) (hadj : ¬ AdjacentOperators s) :
    check s = (pieces s).forM fun p => checkOperand (trimBy isSpace p) := by
  rw [check_eq_ite hspaces halphabet, if_neg (mt hasOperatorAtEnd_trim_iff.mp hend),
    if_neg (mt hasAdjacentOperators_iff.mp hadj)]

end

private theorem check_cases (s : List Char) :
    (∃ f, FirstFault s f ∧ check s = .error f) ∨
      (¬ OnlySpaces s ∧ (∀ c ∈ s, c ∈ alphabet) ∧ ¬ OperatorAtEnd s ∧ ¬ AdjacentOperators s) := by
  by_cases hspaces : OnlySpaces s
  · exact Or.inl ⟨_, .emptyExpression hspaces, check_of_onlySpaces hspaces⟩
  by_cases halphabet : ∀ c ∈ s, c ∈ alphabet
  · by_cases hend : OperatorAtEnd s
    · exact Or.inl ⟨_, .operatorAtEnd hspaces halphabet hend,
        check_of_operatorAtEnd hspaces halphabet hend⟩
    by_cases hadj : AdjacentOperators s
    · exact Or.inl ⟨_, .adjacentOperators hspaces halphabet hend hadj,
        check_of_adjacentOperators hspaces halphabet hend hadj⟩
    exact Or.inr ⟨hspaces, halphabet, hend, hadj⟩
  · rw [← find?_not_isAllowed_eq_none_iff, ← ne_eq, Option.ne_none_iff_exists'] at halphabet
    obtain ⟨c, hc⟩ := halphabet
    have hc : FirstForeign s c := find?_not_isAllowed_eq_some_iff.mp hc
    exact Or.inl ⟨_, .invalidCharacter hspaces hc, check_of_firstForeign hspaces hc⟩

theorem check_eq_ok_iff {s : List Char} : check s = .ok () ↔ s ∈ spacedExpression.matches' := by
  constructor
  · intro h
    rcases check_cases s with ⟨f, -, hf⟩ | ⟨hspaces, halphabet, hend, hadj⟩
    · cases hf.symm.trans h
    · rw [check_eq_forM hspaces halphabet hend hadj] at h
      exact forM_checkOperand_eq_ok_iff.mp h
  · intro hs
    have hspaces : ¬ OnlySpaces s := fun h =>
      not_onlySpaces_of_mem_pieces hs (p := s) (by simp [h.pieces_eq]) h
    rw [check_eq_forM hspaces (mem_alphabet_of_mem hs) (not_operatorAtEnd_of_mem hs)
      (not_adjacentOperators_of_mem hs)]
    exact forM_checkOperand_eq_ok_iff.mpr hs

theorem check_eq_error_iff {s : List Char} {f : Fault} : check s = .error f ↔ FirstFault s f := by
  constructor
  · intro h
    rcases check_cases s with ⟨g, hfirst, hg⟩ | ⟨hspaces, halphabet, hend, hadj⟩
    · cases hg.symm.trans h
      exact hfirst
    · rw [check_eq_forM hspaces halphabet hend hadj] at h
      obtain ⟨n, hbad, rfl⟩ := forM_checkOperand_eq_error_iff.mp h
      exact .operand hspaces halphabet hend hadj hbad
  · intro h
    cases h with
    | emptyExpression hspaces => exact check_of_onlySpaces hspaces
    | invalidCharacter hspaces hc => exact check_of_firstForeign hspaces hc
    | operatorAtEnd hspaces halphabet hend => exact check_of_operatorAtEnd hspaces halphabet hend
    | adjacentOperators hspaces halphabet hend hadj =>
      exact check_of_adjacentOperators hspaces halphabet hend hadj
    | operand hspaces halphabet hend hadj hbad =>
      rw [check_eq_forM hspaces halphabet hend hadj]
      exact forM_checkOperand_eq_error_iff.mpr ⟨_, hbad, rfl⟩

/-- The text is accepted when it is an expression with spaces around its numerals, and refused
with the fault of the first rule that it violates. -/
theorem check_decides (s : List Char) :
    (check s = .ok () ↔ s ∈ spacedExpression.matches') ∧
      ∀ f, check s = .error f ↔ FirstFault s f :=
  ⟨check_eq_ok_iff, fun _ => check_eq_error_iff⟩

end FormDesk.Expression
