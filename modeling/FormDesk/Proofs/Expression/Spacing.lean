import FormDesk.Proofs.Expression.Evaluate
import Mathlib.Data.List.Find

/-! Spaces in an expression. Feedback is told on the text with its spaces and the value on the text
without them: the two differ only in gaps, spaces right between two digits or two operators. -/
namespace FormDesk.Expression
open Grammar Text

/-- Spaces alone stand between two characters of a class. -/
def HasGap (p : Char → Bool) (s : List Char) : Prop :=
  ∃ a b k, p a = true ∧ p b = true ∧ a :: (List.replicate (k + 1) ' ' ++ [b]) <:+: s

theorem HasGap.mono {p : Char → Bool} {s t : List Char} (h : HasGap p s) (hst : s <:+: t) :
    HasGap p t := by
  obtain ⟨a, b, k, ha, hb, hs⟩ := h
  exact ⟨a, b, k, ha, hb, hs.trans hst⟩

def Allowed (s : List Char) : Prop := ∀ c ∈ s, isAllowed c = true

theorem clean_eq_filter_of_allowed {s : List Char} (h : Allowed s) :
    clean s = s.filter (!isSpace ·) := by
  refine List.filter_congr fun c hc => ?_
  have hc := h c hc
  rw [isAllowed, Bool.or_eq_true, beq_iff_eq] at hc
  rcases hc with hc | rfl
  · have hspace : c ≠ ' ' := by
      intro hspace
      simp [hspace] at hc
    rw [hc, isSpace, beq_false_of_ne hspace]
    rfl
  · simp [isSpace]

theorem trim_clean (s : List Char) : trimBy isSpace (clean s) = clean s := by
  refine trimBy_eq_self fun c hc => ?_
  rw [isSpace]
  exact beq_false_of_ne (ne_space_of_mem_clean hc)

theorem hasOperatorAtEnd_clean {s : List Char} (h : Allowed s) :
    hasOperatorAtEnd (trimBy isSpace (clean s)) = hasOperatorAtEnd (trimBy isSpace s) := by
  rw [trim_clean, hasOperatorAtEnd, hasOperatorAtEnd, head?_trimBy, getLast?_trimBy,
    clean_eq_filter_of_allowed h, List.head?_filter, List.getLast?_filter]

/-- Neighbours of a cleaned text have spaces alone between them. -/
theorem infix_clean_iff {s : List Char} (h : Allowed s) {a b : Char} (ha : isSpace a = false)
    (hb : isSpace b = false) :
    [a, b] <:+: clean s ↔ ∃ k, a :: (List.replicate k ' ' ++ [b]) <:+: s := by
  rw [clean_eq_filter_of_allowed h]
  constructor
  · intro hab
    obtain ⟨l, hl, hfilter⟩ := List.infix_filter_iff.mp hab
    obtain ⟨l₁, l₂, rfl, -, -, hl₂⟩ := List.filter_eq_cons_iff.mp hfilter.symm
    obtain ⟨l₃, l₄, rfl, hspaces, -, -⟩ := List.filter_eq_cons_iff.mp hl₂
    have hrep : l₃ = List.replicate l₃.length ' ' :=
      List.eq_replicate_iff.mpr ⟨rfl, by simpa [isSpace] using hspaces⟩
    refine ⟨l₃.length, List.IsInfix.trans ?_ hl⟩
    rw [← hrep]
    exact ⟨l₁, l₄, by simp⟩
  · intro hab
    obtain ⟨k, hk⟩ := hab
    have hfilter : (a :: (List.replicate k ' ' ++ [b])).filter (!isSpace ·) = [a, b] := by
      rw [List.filter_cons_of_pos (by simp [ha]), List.filter_append,
        List.filter_cons_of_pos (by simp [hb])]
      simp [isSpace]
    exact hfilter ▸ hk.filter (!isSpace ·)

theorem adjacentOperators_clean_iff {s : List Char} (h : Allowed s) :
    AdjacentOperators (clean s) ↔ AdjacentOperators s ∨ HasGap isOperator s := by
  constructor
  · intro hadj
    obtain ⟨o, ho, o', ho', hpart⟩ := hadj
    obtain ⟨k, hk⟩ := (infix_clean_iff h (isSpace_of_mem_operators ho)
      (isSpace_of_mem_operators ho')).mp hpart
    cases k with
    | zero => exact Or.inl ⟨o, ho, o', ho', hk⟩
    | succ k => exact Or.inr ⟨o, o', k, isOperator_iff.mpr ho, isOperator_iff.mpr ho', hk⟩
  · intro hor
    rcases hor with ⟨o, ho, o', ho', hpart⟩ | ⟨o, o', k, ho, ho', hpart⟩
    · exact ⟨o, ho, o', ho', (infix_clean_iff h (isSpace_of_mem_operators ho)
        (isSpace_of_mem_operators ho')).mpr ⟨0, hpart⟩⟩
    · rw [isOperator_iff] at ho ho'
      exact ⟨o, ho, o', ho', (infix_clean_iff h (isSpace_of_mem_operators ho)
        (isSpace_of_mem_operators ho')).mpr ⟨k + 1, hpart⟩⟩

/-- A space inside a text stands in a run of spaces. -/
private theorem exists_run {n : List Char} (hhead : ∀ c ∈ n.head?, ¬ isSpace c)
    (hlast : ∀ c ∈ n.getLast?, ¬ isSpace c) (h : ' ' ∈ n) :
    ∃ u a k b v, isSpace a = false ∧ isSpace b = false ∧
      n = u ++ a :: (List.replicate (k + 1) ' ' ++ b :: v) := by
  obtain ⟨u, v, rfl, hu⟩ := List.eq_append_cons_of_mem h
  rcases List.eq_nil_or_concat u with rfl | ⟨u, a, rfl⟩
  · exact absurd rfl (hhead ' ' (by simp))
  have ha : isSpace a = false := by
    rw [isSpace]
    exact beq_false_of_ne fun ha => hu (by simp [ha])
  have hv : v = v.takeWhile isSpace ++ v.dropWhile isSpace :=
    List.takeWhile_append_dropWhile.symm
  have hrep : v.takeWhile isSpace = List.replicate (v.takeWhile isSpace).length ' ' := by
    refine List.eq_replicate_iff.mpr ⟨rfl, fun c hc => ?_⟩
    simpa [isSpace] using List.mem_takeWhile_imp hc
  generalize (v.takeWhile isSpace).length = k at hrep
  have hnot := List.head?_dropWhile_not isSpace v
  cases hr : v.dropWhile isSpace with
  | nil =>
    rw [hr, hrep, List.append_nil] at hv
    refine absurd rfl (hlast ' ' ?_)
    rw [hv, ← List.replicate_succ, List.replicate_succ', ← List.append_assoc]
    exact List.getLast?_concat
  | cons b r =>
    rw [hr] at hnot
    refine ⟨u, a, k, b, r, ha, by simpa using hnot, ?_⟩
    conv_lhs => rw [hv, hr, hrep]
    simp [List.replicate_succ]

theorem isLiteral_of_not_isSpace {p : List Char} (h : Allowed p) (hp : OperatorFree p) {c : Char}
    (hc : c ∈ p) (hspace : isSpace c = false) : isLiteral c = true := by
  have hallowed := h c hc
  rw [isAllowed, hp c hc, ← isSpace, hspace] at hallowed
  simpa using hallowed

/-- Without gaps between its digits a piece has spaces at its ends alone. -/
theorem trim_eq_clean {p : List Char} (h : Allowed p) (hp : OperatorFree p)
    (hgap : ¬ HasGap isLiteral p) : trimBy isSpace p = clean p := by
  obtain ⟨x, y, hs, hx, hy, hhead, hlast⟩ := isCore_trimBy isSpace p
  have hmem : ∀ c ∈ trimBy isSpace p, c ∈ p := fun c hc => (isCore_trimBy isSpace p).mem hc
  generalize trimBy isSpace p = n at hs hhead hlast hmem
  have hn : ∀ c ∈ n, isSpace c = false := by
    intro c hc
    by_contra hspace
    simp only [isSpace, Bool.not_eq_false, beq_iff_eq] at hspace
    -- The run of spaces that it stands in lies between two literals.
    obtain ⟨u, a, k, b, v, ha, hb, rfl⟩ := exists_run hhead hlast (hspace ▸ hc)
    refine hgap ⟨a, b, k, isLiteral_of_not_isSpace h hp (hmem a (by simp)) ha,
      isLiteral_of_not_isSpace h hp (hmem b (by simp)) hb, x ++ u, v ++ y, ?_⟩
    rw [hs]
    simp
  have hfilter : ∀ t : List Char, (∀ c ∈ t, isSpace c = true) → t.filter (!isSpace ·) = [] := by
    intro t ht
    exact List.filter_eq_nil_iff.mpr fun c hc => by simp [ht c hc]
  rw [clean_eq_filter_of_allowed h, hs, List.filter_append, List.filter_append, hfilter x hx,
    hfilter y hy, List.filter_eq_self.mpr fun c hc => by simp [hn c hc]]
  simp

private theorem eq_append_of_not_mem_left {l r u v : List Char} {c : Char}
    (h : l ++ r = u ++ c :: v) (hc : c ∉ l) : ∃ w, u = l ++ w ∧ r = w ++ c :: v := by
  rcases List.append_eq_append_iff.mp h with hw | ⟨w, rfl, hw⟩
  · exact hw
  · cases w with
    | nil => exact ⟨[], by simp, by simpa using hw.symm⟩
    | cons d w =>
      obtain ⟨rfl, -⟩ := List.cons.inj hw
      exact absurd (List.mem_append_right u List.mem_cons_self) hc

private theorem eq_append_of_not_mem_right {l r u v : List Char} {c : Char}
    (h : l ++ r = u ++ c :: v) (hc : c ∉ r) : ∃ w, l = u ++ c :: w := by
  rcases List.append_eq_append_iff.mp h with ⟨w, -, rfl⟩ | ⟨w, hl, hw⟩
  · exact absurd (List.mem_append_right w List.mem_cons_self) hc
  · cases w with
    | nil =>
      rw [List.nil_append] at hw
      exact absurd (hw ▸ List.mem_cons_self) hc
    | cons d w =>
      obtain ⟨rfl, -⟩ := List.cons.inj hw
      exact ⟨w, hl⟩

theorem not_hasGap_of_mem_spacedNumeral {p : List Char} (h : p ∈ spacedNumeral.matches') :
    ¬ HasGap isLiteral p := by
  intro hgap
  obtain ⟨a, b, k, ha, hb, u, v, hp⟩ := hgap
  obtain ⟨x, n, y, rfl, hx, hn, hy⟩ := mem_spacedNumeral.mp h
  have hout : ∀ t : List Char, (∀ c ∈ t, c = ' ') → ∀ c, isLiteral c = true → c ∉ t := by
    intro t ht c hc hmem
    simp [ht c hmem] at hc
  have hp : x ++ (n ++ y) = u ++ a :: (List.replicate (k + 1) ' ' ++ b :: v) := by
    rw [← List.append_assoc, ← hp]
    simp
  obtain ⟨w, -, hw⟩ := eq_append_of_not_mem_left hp (hout x hx a ha)
  have hw : n ++ y = (w ++ a :: List.replicate (k + 1) ' ') ++ b :: v := by
    rw [hw]
    simp
  obtain ⟨z, rfl⟩ := eq_append_of_not_mem_right hw (hout y hy b hb)
  have hspace := isLiteral_of_mem_numeral hn (c := ' ') (by simp [List.replicate_succ])
  simp at hspace

theorem Allowed.mono {s t : List Char} (h : Allowed t) (hst : ∀ c ∈ s, c ∈ t) : Allowed s :=
  fun c hc => h c (hst c hc)

theorem all_isSpace_clean {s : List Char} (h : Allowed s) :
    (clean s).all isSpace = s.all isSpace := by
  simp [clean_eq_filter_of_allowed h, List.all_filter]

theorem find?_not_isAllowed_of_allowed {s : List Char} (h : Allowed s) :
    s.find? (!isAllowed ·) = none :=
  List.find?_eq_none.mpr fun c hc => by simp [h c hc]

theorem hasAdjacentOperators_clean {s : List Char} (h : Allowed s) (hop : ¬ HasGap isOperator s) :
    hasAdjacentOperators (clean s) = hasAdjacentOperators s := by
  rw [Bool.eq_iff_iff, hasAdjacentOperators_iff, hasAdjacentOperators_iff,
    adjacentOperators_clean_iff h, or_iff_left hop]

theorem map_trim_pieces_clean {s : List Char} (h : Allowed s) (hlit : ¬ HasGap isLiteral s) :
    (pieces (clean s)).map (trimBy isSpace) = (pieces s).map (trimBy isSpace) := by
  rw [pieces_clean, List.map_map]
  refine List.map_congr_left fun p hp => ?_
  have hpart : p <:+: s :=
    (infix_iff_exists_piece (operatorFree_of_mem_pieces hp)).mpr ⟨p, hp, List.infix_rfl⟩
  have hgap : ¬ HasGap isLiteral p := fun hgap => hlit (hgap.mono hpart)
  rw [Function.comp_apply, trim_clean,
    trim_eq_clean (h.mono fun c => mem_of_mem_pieces hp) (operatorFree_of_mem_pieces hp) hgap]

/-- The text without its spaces is checked as the one with them when no gap is closed. -/
theorem check_clean_eq {s : List Char} (h : Allowed s) (hlit : ¬ HasGap isLiteral s)
    (hop : ¬ HasGap isOperator s) : check (clean s) = check s := by
  have hclean : Allowed (clean s) := h.mono fun c hc => List.mem_of_mem_filter hc
  have hforM : ∀ t : List Char, ((pieces t).forM fun p => checkOperand (trimBy isSpace p)) =
      ((pieces t).map (trimBy isSpace)).forM checkOperand := by
    intro t
    rw [List.forM_eq_forM, List.forM_map]
  simp only [check, all_isSpace_clean h, find?_not_isAllowed_of_allowed h,
    find?_not_isAllowed_of_allowed hclean, hasOperatorAtEnd_clean h,
    hasAdjacentOperators_clean h hop, hforM, map_trim_pieces_clean h hlit]

theorem mem_spacedExpression_iff {s : List Char} : s ∈ spacedExpression.matches' ↔
    ∀ n ∈ (pieces s).map (trimBy isSpace), n ∈ numeral.matches' := by
  rw [spacedExpression, mem_chain fun p => operatorFree_of_mem_spacedNumeral,
    List.forall_mem_map]
  simp only [trim_mem_numeral_iff]

theorem check_clean_eq_ok_iff_check {s : List Char} (h : Allowed s)
    (hlit : ¬ HasGap isLiteral s) : check (clean s) = .ok () ↔ check s = .ok () := by
  rw [check_eq_ok_iff, check_eq_ok_iff, mem_spacedExpression_iff, mem_spacedExpression_iff,
    map_trim_pieces_clean h hlit]

def OnlySpaceBlanks (s : List Char) : Prop := ∀ c ∈ s, isBlank c = true → c = ' '

theorem Allowed.onlySpaceBlanks {s : List Char} (h : Allowed s) : OnlySpaceBlanks s := by
  intro c hc hblank
  have hallowed := h c hc
  rw [isAllowed, isLiteral_or_isOperator_of_isBlank hblank] at hallowed
  simpa using hallowed

theorem find?_isForeign_eq {s : List Char} (h : OnlySpaceBlanks s) :
    s.find? isForeign = s.find? (!isAllowed ·) := by
  refine List.find?_congr fun c hc => ?_
  rw [isForeign]
  by_cases hblank : isBlank c = true
  · rw [h c hc hblank]
    decide
  · simp [hblank]

theorem allowed_of_find?_isForeign {s : List Char} (h : OnlySpaceBlanks s)
    (hfind : s.find? isForeign = none) : Allowed s := by
  rw [find?_isForeign_eq h, List.find?_eq_none] at hfind
  exact fun c hc => by simpa using hfind c hc

theorem Allowed.find?_isForeign {s : List Char} (h : Allowed s) : s.find? isForeign = none := by
  rw [find?_isForeign_eq h.onlySpaceBlanks, find?_not_isAllowed_of_allowed h]

theorem not_hasGap_of_check {s : List Char} (h : check s = .ok ()) :
    ¬ HasGap isLiteral s := by
  intro hgap
  obtain ⟨a, b, k, ha, hb, hpart⟩ := hgap
  have hfree : OperatorFree (a :: (List.replicate (k + 1) ' ' ++ [b])) := by
    refine operatorFree_cons.mpr ⟨isOperator_of_isLiteral ha, OperatorFree.append ?_ ?_⟩
    · exact fun c hc => (List.eq_of_mem_replicate hc) ▸ isOperator_space
    · exact fun c hc => List.mem_singleton.mp hc ▸ isOperator_of_isLiteral hb
  obtain ⟨p, hp, hpiece⟩ := (infix_iff_exists_piece hfree).mp hpart
  rw [check_eq_ok_iff, spacedExpression,
    mem_chain fun p => operatorFree_of_mem_spacedNumeral] at h
  exact not_hasGap_of_mem_spacedNumeral (h p hp) ⟨a, b, k, ha, hb, hpiece⟩

theorem allowed_of_check {s : List Char} (h : check s = .ok ()) : Allowed s :=
  fun c hc => isAllowed_iff.mpr (mem_alphabet_of_mem (check_eq_ok_iff.mp h) c hc)

theorem check_eq_map_evaluate {s : List Char} (hblank : OnlySpaceBlanks s)
    (hlit : ¬ HasGap isLiteral s) (hop : ¬ HasGap isOperator s) :
    check s = (evaluate s).map fun _ => () := by
  cases hfind : s.find? isForeign with
  | none =>
    rw [map_evaluate hfind, check_clean_eq (allowed_of_find?_isForeign hblank hfind) hlit hop]
  | some c =>
    have hforeign : FirstForeign s c := by
      rwa [← find?_not_isAllowed_eq_some_iff, ← find?_isForeign_eq hblank]
    have hspaces : ¬ OnlySpaces s := by
      intro h
      have hmem := List.mem_of_find?_eq_some hfind
      have hc := List.find?_some hfind
      rw [h c hmem] at hc
      exact absurd hc (by decide)
    rw [evaluate_of_isForeign hfind, check_of_firstForeign hspaces hforeign]
    rfl

theorem not_hasGap_clean (p : Char → Bool) (s : List Char) : ¬ HasGap p (clean s) := by
  intro h
  obtain ⟨a, b, k, -, -, hpart⟩ := h
  exact ne_space_of_mem_clean (hpart.mem (by simp [List.replicate_succ])) rfl

/-- Feedback and evaluation agree on every text whose blanks are spaces and that has no gap. What
feedback accepts has a value; of the texts with a value it refuses those with another blank or with
a gap in a numeral. -/
theorem check_agrees_evaluate (s : List Char) :
    (check s = .ok () →
      ∃ t v, Tokens.ofText s = .ok t ∧ t.value = .ok v ∧ evaluate s = .ok v) ∧
    (∀ v, evaluate s = .ok v →
      (check s = .ok () ↔ OnlySpaceBlanks s ∧ ¬ HasGap isLiteral s)) ∧
    (OnlySpaceBlanks s → ¬ HasGap isLiteral s → ¬ HasGap isOperator s →
      check s = (evaluate s).map fun _ => ()) ∧
    check (clean s) = (evaluate (clean s)).map fun _ => () := by
  refine ⟨?_, ?_, check_eq_map_evaluate, ?_⟩
  · intro h
    have hclean := (check_clean_eq_ok_iff_check (allowed_of_check h) (not_hasGap_of_check h)).mpr h
    obtain ⟨t, v, ht, hv, heval, -⟩ :=
      evaluate_of_check_ok (allowed_of_check h).find?_isForeign hclean
    exact ⟨t, v, Tokens.ofText_clean s ▸ ht, hv, heval⟩
  · intro v hv
    obtain ⟨hfind, hclean⟩ := check_clean_of_evaluate hv
    constructor
    · intro h
      exact ⟨(allowed_of_check h).onlySpaceBlanks, not_hasGap_of_check h⟩
    · intro h
      exact (check_clean_eq_ok_iff_check (allowed_of_find?_isForeign h.1 hfind) h.2).mp hclean
  · have hallowed : Allowed (clean s) := fun c hc => by
      simp [isAllowed, isLiteral_or_isOperator_of_mem_clean hc]
    exact check_eq_map_evaluate hallowed.onlySpaceBlanks (not_hasGap_clean _ s)
      (not_hasGap_clean _ s)

end FormDesk.Expression
