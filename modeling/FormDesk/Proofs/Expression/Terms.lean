import FormDesk.Expression.Evaluate
import FormDesk.Proofs.Expression.Grammar

/-! The terms of an expression: cut out of its text, and grown by the tokens one by one. Both ways
multiply the factors of a term from the left. -/
namespace FormDesk.Expression

theorem mapM_eq_some_iff {α β : Type} {f : α → Option β} {xs : List α} {ys : List β} :
    xs.mapM f = some ys ↔ xs.map f = ys.map some := by
  induction xs generalizing ys with
  | nil => cases ys <;> simp
  | cons x xs ih =>
    have hrest : ∀ zs, xs.mapM f = some zs ↔ xs.map f = zs.map some := fun _ => ih
    rw [List.mapM_cons, List.map_cons]
    cases f x with
    | none => cases ys <;> simp
    | some y =>
      cases hmap : xs.mapM f with
      | none => cases ys <;> simp [← hrest, hmap]
      | some zs => cases ys <;> simp [← hrest, hmap]

theorem exists_mem_of_mapM {α β : Type} {f : α → Option β} {xs : List α} {ys : List β}
    (h : xs.mapM f = some ys) {y : β} (hy : y ∈ ys) : ∃ x ∈ xs, f x = some y := by
  have hmem : some y ∈ xs.map f := mapM_eq_some_iff.mp h ▸ List.mem_map_of_mem hy
  exact List.mem_map.mp hmem

theorem exists_eq_some_of_mapM {α β : Type} {f : α → Option β} {xs : List α} {ys : List β}
    (h : xs.mapM f = some ys) {x : α} (hx : x ∈ xs) : ∃ y ∈ ys, f x = some y := by
  have hmem : f x ∈ ys.map some := mapM_eq_some_iff.mp h ▸ List.mem_map_of_mem hx
  obtain ⟨y, hy, hxy⟩ := List.mem_map.mp hmem
  exact ⟨y, hy, hxy.symm⟩

def literal? (text : List Char) : Option Binary64 :=
  (Numeral.ofText? text).map Numeral.toBinary64

def product? : List Binary64 → Option Binary64
  | [] => none
  | x :: xs => some (xs.foldl (· * ·) x)

/-- The literals between the `*` of each part between the `+`. -/
def factors? (text : List Char) : Option (List (List Binary64)) :=
  (text.splitOn '+').mapM fun term => (term.splitOn '*').mapM literal?

/-- The sum of the products that a text writes, from the left and from negative zero. -/
def sumOfProducts? (text : List Char) : Option Binary64 := do
  let terms ← (← factors? text).mapM product?
  return terms.foldl (· + ·) (.zero true)

theorem sumOfProducts?_eq_some_iff {text : List Char} {v : Binary64} :
    sumOfProducts? text = some v ↔ ∃ terms, ∃ products : List Binary64,
      factors? text = some terms ∧ terms.map product? = products.map some ∧
        products.foldl (· + ·) (.zero true) = v := by
  simp only [sumOfProducts?, ← mapM_eq_some_iff]
  cases factors? text with
  | none => simp
  | some terms => cases hproducts : terms.mapM product? <;> simp [hproducts]

namespace Tokens

/-- The factors of the terms, for a first operand and the steps behind it. -/
def groups (x : Binary64) : List (Operator × Binary64) → List (List Binary64)
  | [] => [[x]]
  | (.times, y) :: steps => (groups y steps).modifyHead (x :: ·)
  | (.plus, y) :: steps => [x] :: groups y steps

theorem foldl_pushTerm_append (steps : List (Operator × Binary64)) (t : Binary64)
    (ts : List Binary64) :
    steps.foldl pushTerm (t :: ts) = steps.foldl pushTerm [t] ++ ts := by
  induction steps generalizing t ts with
  | nil => rfl
  | cons step steps ih =>
    obtain ⟨o, y⟩ := step
    cases o with
    | times => exact ih (t * y) ts
    | plus =>
      calc steps.foldl pushTerm (y :: t :: ts)
          = steps.foldl pushTerm [y] ++ t :: ts := ih y (t :: ts)
        _ = (steps.foldl pushTerm [y] ++ [t]) ++ ts := by simp
        _ = steps.foldl pushTerm (y :: [t]) ++ ts := by rw [ih y [t]]

/-- The steps multiply on from any value in place of the first operand. -/
private theorem exists_groups (x : Binary64) (steps : List (Operator × Binary64)) :
    ∃ g gs ts, groups x steps = (x :: g) :: gs ∧ gs.mapM product? = some ts ∧
      ∀ t, (steps.foldl pushTerm [t]).reverse = g.foldl (· * ·) t :: ts := by
  induction steps generalizing x with
  | nil => exact ⟨[], [], [], rfl, rfl, fun t => rfl⟩
  | cons step steps ih =>
    obtain ⟨o, y⟩ := step
    obtain ⟨g, gs, ts, hgroups, hts, hterms⟩ := ih y
    cases o with
    | times => exact ⟨y :: g, gs, ts, by rw [groups, hgroups]; rfl, hts, fun t => hterms (t * y)⟩
    | plus =>
      refine ⟨[], (y :: g) :: gs, g.foldl (· * ·) y :: ts, by rw [groups, hgroups], ?_, ?_⟩
      · rw [List.mapM_cons, hts]
        rfl
      · intro t
        -- Terms are kept last first: the finished one stays at the end.
        change (steps.foldl pushTerm (y :: [t])).reverse = _
        rw [foldl_pushTerm_append, List.reverse_append, hterms y]
        rfl

theorem mapM_product?_groups (x : Binary64) (steps : List (Operator × Binary64)) :
    (groups x steps).mapM product? = some (steps.foldl pushTerm [x]).reverse := by
  obtain ⟨g, gs, ts, hgroups, hts, hterms⟩ := exists_groups x steps
  rw [hgroups, List.mapM_cons, hts, hterms x]
  rfl

def ofSteps (x : Binary64) (steps : List (Operator × Binary64)) : Tokens :=
  ⟨x :: steps.map Prod.snd, steps.map Prod.fst⟩

theorem value_ofSteps (x : Binary64) (steps : List (Operator × Binary64)) :
    (ofSteps x steps).value = .ok (sum (steps.foldl pushTerm [x]).reverse) := by
  have hzip : (steps.map Prod.fst).zip (steps.map Prod.snd) = steps := by
    induction steps with
    | nil => rfl
    | cons step steps ih => rw [List.map_cons, List.map_cons, List.zip_cons_cons, ih]
  simp only [ofSteps, value, List.length_map, if_true, hzip]

private theorem ofChar?_eq_none {c : Char} (h : isOperator c = false) :
    Operator.ofChar? c = none := by
  rw [← isSome_ofChar?, Option.isSome_eq_false_iff] at h
  exact Option.isNone_iff_eq_none.mp h

theorem filterMap_ofChar?_of_operatorFree {s : List Char} (hs : OperatorFree s) :
    s.filterMap Operator.ofChar? = [] :=
  List.filterMap_eq_nil_iff.mpr fun c hc => ofChar?_eq_none (hs c hc)

theorem ofText_of_operatorFree {s : List Char} (hs : OperatorFree s) :
    ofText s = (readOperand s).map fun x? => ⟨x?.toList, []⟩ := by
  rw [ofText, pieces_of_operatorFree hs, List.mapM_cons, filterMap_ofChar?_of_operatorFree hs]
  cases readOperand s with
  | error f => rfl
  | ok x? => cases x? <;> rfl

theorem ofText_piece_cons {p : List Char} (hp : OperatorFree p) (o : Operator) (t : List Char) :
    ofText (p ++ o.toChar :: t) = (readOperand p).bind fun x? =>
      (ofText t).map fun r => ⟨x?.toList ++ r.operands, o :: r.operators⟩ := by
  have ho : Operator.ofChar? o.toChar = some o := Operator.ofChar?_eq_some_iff.mpr rfl
  have hop : isOperator o.toChar = true := isOperator_toChar o
  rw [ofText, ofText, pieces_piece_cons hp hop, List.mapM_cons, List.filterMap_append,
    filterMap_ofChar?_of_operatorFree hp, List.filterMap_cons_some ho]
  cases readOperand p with
  | error f => rfl
  | ok x? =>
    cases (pieces t).mapM readOperand with
    | error f => rfl
    | ok xs => cases x? <;> rfl

/-- What cleaning drops writes no token. -/
theorem ofText_clean (s : List Char) : ofText (clean s) = ofText s := by
  have hread : readOperand ∘ clean = readOperand := by
    funext p
    have hfilter : (clean p).filter isLiteral = p.filter isLiteral := by
      rw [clean, List.filter_filter]
      refine List.filter_congr fun c _ => ?_
      cases isLiteral c <;> simp
    simp only [Function.comp_apply, readOperand, hfilter]
  have hops : (clean s).filterMap Operator.ofChar? = s.filterMap Operator.ofChar? := by
    rw [clean, List.filterMap_filter]
    refine List.filterMap_congr fun c _ => ?_
    split_ifs with hc
    · rfl
    · simp only [Bool.or_eq_true, not_or, Bool.not_eq_true] at hc
      exact (ofChar?_eq_none hc.2).symm
  rw [ofText, ofText, pieces_clean, List.mapM_map, hread, hops]

theorem readOperand_of_mem_numeral {p : List Char} (h : p ∈ Grammar.numeral.matches') :
    ∃ x, readOperand p = .ok (some x) ∧ literal? p = some x := by
  obtain ⟨n, hn⟩ := Grammar.mem_numeral.mp h
  have hfilter : p.filter isLiteral = p :=
    List.filter_eq_self.mpr fun c hc => Grammar.isLiteral_of_mem_numeral h hc
  have hne : p.isEmpty = false := by simpa using Grammar.ne_nil_of_mem_numeral h
  refine ⟨n.toBinary64, ?_, ?_⟩
  · simp only [readOperand, hfilter, hne, hn.ofText?_eq]
    rfl
  · rw [literal?, hn.ofText?_eq]
    rfl

end Tokens

private theorem splitOn_append_of_forall {d : Char} {u : List Char} (hu : ∀ c ∈ u, c ≠ d)
    (v : List Char) : (u ++ v).splitOn d = (v.splitOn d).modifyHead (u ++ ·) := by
  induction u with
  | nil =>
    obtain ⟨h, r, hv⟩ := List.exists_cons_of_ne_nil (List.splitOn_ne_nil d v)
    simp [hv]
  | cons c u ih =>
    have hc : (c == d) = false := by simpa using hu c List.mem_cons_self
    rw [List.cons_append, List.splitOn_cons_eq_if_modifyHead, hc,
      ih fun c hc => hu c (List.mem_cons_of_mem _ hc)]
    simp [List.modifyHead_modifyHead, Function.comp_def]

private theorem ne_toChar_of_operatorFree {p : List Char} (hp : OperatorFree p) (o : Operator) :
    ∀ c ∈ p, c ≠ o.toChar := by
  intro c hc h
  have := hp c hc
  rw [h, isOperator_toChar] at this
  cases this

private theorem splitOn_of_operatorFree {p : List Char} (hp : OperatorFree p) (o : Operator) :
    p.splitOn o.toChar = [p] := by
  rw [List.splitOn_eq_splitOnP]
  exact List.splitOnP_eq_singleton fun c hc => by simpa using ne_toChar_of_operatorFree hp o c hc

private theorem splitOn_piece_cons {p : List Char} (hp : OperatorFree p) (o : Operator)
    (t : List Char) : (p ++ o.toChar :: t).splitOn o.toChar = p :: t.splitOn o.toChar := by
  rw [List.splitOn_eq_splitOnP, List.splitOnP_append_cons_of_forall_mem
    (fun c hc => by simpa using ne_toChar_of_operatorFree hp o c hc) _ (by simp),
    List.splitOn_eq_splitOnP]

theorem factors?_of_operatorFree {p : List Char} (hp : OperatorFree p) :
    factors? p = (literal? p).map fun x => [[x]] := by
  have hplus : p.splitOn '+' = [p] := splitOn_of_operatorFree hp .plus
  have htimes : p.splitOn '*' = [p] := splitOn_of_operatorFree hp .times
  rw [factors?, hplus, List.mapM_cons, htimes, List.mapM_cons]
  cases literal? p <;> rfl

theorem sumOfProducts?_of_operatorFree {p : List Char} (hp : OperatorFree p) :
    sumOfProducts? p = (literal? p).map (.zero true + ·) := by
  rw [sumOfProducts?, factors?_of_operatorFree hp]
  cases literal? p <;> rfl

theorem factors?_piece_plus {p : List Char} (hp : OperatorFree p) (t : List Char) :
    factors? (p ++ '+' :: t) = do
      let x ← literal? p
      let gs ← factors? t
      return [x] :: gs := by
  have hplus : (p ++ '+' :: t).splitOn '+' = p :: t.splitOn '+' := splitOn_piece_cons hp .plus t
  have htimes : p.splitOn '*' = [p] := splitOn_of_operatorFree hp .times
  rw [factors?, factors?, hplus, List.mapM_cons, htimes, List.mapM_cons]
  cases literal? p <;> rfl

theorem factors?_piece_times {p : List Char} (hp : OperatorFree p) (t : List Char) :
    factors? (p ++ '*' :: t) = do
      let x ← literal? p
      let gs ← factors? t
      return gs.modifyHead (x :: ·) := by
  obtain ⟨h, r, ht⟩ := List.exists_cons_of_ne_nil (List.splitOn_ne_nil '+' t)
  have hplus : (p ++ '*' :: t).splitOn '+' = (p ++ '*' :: h) :: r := by
    have hu : ∀ c ∈ p ++ ['*'], c ≠ '+' := by
      intro c hc
      rcases List.mem_append.mp hc with hc | hc
      · exact ne_toChar_of_operatorFree hp .plus c hc
      · rw [List.mem_singleton.mp hc]
        decide
    have := splitOn_append_of_forall hu t
    simpa [ht] using this
  have htimes : (p ++ '*' :: h).splitOn '*' = p :: h.splitOn '*' := splitOn_piece_cons hp .times h
  rw [factors?, factors?, hplus, ht, List.mapM_cons, List.mapM_cons, htimes, List.mapM_cons]
  cases literal? p with
  | none => rfl
  | some x =>
    cases (h.splitOn '*').mapM literal? with
    | none => rfl
    | some g => cases r.mapM fun term => (term.splitOn '*').mapM literal? <;> rfl

/-- An expression is a first operand and the steps behind it, as tokens and as a text. -/
theorem exists_ofSteps {s : List Char} (hs : s ∈ Grammar.expression.matches') :
    ∃ x steps, Tokens.ofText s = .ok (Tokens.ofSteps x steps) ∧
      factors? s = some (Tokens.groups x steps) := by
  rw [Grammar.expression, Grammar.mem_chain fun p => Grammar.operatorFree_of_mem_numeral] at hs
  induction s using pieceInduction with
  | piece s hfree =>
    have hnum : s ∈ Grammar.numeral.matches' := hs s (by simp [pieces_of_operatorFree hfree])
    obtain ⟨x, hread, hlit⟩ := Tokens.readOperand_of_mem_numeral hnum
    refine ⟨x, [], ?_, ?_⟩
    · rw [Tokens.ofText_of_operatorFree hfree, hread]
      rfl
    · rw [factors?_of_operatorFree hfree, hlit]
      rfl
  | step p o t hp ho ih =>
    rw [pieces_piece_cons hp ho, List.forall_mem_cons] at hs
    obtain ⟨x, hread, hlit⟩ := Tokens.readOperand_of_mem_numeral hs.1
    obtain ⟨y, steps, htext, hfactors⟩ := ih hs.2
    obtain ⟨op, rfl⟩ := exists_toChar_of_isOperator ho
    refine ⟨x, (op, y) :: steps, ?_, ?_⟩
    · rw [Tokens.ofText_piece_cons hp, hread, htext]
      rfl
    · cases op with
      | plus =>
        rw [Operator.toChar, factors?_piece_plus hp, hlit, hfactors]
        rfl
      | times =>
        rw [Operator.toChar, factors?_piece_times hp, hlit, hfactors]
        rfl

end FormDesk.Expression
