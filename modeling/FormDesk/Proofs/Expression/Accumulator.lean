import FormDesk.Proofs.Expression.Operands

/-! The value of tokens in one pass: a sum and one open term are all that has to be kept. The steps
are compared one by one and no law of arithmetic is used, so that rounding, infinities, NaN and the
signs of zeros come out the same. -/
namespace FormDesk.Expression.Tokens

theorem sum_append_singleton (ts : List Binary64) (t : Binary64) :
    sum (ts ++ [t]) = sum ts + t := by
  rw [sum, List.foldl_append]
  rfl

/-- The sum of the terms that are finished, and the term that is still open. -/
structure Accumulator where
  sum : Binary64
  term : Binary64

namespace Accumulator

def start (x : Binary64) : Accumulator := ⟨.zero true, x⟩

def step (a : Accumulator) : Operator × Binary64 → Accumulator
  | (.times, y) => ⟨a.sum, a.term * y⟩
  | (.plus, y) => ⟨a.sum + a.term, y⟩

def total (a : Accumulator) : Binary64 := a.sum + a.term

/-- The open term is the last of the terms, and those before it are in the sum. -/
theorem total_foldl_step (steps : List (Operator × Binary64)) (ts : List Binary64) (t : Binary64) :
    (steps.foldl step ⟨Tokens.sum ts, t⟩).total =
      Tokens.sum (ts ++ (steps.foldl pushTerm [t]).reverse) := by
  induction steps generalizing ts t with
  | nil => exact (sum_append_singleton ts t).symm
  | cons s steps ih =>
    obtain ⟨o, y⟩ := s
    cases o with
    | times => exact ih ts (t * y)
    | plus =>
      calc (steps.foldl step ⟨Tokens.sum ts + t, y⟩).total
          = Tokens.sum ((ts ++ [t]) ++ (steps.foldl pushTerm [y]).reverse) := by
            rw [← sum_append_singleton, ih]
        _ = Tokens.sum (ts ++ (steps.foldl pushTerm [y] ++ [t]).reverse) := by simp
        _ = Tokens.sum (ts ++ (steps.foldl pushTerm (y :: [t])).reverse) := by
            rw [foldl_pushTerm_append steps y [t]]

end Accumulator

/-- A loop over the tokens by their positions, from the first operand. It breaks off when a position
is out of range. -/
def walk? {σ : Type} (t : Tokens) (start : Binary64 → σ) (step : σ → Operator × Binary64 → σ) :
    Option σ := do
  let x ← t.operands[0]?
  (List.range t.operators.length).foldlM (fun state i => do
    let o ← t.operators[i]?
    let y ← t.operands[i + 1]?
    return step state (o, y)) (start x)

theorem walk?_ofSteps {σ : Type} (start : Binary64 → σ) (step : σ → Operator × Binary64 → σ)
    (x : Binary64) (steps : List (Operator × Binary64)) :
    (ofSteps x steps).walk? start step = some (steps.foldl step (start x)) := by
  -- After `n` rounds the first `n` steps are taken.
  have hrounds : ∀ n ≤ steps.length, (List.range n).foldlM (fun state i => do
      let o ← (ofSteps x steps).operators[i]?
      let y ← (ofSteps x steps).operands[i + 1]?
      return step state (o, y)) (start x) = some ((steps.take n).foldl step (start x)) := by
    intro n hn
    induction n with
    | zero => rfl
    | succ n ih =>
      have hlt : n < steps.length := hn
      rw [List.range_succ, List.foldlM_append, ih (Nat.le_of_lt hlt),
        List.take_succ_eq_append_getElem hlt, List.foldl_append]
      simp [ofSteps, hlt]
  have hall := hrounds steps.length le_rfl
  rw [List.take_length] at hall
  simpa [walk?, ofSteps] using hall

theorem exists_eq_ofSteps {t : Tokens} (h : t.operands.length = t.operators.length + 1) :
    ∃ x steps, t = ofSteps x steps := by
  obtain ⟨operands, operators⟩ := t
  cases operands with
  | nil => simp at h
  | cons x xs =>
    have hlen : xs.length = operators.length := by simpa using h
    refine ⟨x, operators.zip xs, ?_⟩
    rw [ofSteps, List.map_snd_zip hlen.le, List.map_fst_zip hlen.ge]

/-- The operators that the groups leave: `*` inside a group, `+` between two of them. -/
def between (cut : List (List Binary64)) : List Operator :=
  [Operator.plus].intercalate (cut.map fun g => List.replicate (g.length - 1) .times)

theorem between_times (x y : Binary64) (g : List Binary64) (gs : List (List Binary64)) :
    between ((x :: y :: g) :: gs) = .times :: between ((y :: g) :: gs) := by
  have hreplicate : List.replicate ((x :: y :: g).length - 1) Operator.times =
      .times :: List.replicate ((y :: g).length - 1) .times := rfl
  cases gs with
  | nil => simp only [between, List.map_cons, List.map_nil, List.intercalate_singleton, hreplicate]
  | cons h gs =>
    simp only [between, List.map_cons, List.intercalate_cons_cons, hreplicate, List.cons_append]

theorem between_plus (x : Binary64) (h : List Binary64) (gs : List (List Binary64)) :
    between ([x] :: h :: gs) = .plus :: between (h :: gs) := by
  simp only [between, List.map_cons, List.intercalate_cons_cons]
  rfl

/-- The groups that come of cutting the operands wherever a `+` stands between them. -/
structure CutsAtPlus (t : Tokens) (cut : List (List Binary64)) : Prop where
  ne_nil : ∀ g ∈ cut, g ≠ []
  operands_eq : t.operands = cut.flatten
  operators_eq : t.operators = between cut

/-- A first operand starts the first group. -/
theorem CutsAtPlus.exists_cons {x : Binary64} {steps : List (Operator × Binary64)}
    {cut : List (List Binary64)} (h : (ofSteps x steps).CutsAtPlus cut) :
    ∃ g gs, cut = (x :: g) :: gs := by
  have hoperands := h.operands_eq
  cases cut with
  | nil => cases hoperands
  | cons g gs =>
    obtain ⟨z, g, rfl⟩ := List.exists_cons_of_ne_nil (h.ne_nil g List.mem_cons_self)
    obtain ⟨rfl, -⟩ := List.cons.inj hoperands
    exact ⟨g, gs, rfl⟩

theorem cutsAtPlus_nil_iff {x : Binary64} {cut : List (List Binary64)} :
    (ofSteps x []).CutsAtPlus cut ↔ cut = [[x]] := by
  constructor
  · intro h
    obtain ⟨g, gs, rfl⟩ := h.exists_cons
    have hrest : [] = g ++ gs.flatten := (List.cons.inj h.operands_eq).2
    obtain ⟨rfl, hgs⟩ := List.append_eq_nil_iff.mp hrest.symm
    cases gs with
    | nil => rfl
    | cons g gs =>
      have hg : g = [] := List.flatten_eq_nil_iff.mp hgs g List.mem_cons_self
      exact absurd hg (h.ne_nil g (by simp))
  · intro h
    subst h
    exact ⟨by simp, rfl, rfl⟩

theorem cutsAtPlus_times_iff {x y : Binary64} {steps : List (Operator × Binary64)}
    {cut : List (List Binary64)} : (ofSteps x ((.times, y) :: steps)).CutsAtPlus cut ↔
      ∃ g gs, cut = (x :: g) :: gs ∧ (ofSteps y steps).CutsAtPlus (g :: gs) := by
  constructor
  · intro h
    obtain ⟨g, gs, rfl⟩ := h.exists_cons
    have hoperators := h.operators_eq
    refine ⟨g, gs, rfl, ?_⟩
    cases g with
    | nil =>
      cases gs with
      | nil => cases hoperators
      | cons g gs =>
        rw [between_plus] at hoperators
        cases hoperators
    | cons z g =>
      rw [between_times] at hoperators
      have hrest := (List.forall_mem_cons.mp h.ne_nil).2
      exact ⟨List.forall_mem_cons.mpr ⟨List.cons_ne_nil z g, hrest⟩,
        (List.cons.inj h.operands_eq).2, (List.cons.inj hoperators).2⟩
  · intro h
    obtain ⟨g, gs, rfl, h⟩ := h
    obtain ⟨g, gs, hcut⟩ := h.exists_cons
    obtain ⟨rfl, rfl⟩ := List.cons.inj hcut
    have hrest := (List.forall_mem_cons.mp h.ne_nil).2
    refine ⟨List.forall_mem_cons.mpr ⟨List.cons_ne_nil x _, hrest⟩,
      congrArg (x :: ·) h.operands_eq, ?_⟩
    rw [between_times, ← h.operators_eq]
    rfl

theorem cutsAtPlus_plus_iff {x y : Binary64} {steps : List (Operator × Binary64)}
    {cut : List (List Binary64)} : (ofSteps x ((.plus, y) :: steps)).CutsAtPlus cut ↔
      ∃ gs, cut = [x] :: gs ∧ (ofSteps y steps).CutsAtPlus gs := by
  constructor
  · intro h
    obtain ⟨g, gs, rfl⟩ := h.exists_cons
    have hoperators := h.operators_eq
    cases g with
    | nil =>
      cases gs with
      | nil => cases hoperators
      | cons g gs =>
        rw [between_plus] at hoperators
        exact ⟨g :: gs, rfl, (List.forall_mem_cons.mp h.ne_nil).2,
          (List.cons.inj h.operands_eq).2, (List.cons.inj hoperators).2⟩
    | cons z g =>
      rw [between_times] at hoperators
      cases hoperators
  · intro h
    obtain ⟨gs, rfl, h⟩ := h
    obtain ⟨g, gs, rfl⟩ := h.exists_cons
    refine ⟨List.forall_mem_cons.mpr ⟨List.cons_ne_nil x _, h.ne_nil⟩,
      congrArg (x :: ·) h.operands_eq, ?_⟩
    rw [between_plus, ← h.operators_eq]
    rfl

/-- There is one way to cut the operands, and it gives the factors of the terms. -/
theorem cutsAtPlus_iff {x : Binary64} {steps : List (Operator × Binary64)}
    {cut : List (List Binary64)} :
    (ofSteps x steps).CutsAtPlus cut ↔ cut = groups x steps := by
  induction steps generalizing x cut with
  | nil => exact cutsAtPlus_nil_iff
  | cons s steps ih =>
    obtain ⟨o, y⟩ := s
    cases o with
    | times =>
      obtain ⟨g, gs, hgroups⟩ := (ih.mpr rfl : (ofSteps y steps).CutsAtPlus _).exists_cons
      rw [cutsAtPlus_times_iff, groups, hgroups, List.modifyHead_cons]
      simp only [ih, hgroups, List.cons.injEq]
      constructor
      · intro h
        obtain ⟨g', gs', rfl, rfl, rfl⟩ := h
        rfl
      · intro h
        exact ⟨_, _, h, rfl, rfl⟩
    | plus =>
      rw [cutsAtPlus_plus_iff, groups]
      simp only [ih, exists_eq_right]

/-- The value of tokens, and when there is none. The counts have to fit, and a mismatch tells them
both. With fitting counts no position is out of range, and the value is the sum of the collected
terms, what one pass with a sum and an open term leaves, and the sum of the products of the groups
between the `+`. -/
theorem value_in_one_pass (t : Tokens) :
    (∀ f, t.value = .error f ↔ f = .countMismatch t.operands.length t.operators.length ∧
      t.operands.length ≠ t.operators.length + 1) ∧
    (t.operands.length = t.operators.length + 1 ↔ ∃ terms last cut products,
      t.walk? (fun x => [x]) pushTerm = some terms ∧ t.value = .ok (sum terms.reverse) ∧
      t.walk? Accumulator.start Accumulator.step = some last ∧ t.value = .ok last.total ∧
      (∀ c, t.CutsAtPlus c ↔ c = cut) ∧ cut.mapM product? = some products ∧
        t.value = .ok (sum products)) := by
  refine ⟨fun f => ?_, fun h => ?_, fun h => ?_⟩
  · by_cases h : t.operands.length = t.operators.length + 1
    · obtain ⟨v, hv⟩ := exists_value_of_length h
      simp [hv, h]
    · rw [value_eq_countMismatch h, and_iff_left h, Except.error.injEq, eq_comm]
  · obtain ⟨x, steps, rfl⟩ := exists_eq_ofSteps h
    have htotal : (steps.foldl Accumulator.step (.start x)).total =
        sum (steps.foldl pushTerm [x]).reverse := Accumulator.total_foldl_step steps [] x
    exact ⟨_, _, _, _, walk?_ofSteps _ _ x steps, value_ofSteps x steps,
      walk?_ofSteps _ _ x steps, by rw [htotal, value_ofSteps],
      fun _ => cutsAtPlus_iff, mapM_product?_groups x steps, value_ofSteps x steps⟩
  · obtain ⟨terms, -, -, -, -, hvalue, -⟩ := h
    exact length_of_value hvalue

end FormDesk.Expression.Tokens
