import FormDesk.Proofs.Expression.Terms

/-! Reading a text in one pass, character by character, with the literal in progress kept aside. The
tokens are those of the text cut at its operators. -/
namespace FormDesk.Expression

/-- What is read of a text so far. The literal becomes an operand at the next operator. -/
structure Scan where
  operands : List Binary64
  operators : List Operator
  literal : List Char

namespace Scan

def start : Scan := ⟨[], [], []⟩

/-- Makes an operand of the literal. An empty literal is none. -/
def flush (r : Scan) : Except Fault Scan :=
  if r.literal.isEmpty then .ok r
  else match Numeral.ofText? r.literal with
    | some n => .ok ⟨r.operands ++ [n.toBinary64], r.operators, []⟩
    | none => .error (.malformedNumber r.literal .notANumeral)

def push (o : Operator) (r : Scan) : Scan := { r with operators := r.operators ++ [o] }

/-- Digits and points extend the literal, operators end it, and all else is passed over. -/
def step (r : Scan) (c : Char) : Except Fault Scan :=
  if isLiteral c then .ok { r with literal := r.literal ++ [c] }
  else match Operator.ofChar? c with
    | some o => r.flush.map (push o)
    | none => .ok r

def tokens (s : List Char) : Except Fault Tokens :=
  ((s.foldlM step start).bind flush).map fun r => ⟨r.operands, r.operators⟩

/-- The tokens of a further text behind those that are read. -/
def append (r : Scan) (t : Tokens) : Scan :=
  ⟨r.operands ++ t.operands, r.operators ++ t.operators, []⟩

/-- What a state comes to when the rest of the text is cut at its operators: the literal in progress
is as good as unread. -/
def complete (r : Scan) (s : List Char) : Except Fault Scan :=
  (Tokens.ofText (r.literal ++ s)).map r.append

def HoldsLiteral (r : Scan) : Prop := ∀ c ∈ r.literal, isLiteral c = true

theorem HoldsLiteral.operatorFree {r : Scan} (hr : r.HoldsLiteral) : OperatorFree r.literal :=
  fun c hc => isOperator_of_isLiteral (hr c hc)

theorem flush_eq {r : Scan} (hr : r.HoldsLiteral) :
    r.flush = (readOperand r.literal).map fun x? => r.append ⟨x?.toList, []⟩ := by
  have hfilter : r.literal.filter isLiteral = r.literal := List.filter_eq_self.mpr hr
  unfold flush readOperand
  dsimp only
  rw [hfilter]
  split_ifs with hempty
  · obtain ⟨operands, operators, literal⟩ := r
    obtain rfl : literal = [] := List.isEmpty_iff.mp hempty
    simp [append, Except.map]
  · cases Numeral.ofText? r.literal <;> simp [append, Except.map]

theorem flush_eq_complete {r : Scan} (hr : r.HoldsLiteral) : r.flush = r.complete [] := by
  rw [flush_eq hr, complete, List.append_nil, Tokens.ofText_of_operatorFree hr.operatorFree]
  cases readOperand r.literal <;> rfl

theorem literal_of_flush {r q : Scan} (hr : r.HoldsLiteral) (h : r.flush = .ok q) :
    q.literal = [] := by
  rw [flush_eq hr] at h
  cases hread : readOperand r.literal with
  | error f =>
    rw [hread] at h
    cases h
  | ok x? =>
    rw [hread] at h
    cases h
    rfl

/-- A step keeps to literals. -/
theorem HoldsLiteral.step {r q : Scan} (hr : r.HoldsLiteral) {c : Char} (h : r.step c = .ok q) :
    q.HoldsLiteral := by
  unfold Scan.step at h
  split_ifs at h with hc
  · cases h
    intro d hd
    rcases List.mem_append.mp hd with hd | hd
    · exact hr d hd
    · rwa [List.mem_singleton.mp hd]
  · cases ho : Operator.ofChar? c with
    | none =>
      rw [ho] at h
      cases h
      exact hr
    | some o =>
      rw [ho] at h
      cases hflush : r.flush with
      | error f =>
        rw [hflush] at h
        cases h
      | ok r' =>
        rw [hflush] at h
        cases h
        intro d hd
        rw [push, literal_of_flush hr hflush] at hd
        exact absurd hd List.not_mem_nil

/-- A step does not change what the state comes to. -/
theorem step_bind_complete {r : Scan} (hr : r.HoldsLiteral) (c : Char) (s : List Char) :
    (r.step c).bind (·.complete s) = r.complete (c :: s) := by
  unfold Scan.step
  split_ifs with hc
  · change (Tokens.ofText ((r.literal ++ [c]) ++ s)).map _ = _
    rw [List.append_assoc]
    rfl
  · cases ho : Operator.ofChar? c with
    | none =>
      have hop : isOperator c = false := by rw [← isSome_ofChar?, ho]; rfl
      have hskip : clean (r.literal ++ c :: s) = clean (r.literal ++ s) := by
        rw [clean_append, clean_append, clean, clean, clean, List.filter_cons_of_neg]
        simp [hc, hop]
      change r.complete s = r.complete (c :: s)
      rw [complete, complete, ← Tokens.ofText_clean, ← hskip, Tokens.ofText_clean]
    | some o =>
      obtain rfl := Operator.ofChar?_eq_some_iff.mp ho
      rw [complete, Tokens.ofText_piece_cons hr.operatorFree, flush_eq hr]
      cases readOperand r.literal with
      | error f => rfl
      | ok x? =>
        change (Tokens.ofText ([] ++ s)).map _ = ((Tokens.ofText s).map _).map _
        rw [List.nil_append]
        cases Tokens.ofText s with
        | error f => rfl
        | ok t => simp [Except.map, append, push]

theorem foldlM_step_bind_flush (s : List Char) {r : Scan} (hr : r.HoldsLiteral) :
    (s.foldlM step r).bind flush = r.complete s := by
  induction s generalizing r with
  | nil => exact flush_eq_complete hr
  | cons c s ih =>
    rw [List.foldlM_cons, ← step_bind_complete hr]
    cases hstep : r.step c with
    | error f => rfl
    | ok q => exact ih (hr.step hstep)

/-- Reading in one pass and cutting at the operators give the same tokens, or the same fault. -/
theorem tokens_eq_ofText (s : List Char) : tokens s = Tokens.ofText s := by
  have hstart : start.HoldsLiteral := fun c hc => absurd hc List.not_mem_nil
  rw [tokens, foldlM_step_bind_flush s hstart, complete]
  cases h : Tokens.ofText s <;> simp [start, append, h, Except.map]

end Scan

end FormDesk.Expression
