import FormDesk.Toml.Table
import Mathlib.Data.List.Basic
import Mathlib.Data.Option.Basic
import Mathlib.Tactic.SplitIfs

/-! What stands at a path of keys. A table holds what it held before and what the definitions added
to it place there; neither their order nor the way in which a path is spelled leaves a trace. -/
namespace FormDesk.Toml

/-- What stands at a path: something with entries of its own, or another value. -/
inductive Node where
  | inner
  | leaf (v : Value)

namespace Value

def node : Value → Node
  | .table _ _ => .inner
  | .tables _ _ => .inner
  | v => .leaf v

/-- The entries of a table, or of the last one of an array of tables. -/
def entries : Value → Entries
  | .table _ es => es
  | .tables _ last => last
  | _ => []

/-- What stands in a value behind the keys of a path. -/
def node? (v : Value) : List Key → Option Node
  | [] => some v.node
  | key :: path => (v.entries.lookup key).bind (·.node? path)

end Value

def Entries.node? (es : Entries) (path : List Key) : Option Node :=
  (Value.table .header es).node? path

/-- Along the keys there is something with entries; behind the last one it is as a rule has it. -/
def Along (rule : List Key → Node → Prop) : List Key → List Key → Node → Prop
  | [], path, n => rule path n
  | _ :: _, [], n => n = .inner
  | key :: keys, k :: path, n => k = key ∧ Along rule keys path n

/-- What a definition places at a path. -/
def Definition.Places (d : Definition) (path : List Key) (n : Node) : Prop :=
  Along (fun path n => d.2.node? path = some n) d.1 path n

section
variable {es es' : Entries} {key : Key} {keys path : List Key} {v : Value} {n : Node}

theorem Value.node?_table (origin : Origin) (es : Entries) (path : List Key) :
    (Value.table origin es).node? path = es.node? path := by
  cases path <;> rfl

theorem Value.node?_tables (earlier : List Entries) (last : Entries) (path : List Key) :
    (Value.tables earlier last).node? path = last.node? path := by
  cases path <;> rfl

theorem Entries.node?_nil (es : Entries) : es.node? [] = some .inner := rfl

theorem Entries.node?_empty_iff : Entries.node? [] path = some n ↔ path = [] ∧ n = .inner := by
  cases path with
  | nil => simp [Entries.node?_nil, eq_comm]
  | cons key path => simp [Entries.node?, Value.node?, Value.entries]

theorem Entries.node?_cons (es : Entries) (key : Key) (path : List Key) :
    es.node? (key :: path) = (es.lookup key).bind (·.node? path) := rfl

theorem along_cons_nil {rule : List Key → Node → Prop} :
    Along rule (key :: keys) [] n ↔ n = .inner := Iff.rfl

theorem along_cons_cons {rule : List Key → Node → Prop} {k : Key} :
    Along rule (key :: keys) (k :: path) n ↔ k = key ∧ Along rule keys path n := Iff.rfl

/-- What is renewed at a key keeps what stood behind the key and gains what the rule has. -/
theorem Entries.node?_put_iff {rule : List Key → Node → Prop} {w : Value}
    (hw : ∀ rest, path = key :: rest → (w.node? rest = some n ↔
      (∃ u, es.lookup key = some u ∧ u.node? rest = some n) ∨ Along rule keys rest n)) :
    (es.put key w).node? path = some n ↔ es.node? path = some n ∨
      Along rule (key :: keys) path n := by
  cases path with
  | nil => simp [Entries.node?_nil, along_cons_nil, eq_comm]
  | cons k rest =>
    rw [Entries.node?_cons, Entries.node?_cons, Entries.lookup_put, along_cons_cons]
    by_cases hk : k = key
    · subst hk
      simp only [if_true, Option.bind_some, true_and, hw rest rfl, Option.bind_eq_some_iff]
    · rw [if_neg hk]
      simp only [hk, false_and, or_false]

end

def Value.isTables : Value → Bool
  | .tables _ _ => true
  | _ => false

/-- The entries behind a key, if there are any. -/
def Entries.under (es : Entries) (key : Key) : Entries :=
  match es.lookup key with
  | none => []
  | some u => u.entries

/-- A value on the way to others, after something was added to its entries. It is made if nothing
was there, and of an array of tables only the last one is renewed. -/
inductive Renewed (inner : Entries) : Option Value → Value → Prop where
  | missing (origin : Origin) : Renewed inner none (.table origin inner)
  | table (origin : Origin) (old : Entries) :
    Renewed inner (some (.table origin old)) (.table origin inner)
  | tables (earlier : List Entries) (old : Entries) :
    Renewed inner (some (.tables earlier old)) (.tables earlier inner)

namespace Renewed
variable {inner : Entries} {old : Option Value} {w : Value}

theorem node_eq (h : Renewed inner old w) : w.node = .inner := by
  cases h <;> rfl

theorem entries_eq (h : Renewed inner old w) : w.entries = inner := by
  cases h <;> rfl

theorem node_eq_of_mem (h : Renewed inner old w) : ∀ u ∈ old, u.node = .inner := by
  intro u hu
  cases h <;> cases hu <;> rfl

theorem isTables_eq_of_mem (h : Renewed inner old w) : ∀ u ∈ old, u.isTables = w.isTables := by
  intro u hu
  cases h <;> cases hu <;> rfl

end Renewed

section
variable {es es' : Entries} {key : Key} {keys path : List Key} {v : Value} {n : Node}
  {f : Option Value → Option Value}

/-- All that a definition does: it sets a key that was not there, or it renews one on the way. -/
theorem Entries.define_cons (h : es.define (key :: keys) v = some es') :
    ∃ w, es' = es.put key w ∧ ((keys = [] ∧ es.lookup key = none ∧ w = v) ∨
      ∃ inner, (es.under key).define keys v = some inner ∧ Renewed inner (es.lookup key) w) := by
  cases keys with
  | nil =>
    rw [Entries.define] at h
    split_ifs at h with hkey
    cases h
    exact ⟨v, rfl, Or.inl ⟨rfl, Option.not_isSome_iff_eq_none.mp hkey, rfl⟩⟩
  | cons next keys =>
    unfold Entries.define at h
    unfold Entries.under
    cases hkey : es.lookup key with
    | none =>
      simp only [hkey, Option.bind_eq_bind, Option.bind_eq_some_iff] at h
      obtain ⟨inner, hinner, h⟩ := h
      cases h
      exact ⟨_, rfl, Or.inr ⟨inner, hinner, .missing _⟩⟩
    | some u =>
      simp only [hkey] at h
      cases u with
      | table origin old =>
        simp only [Option.bind_eq_bind, Option.bind_eq_some_iff] at h
        obtain ⟨_, -, inner, hinner, h⟩ := h
        cases h
        exact ⟨_, rfl, Or.inr ⟨inner, hinner, .table _ _⟩⟩
      | tables earlier last =>
        simp only [Option.bind_eq_bind, Option.bind_eq_some_iff] at h
        obtain ⟨_, -, inner, hinner, h⟩ := h
        cases h
        exact ⟨_, rfl, Or.inr ⟨inner, hinner, .tables _ _⟩⟩
      | _ => cases h

/-- All that a header does: it renews the value at the end of its path, or one on the way. -/
theorem Entries.alter_cons (h : es.alter f (key :: keys) = some es') :
    ∃ w, es' = es.put key w ∧ ((keys = [] ∧ f (es.lookup key) = some w) ∨
      ∃ inner, (es.under key).alter f keys = some inner ∧ Renewed inner (es.lookup key) w) := by
  cases keys with
  | nil =>
    rw [Entries.alter] at h
    obtain ⟨w, hw, h⟩ := Option.bind_eq_some_iff.mp h
    cases h
    exact ⟨w, rfl, Or.inl ⟨rfl, hw⟩⟩
  | cons next keys =>
    unfold Entries.alter at h
    unfold Entries.under
    cases hkey : es.lookup key with
    | none =>
      simp only [hkey, Option.bind_eq_bind, Option.bind_eq_some_iff] at h
      obtain ⟨inner, hinner, h⟩ := h
      cases h
      exact ⟨_, rfl, Or.inr ⟨inner, hinner, .missing _⟩⟩
    | some u =>
      simp only [hkey] at h
      cases u with
      | table origin old =>
        simp only [Option.bind_eq_bind, Option.bind_eq_some_iff] at h
        obtain ⟨_, -, inner, hinner, h⟩ := h
        cases h
        exact ⟨_, rfl, Or.inr ⟨inner, hinner, .table _ _⟩⟩
      | tables earlier last =>
        simp only [Option.bind_eq_bind, Option.bind_eq_some_iff] at h
        obtain ⟨inner, hinner, h⟩ := h
        cases h
        exact ⟨_, rfl, Or.inr ⟨inner, hinner, .tables _ _⟩⟩
      | _ => cases h

theorem Value.node?_of_node_eq {w : Value} (h : w.node = .inner) (path : List Key) :
    w.node? path = w.entries.node? path := by
  cases path with
  | nil => exact congrArg some h
  | cons key path => rfl

/-- A renewed value holds what is behind its key before and after. -/
theorem Renewed.node?_iff {rule : List Key → Node → Prop} {inner : Entries} {w : Value}
    {rest : List Key} (hw : Renewed inner (es.lookup key) w) (hkeys : keys ≠ [])
    (hinner : inner.node? rest = some n ↔
      (es.under key).node? rest = some n ∨ Along rule keys rest n) :
    w.node? rest = some n ↔
      (∃ u, es.lookup key = some u ∧ u.node? rest = some n) ∨ Along rule keys rest n := by
  rw [Value.node?_of_node_eq hw.node_eq, hw.entries_eq, hinner, Entries.under]
  cases hkey : es.lookup key with
  | none =>
    obtain ⟨next, keys, rfl⟩ := List.exists_cons_of_ne_nil hkeys
    have hnil : Entries.node? [] rest = some n → Along rule (next :: keys) rest n := by
      intro hrest
      obtain ⟨rfl, rfl⟩ := Entries.node?_empty_iff.mp hrest
      rfl
    simpa using hnil
  | some u =>
    have hu : u.node? rest = u.entries.node? rest :=
      Value.node?_of_node_eq (hw.node_eq_of_mem u hkey) rest
    simp [hu]

/-- A definition adds to a table what it places, and takes nothing away. -/
theorem Entries.node?_define_iff (h : es.define keys v = some es') :
    es'.node? path = some n ↔ es.node? path = some n ∨ Definition.Places (keys, v) path n := by
  unfold Definition.Places
  induction keys generalizing es es' path with
  | nil => cases h
  | cons key keys ih =>
    obtain ⟨w, rfl, ⟨rfl, hkey, rfl⟩ | ⟨inner, hinner, hw⟩⟩ := Entries.define_cons h
    · refine Entries.node?_put_iff fun rest _ => ?_
      rw [hkey]
      exact (or_iff_right nofun).symm
    · have hkeys : keys ≠ [] := by
        rintro rfl
        cases hinner
      exact Entries.node?_put_iff fun rest _ => hw.node?_iff hkeys (ih hinner)

theorem Entries.node?_defineAll_iff {ds : List Definition} (h : es.defineAll ds = some es') :
    es'.node? path = some n ↔ es.node? path = some n ∨ ∃ d ∈ ds, d.Places path n := by
  induction ds generalizing es with
  | nil =>
    cases h
    simp
  | cons d ds ih =>
    obtain ⟨next, hnext, h⟩ := Option.bind_eq_some_iff.mp h
    rw [ih h, Entries.node?_define_iff hnext, List.exists_mem_cons_iff, or_assoc]

/-- A header renews what stands behind its path, and marks the way there. -/
theorem Entries.node?_alter_iff {rule : List Key → Node → Prop} (h : es.alter f keys = some es')
    (hf : ∀ rest, path = keys ++ rest → ∀ old w, f old = some w → (w.node? rest = some n ↔
      (∃ u, old = some u ∧ u.node? rest = some n) ∨ rule rest n)) :
    es'.node? path = some n ↔ es.node? path = some n ∨ Along rule keys path n := by
  induction keys generalizing es es' path with
  | nil => cases h
  | cons key keys ih =>
    obtain ⟨w, rfl, ⟨rfl, hw⟩ | ⟨inner, hinner, hw⟩⟩ := Entries.alter_cons h
    · exact Entries.node?_put_iff fun rest hrest => hf rest hrest _ w hw
    · have hkeys : keys ≠ [] := by
        rintro rfl
        cases hinner
      refine Entries.node?_put_iff fun rest hrest => hw.node?_iff hkeys (ih hinner ?_)
      rintro rest' rfl
      exact hf rest' hrest

end

end FormDesk.Toml
