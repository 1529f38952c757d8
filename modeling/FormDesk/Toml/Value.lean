import FormDesk.Binary64.Basic

/-! The values of a TOML document. -/
namespace FormDesk.Toml

abbrev Key := List Char

/-- How a table came to be, which decides what may still be added to it. -/
inductive Origin where
  /-- Written in braces. -/
  | braces
  /-- Opened by a header of its own. -/
  | header
  /-- Named on the way to the table of another header. -/
  | parent
  /-- Named inside a dotted key. -/
  | dotted
  deriving DecidableEq, Repr

/-- A value. An array of tables is told apart from an array in brackets: its last table is the one
that later headers add to. -/
inductive Value where
  | string (s : List Char)
  | integer (n : Int)
  | float (v : Binary64)
  /-- A number in outline, which has no value or one for which there is no room. -/
  | unreadable
  | boolean (b : Bool)
  | moment (text : List Char)
  | array (items : List Value)
  | table (origin : Origin) (entries : List (Key × Value))
  | tables (earlier : List (List (Key × Value))) (last : List (Key × Value))

abbrev Entries := List (Key × Value)

/-- Sets the value at a key, in its place or else at the end. -/
def Entries.put (es : Entries) (key : Key) (v : Value) : Entries :=
  match es with
  | [] => [(key, v)]
  | (k, w) :: es => if k = key then (k, v) :: es else (k, w) :: Entries.put es key v

theorem Entries.lookup_put (es : Entries) (key : Key) (v : Value) (k : Key) :
    (es.put key v).lookup k = if k = key then some v else es.lookup k := by
  induction es with
  | nil =>
    by_cases h : k = key
    · simp [put, h]
    · simp [put, List.lookup_cons, h, beq_false_of_ne h]
  | cons e es ih =>
    obtain ⟨k', w⟩ := e
    by_cases hk : k' = key
    · by_cases h : k = key
      · simp [put, hk, h]
      · simp [put, List.lookup_cons, hk, h, beq_false_of_ne h]
    · by_cases h : k = k'
      · simp [put, hk, h]
      · simp [put, List.lookup_cons, hk, beq_false_of_ne h, ih]

mutual

def Value.isReadable : Value → Bool
  | .unreadable => false
  | .array items => itemsReadable items
  | .table _ es => entriesReadable es
  | .tables earlier last => tablesReadable earlier && entriesReadable last
  | _ => true

def itemsReadable : List Value → Bool
  | [] => true
  | v :: vs => v.isReadable && itemsReadable vs

def entriesReadable : List (Key × Value) → Bool
  | [] => true
  | (_, v) :: es => v.isReadable && entriesReadable es

def tablesReadable : List (List (Key × Value)) → Bool
  | [] => true
  | es :: ts => entriesReadable es && tablesReadable ts

end

/-- The value of a field: by key in a table, by position in an array. -/
def Value.field? (v : Value) (position : Nat) (key : Key) : Option Value :=
  match v with
  | .table _ es => es.lookup key
  | .array items => items[position]?
  | .tables earlier last => ((earlier ++ [last]).map (Value.table .header))[position]?
  | _ => none

end FormDesk.Toml
