import FormDesk.Toml.Value

/-! Keys defined in tables, by dotted keys and under headers. Nothing is defined twice, and a table
is only added to in the way it was begun. -/
namespace FormDesk.Toml

abbrev Definition := List Key × Value

namespace Entries

/-- Defines a dotted key. On the way, tables that headers opened and tables in braces are closed;
the table that receives the last key is one that dotted keys made. -/
def define (es : Entries) : List Key → Value → Option Entries
  | [], _ => none
  | [key], v => if (es.lookup key).isSome then none else some (es.put key v)
  | key :: path, v => do
    let isLast := path.length == 1
    match es.lookup key with
    | none => return es.put key (.table .dotted (← define [] path v))
    | some (.table origin inner) =>
      guard (origin = .dotted ∨ (origin = .parent ∧ !isLast))
      return es.put key (.table origin (← define inner path v))
    | some (.tables earlier last) =>
      guard (!isLast)
      return es.put key (.tables earlier (← define last path v))
    | some _ => none

def defineAll (es : Entries) (ds : List Definition) : Option Entries :=
  ds.foldlM (fun es d => es.define d.1 d.2) es

/-- Renews the value at the end of a header's path; the tables on the way are made where they are
missing, and of an array of tables the last one is taken. -/
def alter (es : Entries) (f : Option Value → Option Value) : List Key → Option Entries
  | [] => none
  | [key] => return es.put key (← f (es.lookup key))
  | key :: path => do
    match es.lookup key with
    | none => return es.put key (.table .parent (← alter [] f path))
    | some (.table origin inner) =>
      guard (origin ≠ .braces)
      return es.put key (.table origin (← alter inner f path))
    | some (.tables earlier last) => return es.put key (.tables earlier (← alter last f path))
    | some _ => none

end Entries

/-- A header opens a table or adds one to an array of tables. -/
inductive Header where
  | table (path : List Key)
  | element (path : List Key)
  deriving DecidableEq, Repr

structure Section where
  header : Header
  definitions : List Definition

/-- The table that a header opens, with its definitions. Only a table that was named on the way to
others may be there already. -/
def openTable (ds : List Definition) : Option Value → Option Value
  | none => (Entries.defineAll [] ds).map (.table .header)
  | some (.table .parent es) => (Entries.defineAll es ds).map (.table .header)
  | some _ => none

/-- The array of tables to which a header adds one, with its definitions. -/
def addTable (ds : List Definition) : Option Value → Option Value
  | none => (Entries.defineAll [] ds).map (.tables [])
  | some (.tables earlier last) => (Entries.defineAll [] ds).map (.tables (earlier ++ [last]))
  | some _ => none

def Entries.addSection (es : Entries) (s : Section) : Option Entries :=
  match s.header with
  | .table path => es.alter (openTable s.definitions) path
  | .element path => es.alter (addTable s.definitions) path

end FormDesk.Toml
