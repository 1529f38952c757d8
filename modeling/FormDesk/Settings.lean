import FormDesk.Toml.Document
import FormDesk.ValueText

/-! The settings of the desk, as TOML text and in files. -/
namespace FormDesk

attribute [local instance (high)] instPowNat

structure ClipboardSettings where
  /-- Every result is copied. -/
  copyResults : Bool := false
  deriving DecidableEq, Repr

structure Settings where
  display : DisplaySettings := {}
  clipboard : ClipboardSettings := {}
  deriving DecidableEq, Repr

def Toml.Value.fieldOr {α : Type} (v : Value) (position : Nat) (key : Key) (default : α)
    (read? : Value → Option α) : Option α :=
  match v.field? position key with
  | none => some default
  | some field => read? field

/-- Whether fields can be read from a value. A table has them by key, and is passed over under
other keys, where all numbers have to be readable; an array has them by position, and whatever
follows is not looked at; a date has none of the fields. -/
def Toml.Value.hasFields (keys : List Key) : Value → Bool
  | .table _ es => es.all fun (key, v) => keys.contains key || v.isReadable
  | .tables .. => true
  | .array _ => true
  | .moment _ => true
  | _ => false

def Toml.Value.boolean? : Value → Option Bool
  | .boolean b => some b
  | _ => none

/-- An integer of 64 bits without sign. -/
def Toml.Value.word? : Value → Option UInt64
  | .integer n => if 0 ≤ n ∧ n < 2 ^ (64 : Nat) then some (UInt64.ofNat n.toNat) else none
  | _ => none

def DisplaySettings.ofValue? (v : Toml.Value) : Option DisplaySettings := do
  guard (v.hasFields ["thousands_separators".toList, "precision".toList])
  let default : DisplaySettings := {}
  let thousandsSeparators ←
    v.fieldOr 0 "thousands_separators".toList default.thousandsSeparators (·.boolean?)
  let precision ← v.fieldOr 1 "precision".toList default.precision (·.word?)
  return { thousandsSeparators, precision }

def ClipboardSettings.ofValue? (v : Toml.Value) : Option ClipboardSettings := do
  guard (v.hasFields ["copy_results".toList])
  let default : ClipboardSettings := {}
  let copyResults ← v.fieldOr 0 "copy_results".toList default.copyResults (·.boolean?)
  return { copyResults }

namespace Settings

/-- The settings of a document. Missing fields have their defaults. -/
def ofDocument? (es : Toml.Entries) : Option Settings := do
  let root : Toml.Value := .table .header es
  guard (root.hasFields ["display".toList, "clipboard".toList])
  let display ← root.fieldOr 0 "display".toList {} DisplaySettings.ofValue?
  let clipboard ← root.fieldOr 1 "clipboard".toList {} ClipboardSettings.ofValue?
  return { display, clipboard }

def ofToml? (s : List Char) : Option Settings := do
  ofDocument? (← Toml.Entries.ofText? s)

def booleanText (b : Bool) : List Char := if b then "true".toList else "false".toList

/-- The TOML text of settings, every field written out. -/
def toToml (s : Settings) : List Char :=
  "[display]\nthousands_separators = ".toList ++ booleanText s.display.thousandsSeparators ++
    "\nprecision = ".toList ++ Nat.toDigits 10 s.display.precision.toNat ++
    "\n\n[clipboard]\ncopy_results = ".toList ++ booleanText s.clipboard.copyResults ++ ['\n']

end Settings

/-- What is found at the path of a settings file. -/
inductive FileState where
  /-- Nothing, or nothing that can be reached. -/
  | absent
  /-- Something that cannot be read, such as a directory. -/
  | unreadable
  | file (bytes : List UInt8)
  deriving DecidableEq, Repr

inductive SettingsFault where
  | unreadable
  | malformed
  deriving DecidableEq, Repr

def SettingsFault.message (fault : SettingsFault) (path : List Char) : List Char :=
  match fault with
  | .unreadable => "Failed to read config from ".toList ++ path
  | .malformed => "Failed to parse config file ".toList ++ path

/-- The settings of a file: the defaults when there is none, and a fault when it cannot be read or
understood. -/
def Settings.load : FileState → Except SettingsFault Settings
  | .absent => .ok {}
  | .unreadable => .error .unreadable
  | .file bytes => match Text.ofUtf8? bytes with
    | none => .error .unreadable
    | some s => match ofToml? s with
      | none => .error .malformed
      | some settings => .ok settings

end FormDesk
