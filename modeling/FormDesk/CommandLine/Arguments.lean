import FormDesk.CommandLine.Basic

/-! The reading of arguments. Options are known at two levels, before and after the command;
`--config` and `--json` at both. The first problem from the left counts, but a value that stands
apart from its `--config` is only looked at when the next option or word follows, or at the end of
its level. -/
namespace FormDesk.CommandLine

/-- A `--config` that waits for its value, or has one that is not looked at yet. -/
inductive Pending where
  | settled
  | awaited
  | given (value : List Char)
  deriving DecidableEq, Repr

structure Level where
  config : Option (List Char) := none
  json : Bool := false
  copy : Bool := false
  words : List (List Char) := []
  pending : Pending := .settled
  deriving DecidableEq, Repr

/-- The place of an option: before the command, or behind one. -/
abbrev Place := Option CommandName

namespace Level

def setConfig (l : Level) (value : List Char) : Except Usage Level :=
  if l.config.isSome then .error .repeated
  else if value.isEmpty then .error .missingValue
  else .ok { l with config := some value }

def settle (l : Level) : Except Usage Level :=
  match l.pending with
  | .settled => .ok l
  | .awaited => .error .missingValue
  | .given value => setConfig { l with pending := .settled } value

def setJson (l : Level) : Except Usage Level := do
  let l ← l.settle
  if l.json then .error .repeated else .ok { l with json := true }

def setCopy (l : Level) : Except Usage Level := do
  let l ← l.settle
  if l.copy then .error .repeated else .ok { l with copy := true }

/-- Answers a request for information, unless a problem comes before it. -/
def inform (l : Level) (usage : Usage) : Except Usage Level := do
  let _ ← l.settle
  .error usage

def addWord (l : Level) (capacity : Option Nat) (word : List Char) : Except Usage Level :=
  if capacity.any (· ≤ l.words.length) then .error .unknownArgument
  else do
    let l ← l.settle
    return { l with words := l.words ++ [word] }

/-- Takes an option with a long name, and the value behind its `=`. -/
def addLong (l : Level) (place : Place) (name : List Char) (value : Option (List Char)) :
    Except Usage Level :=
  let flag (act : Except Usage Level) : Except Usage Level :=
    if value.isSome then .error .needlessValue else act
  if name = "config".toList then do
    let l ← l.settle
    match value with
    | some value => l.setConfig value
    | none => return { l with pending := .awaited }
  else if name = "json".toList then flag l.setJson
  else if name = "copy".toList ∧ place = some .eval then flag l.setCopy
  else if name = "help".toList then flag (l.inform .help)
  else if name = "version".toList ∧ place = none then flag (l.inform .version)
  else .error .unknownArgument

def addShort (l : Level) (place : Place) (name : Char) : Except Usage Level :=
  if name = 'c' ∧ place = some .eval then l.setCopy
  else if name = 'h' then l.inform .help
  else if name = 'V' ∧ place = none then l.inform .version
  else .error .unknownArgument

end Level

/-- The forms an argument can have. A hyphen alone is a word. -/
inductive Argument where
  | delimiter
  | long (name : List Char) (value : Option (List Char))
  | short (names : List Char)
  | word (text : List Char)
  deriving DecidableEq, Repr

def Argument.ofText (s : List Char) : Argument :=
  match s with
  | ['-', '-'] => .delimiter
  | '-' :: '-' :: s =>
    match s.dropWhile (· != '=') with
    | _ :: value => .long (s.takeWhile (· != '=')) (some value)
    | [] => .long s none
  | '-' :: c :: s => .short (c :: s)
  | s => .word s

namespace Level

/-- Takes an option; of several short names in one argument, one after the other. -/
def addOption (l : Level) (place : Place) : Argument → Except Usage Level
  | .long name value => l.addLong place name value
  | .short names => names.foldlM (fun l name => l.addShort place name) l
  | _ => .ok l

end Level

def readBehind (command : CommandName) (l : Level) : List (List Char) → Except Usage Level
  | [] => l.settle
  | s :: rest => match Argument.ofText s with
    | .delimiter => do
      let l ← rest.foldlM (fun l word => l.addWord command.capacity? word) l
      l.settle
    | .word text =>
      if l.pending = .awaited then readBehind command { l with pending := .given text } rest
      else do readBehind command (← l.addWord command.capacity? text) rest
    | option => do readBehind command (← l.addOption (some command) option) rest

/-- The command that is made of what stands behind its name. -/
def Command.ofLevel (command : CommandName) (l : Level) : Except Usage Command :=
  match command, l.words with
  | .eval, words => .ok (.eval words l.copy)
  | .validate, words => .ok (.validate words)
  | .clean, words => .ok (.clean words)
  | .name, surname :: firstName :: rest => .ok (.name ⟨surname, firstName, rest.head?⟩)
  | .name, _ => .error .missingArgument
  | .repl, _ => .ok .repl

def isCommand (s : List Char) : Bool := (CommandName.ofText? s).isSome || s == "help".toList

/-- The command `help` takes at most one word, the name of a command. -/
def helpOn (names : List (List Char)) : Usage :=
  if names.all isCommand && decide (names.length ≤ 1) then .help else .unknownCommand

def withoutCommand (l : Level) : Except Usage Invocation := do
  let l ← l.settle
  .error (if l.config.isNone && !l.json then .nothing else .missingCommand)

/-- The command line of both levels. What stands behind the command overrides what stands
before it. -/
def combine (command : CommandName) (before : Level) (rest : List (List Char)) :
    Except Usage Invocation := do
  let behind ← readBehind command {} rest
  let command ← Command.ofLevel command behind
  let before ← before.settle
  return ⟨behind.config.or before.config, before.json || behind.json, command⟩

/-- Reads the arguments before a command, and the rest with it. Nothing but a command can stand
here; behind a delimiter not even that. -/
def readBefore (l : Level) : List (List Char) → Except Usage Invocation
  | [] => withoutCommand l
  | s :: rest => match Argument.ofText s with
    | .delimiter => match rest with
      | [] => withoutCommand l
      | s :: _ => .error (if isCommand s then .unknownArgument else .unknownCommand)
    | .word text =>
      if l.pending = .awaited then readBefore { l with pending := .given text } rest
      else match CommandName.ofText? text with
        | some command => combine command l rest
        | none => .error (if text = "help".toList then helpOn rest else .unknownCommand)
    | option => do readBefore (← l.addOption none option) rest

def read (args : List (List Char)) : Except Usage Invocation := readBefore {} args

end FormDesk.CommandLine
