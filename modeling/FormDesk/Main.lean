import FormDesk.Program

/-! The program at the terminal: it finds the settings file, reads the input of a dialogue, and
writes what the exit holds. -/
namespace FormDesk.Main

/-- What is found at a path. A path that cannot be followed to its end leads to nothing, also when
it goes through a file or a directory that may not be searched. -/
def fileAt (path : String) : IO FileState := do
  if ← (System.mkFilePath [path]).pathExists then
    try
      return .file (← IO.FS.readBinFile path).toList
    catch _ => return .unreadable
  else return .absent

/-- The directory of settings files, as the environment tells. -/
def settingsDirectory : IO (Option String) := do
  match ← IO.getEnv "XDG_CONFIG_HOME" with
  | some dir => if dir.startsWith "/" then return some dir
  | none => pure ()
  return (← IO.getEnv "HOME").map (· ++ "/.config")

/-- The path of the settings file and what is found there. -/
def findSettings (config : Option (List Char)) : IO (List Char × FileState) := do
  match config with
  | some path => return (path, ← fileAt (String.ofList path))
  | none => match ← settingsDirectory with
    | some dir =>
      let path := dir ++ "/zcalc/config.toml"
      return (path.toList, ← fileAt path)
    | none => return ([], .absent)

partial def readAll (stream : IO.FS.Stream) (read : ByteArray) : IO ByteArray := do
  let bytes ← stream.read 65536
  if bytes.isEmpty then return read else readAll stream (read ++ bytes)

/-- The input of a command; only a dialogue has one. -/
def inputOf (i : CommandLine.Invocation) : IO (List UInt8) := do
  if i.command = .repl then return (← readAll (← IO.getStdin) .empty).toList else return []

def write (stream : IO.FS.Stream) (s : List Char) : IO Unit := do
  stream.write (String.ofList s).toUTF8
  stream.flush

def run (args : List String) : IO UInt32 := do
  let args := args.map String.toList
  let (found, input) ← match CommandLine.read args with
    | .ok i => do pure (← findSettings i.config, ← inputOf i)
    | .error _ => pure (([], .absent), [])
  let exit := runProgram (fun _ => found) args input
  write (← IO.getStdout) exit.output
  write (← IO.getStderr) exit.errors
  return exit.status.toUInt32

end FormDesk.Main

def main (args : List String) : IO UInt32 := FormDesk.Main.run args
