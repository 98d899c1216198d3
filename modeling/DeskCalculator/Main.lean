import DeskCalculator.CommandLine.Execution
import Std.Time.DateTime.Timestamp

/-!
The program: it looks up the files that a command line may touch, carries the command line out on
them, and writes back what has changed. Sessions are held line by line.
-/
namespace DeskCalculator.Program

open CommandLine History Storage

def usage : String :=
  "usage: calcdeck [-v] [--config PATH] [--history PATH] [COMMAND]\n" ++
  "  eval EXPR [--rad | --deg] [--inv] [--ans VALUE] [--no-save]\n" ++
  "  hex EXPR\n" ++
  "  split --total AMOUNT --people COUNT [--round-up] [--group COUNT:RATIO]...\n" ++
  "  history [--limit COUNT]\n" ++
  "  repl [--no-save]\n" ++
  "  help [COMMAND]"

def refusalText : Refusal → String
  | .unknownArgument => "unexpected argument"
  | .unknownCommand => "unknown command"
  | .missingArgument => "a required argument is missing"
  | .missingValue => "an option lacks its value"
  | .unexpectedValue => "a flag takes no value"
  | .unreadableValue => "invalid value"
  | .conflict => "an argument is repeated or excluded by another one"

def pathOf (place : Place) : String :=
  match place.names.reverse with
  | "/" :: names => "/" ++ "/".intercalate names
  | names => "/".intercalate names

/-- Looks at what is found at a place; what is there but cannot be read counts as a folder. -/
def probe (place : Place) : IO (Option Entry) := do
  try
    return some (.file (← IO.FS.readBinFile (pathOf place)))
  catch
    | .noFileOrDirectory .. => return none
    | _ => return some .folder

def lookUp (files : Files) (path : String) : IO Files := do
  let mut files := files
  let mut place := startOf path
  for name in namesOf path do
    place := place.step name
    unless files.contains place do
      if let some entry ← probe place then
        files := files.put place entry
  return files

/-- Writes what has changed. What cannot be written stays as it is. -/
def writeBack (before after : Files) : IO Unit :=
  for (place, entry) in after.entries.reverse do
    if before.get? place != some entry then
      try
        match entry with
        | .folder => IO.FS.createDirAll (pathOf place)
        | .file content => IO.FS.writeBinFile (pathOf place) content
      catch _ => pure ()

def clock : IO Nat := do
  return (← Std.Time.Timestamp.now).toMillisecondsSinceUnixEpoch.val.toNat

/-- Holds a session. `keep` is told of the store before and after each line. -/
partial def hold {σ : Type} [Store σ] (keep : σ → σ → IO Unit) (session : Session) (store : σ) :
    IO Unit := do
  let output ← IO.getStdout
  output.putStr session.prompt
  output.flush
  let line ← (← IO.getStdin).getLine
  if line.isEmpty then output.putStr "\n"
  else
    let (step, session, after) := session.handle (← clock) line store
    keep store after
    output.putStr step.output
    if step = .quit then output.putStr "\n" else hold keep session after

def tell (trouble : Trouble) : IO Nat := do
  IO.eprintln ("Error: " ++ trouble.context)
  return Trouble.exitCode

def carryOut (invocation : Invocation) (configFolder dataFolder : String) : IO Nat := do
  let now ← clock
  let surroundings : Surroundings :=
    { configPath := configFolder ++ "/calcdeck/config.toml"
      historyPath := dataFolder ++ "/calcdeck/history.json"
      clock := fun _ => now }
  let start ← lookUp {} (invocation.config.getD surroundings.configPath)
  match invocation.prepare surroundings start with
  | (.error trouble, files) =>
    writeBack start files
    tell trouble
  | (.ok (settings, path), files) =>
    writeBack start files
    let store : FileStore := ⟨path, ← lookUp files path⟩
    match invocation.actionOrListing with
    | .session true =>
      hold (fun before after => writeBack before.files after.files) (newSession settings) store
      return 0
    | .session false =>
      hold (fun _ _ => pure ()) (newSession settings) ({} : MemoryStore)
      return 0
    | action =>
      match runAction settings surroundings action store with
      | (.error trouble, _) => tell trouble
      | (.ok outcome, after) =>
        IO.print outcome.output
        outcome.report.forM IO.eprintln
        writeBack store.files after.files
        return outcome.exitCode

/-- The folder that the environment sets under a name, or else one in the home folder. -/
def folderOf (name fallback : String) : IO String := do
  match ← IO.getEnv name with
  | some path => if path.startsWith "/" then return path
  | none => pure ()
  match ← IO.getEnv "HOME" with
  | some home => return home ++ "/" ++ fallback
  | none => return "."

def start (words : List String) : IO UInt32 := do
  match Invocation.ofWords words with
  | .ok invocation =>
    let code ← carryOut invocation (← folderOf "XDG_CONFIG_HOME" ".config")
      (← folderOf "XDG_DATA_HOME" ".local/share")
    return code.toUInt32
  | .error stop =>
    match stop with
    | .help => IO.println usage
    | .version => IO.println "calcdeck 0.1.0"
    | .refused refusal => IO.eprintln ("error: " ++ refusalText refusal ++ "\n\n" ++ usage)
    return stop.exitCode.toUInt32

end DeskCalculator.Program

def main (words : List String) : IO UInt32 := DeskCalculator.Program.start words
