import DeskCalculator.CommandLine.Invocation
import DeskCalculator.Expression.Keystroke
import DeskCalculator.Hex.Evaluation
import DeskCalculator.Report.Layout
import DeskCalculator.Session
import DeskCalculator.Settings.Loading
import DeskCalculator.Split.Display

/-!
Carrying out a command line. Settings are loaded first, then the command runs on the files and ends
with an exit code, its output and perhaps a report on what failed. Saving is a courtesy: a command
never fails because its result cannot be saved.
-/
namespace DeskCalculator.CommandLine

open History Storage

structure Surroundings where
  /-- The place of the settings unless something else is asked for. -/
  configPath : String
  /-- The place of saved calculations unless something else is asked for or set. -/
  historyPath : String
  /-- The readings of the clock, in milliseconds: a session takes one for each line, any other
  command takes the first. -/
  clock : Nat → Nat
  /-- The text that a session reads. -/
  input : String := ""

structure Outcome where
  exitCode : Nat
  output : String
  /-- The rows of the report on a failure. -/
  report : List String := []
deriving Repr, DecidableEq

inductive Trouble where
  | settings (fault : Settings.LoadFault)
  | history (fault : StoreFault)
deriving Repr, DecidableEq

def Trouble.context : Trouble → String
  | settings _ => "failed to load configuration"
  | history _ => "failed to read calculation history"

def Trouble.exitCode : Nat := 1

def inputName : String := "<input>"

def success (lines : List String) : Outcome := ⟨0, String.join (lines.map (· ++ "\n")), []⟩

def failed (failure : Failure) (source : String) : Outcome :=
  ⟨failure.kind.exitCode, "", failure.report inputName source⟩

def EvalRequest.evaluate (request : EvalRequest) (configured : Scientific.AngleUnit) :
    Except Scientific.Fault Float :=
  Scientific.evaluate request.text ⟨request.unitOr configured, request.inverse⟩
    (request.ans.getD 0.0)

def runEval (settings : Settings) (now : Nat) (request : EvalRequest) (store : FileStore) :
    Outcome × FileStore :=
  match request.evaluate settings.unit with
  | .ok x =>
    let result := Number.plain x
    let store := if request.save then (saveIfPossible now request.text result store).2 else store
    (success [result], store)
  | .error fault => (failed fault.failure (Expression.normalize request.text), store)

def runHex (text : String) : Outcome :=
  match Hex.evaluate text with
  | .ok n => success [Hex.hexText n, "DEC: " ++ Hex.decText n]
  | .error fault => failed fault.failure text

def SplitRequest.bill (request : SplitRequest) (configured : Split.Rounding) :
    Split.Request Float where
  total := request.total
  people := request.people
  rounding := if request.roundUp then .upToHundred else configured
  groups := request.groups

def displayLines (display : Split.Display) : List String :=
  ("per person: " ++ display.perPerson) :: display.groups ++ ["remainder: " ++ display.remainder]

def runSplit (settings : Settings) (request : SplitRequest) : Outcome :=
  match (request.bill settings.rounding).settle with
  | .ok settlement => success (displayLines (.ofSettlement settlement))
  | .error fault => failed fault.failure ""

def runHistory (settings : Settings) (limit : Option Nat) (store : FileStore) :
    Except Trouble Outcome :=
  match Store.listRecent (limit.getD settings.recentLimit) store with
  | .ok records => .ok (success [listing records])
  | .error fault => .error (.history fault)

/-- Gives lines to a session, each at its time, until it quits. Before each line that could follow, a
prompt is written. -/
def converse {σ : Type} [Store σ] (session : Session) (store : σ) :
    List (Nat × String) → String × σ
  | [] => ("", store)
  | (now, line) :: rest =>
    let (step, session, store) := session.handle now line store
    if step = .quit then ("", store)
    else
      let (output, store) := converse session store rest
      (step.output ++ session.prompt ++ output, store)

def dropReturn (line : List Char) : List Char :=
  if line.getLast? = some '\r' then line.dropLast else line

/-- The lines of an input. Only the last one may lack the line feed at its end. -/
def inputLines (input : String) : List String :=
  let texts := Text.pieces '\n' input.toList
  let texts := if texts.getLast? = some [] then texts.dropLast else texts
  texts.map fun text => String.ofList (dropReturn text)

def timedLines (clock : Nat → Nat) (input : String) : List (Nat × String) :=
  (inputLines input).mapIdx fun i line => (clock i, line)

def newSession (settings : Settings) : Session := .start settings.unit settings.recentLimit

def runSession {σ : Type} [Store σ] (settings : Settings) (clock : Nat → Nat) (input : String)
    (store : σ) : Outcome × σ :=
  let session := newSession settings
  let (output, store) := converse session store (timedLines clock input)
  (success [session.prompt ++ output], store)

def runAction (settings : Settings) (surroundings : Surroundings) (action : Action)
    (store : FileStore) : Except Trouble Outcome × FileStore :=
  match action with
  | .eval request =>
    let (outcome, store) := runEval settings (surroundings.clock 0) request store
    (.ok outcome, store)
  | .hex text => (.ok (runHex text), store)
  | .split request => (.ok (runSplit settings request), store)
  | .history limit => (runHistory settings limit store, store)
  | .session true =>
    let (outcome, store) := runSession settings surroundings.clock surroundings.input store
    (.ok outcome, store)
  | .session false =>
    let memory : MemoryStore := {}
    (.ok (runSession settings surroundings.clock surroundings.input memory).1, store)

/-- What a command line asks for; without an action, saved calculations are listed. -/
def Invocation.actionOrListing (invocation : Invocation) : Action :=
  invocation.action.getD (.history none)

/-- Loads the settings and finds the path at which calculations are saved. -/
def Invocation.prepare (invocation : Invocation) (surroundings : Surroundings) (files : Files) :
    Except Trouble (Settings × String) × Files :=
  match Settings.load invocation.config surroundings.configPath files with
  | (.error fault, files) => (.error (.settings fault), files)
  | (.ok settings, files) =>
    let path := (invocation.history <|> settings.historyPath).getD surroundings.historyPath
    (.ok (settings, path), files)

def Invocation.run (invocation : Invocation) (surroundings : Surroundings) (files : Files) :
    Except Trouble Outcome × Files :=
  match invocation.prepare surroundings files with
  | (.error trouble, files) => (.error trouble, files)
  | (.ok (settings, path), files) =>
    let (outcome, store) :=
      runAction settings surroundings invocation.actionOrListing ⟨path, files⟩
    (outcome, store.files)

end DeskCalculator.CommandLine
