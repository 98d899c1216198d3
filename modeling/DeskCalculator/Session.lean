import DeskCalculator.History.Store
import DeskCalculator.Keypad.Scientific

/-!
A session in lines: expressions, which are evaluated and saved, and commands, which begin with a
colon. The previous result and the mode carry over from line to line.
-/
namespace DeskCalculator

open History Keypad Scientific

inductive Step where
  | print (text : String)
  | nothing
  | quit
deriving Repr, DecidableEq

def Step.output : Step → String
  | print text => text ++ "\n"
  | nothing | quit => ""

structure Session where
  pad : ScientificPad
  recentLimit : Nat := defaultLimit
deriving Repr, DecidableEq

inductive Command where
  | unit (unit : AngleUnit)
  | inverse
  | clear
  | history
  | help
  | quit
  | unknown (name : String)
deriving Repr, DecidableEq

def Command.ofName (name : String) : Command :=
  match name with
  | "deg" => unit .degrees
  | "rad" => unit .radians
  | "inv" => inverse
  | "clear" => clear
  | "history" => history
  | "help" => help
  | "quit" => quit
  | "q" => quit
  | _ => unknown name

def helpText : String :=
  "operators: + - * / ^ ( )\nsymbols: " ++ " ".intercalate symbolNames ++
    "\ncommands: :deg :rad :inv :clear :history :help :quit"

def listing (records : List Record) : String :=
  if records.isEmpty then "No calculations saved yet."
  else "\n".intercalate (records.map Record.display)

namespace Session

def start (unit : AngleUnit) (recentLimit : Nat) : Session := ⟨.ofMode { unit }, recentLimit⟩

def mode (session : Session) : Mode := session.pad.memory.mode

def prompt (session : Session) : String :=
  session.mode.unit.label ++ (if session.mode.inverse then " INV> " else "> ")

/-- Prints a status and, if there is an expression, its value in the mode that now holds. -/
def printRefreshed (session : Session) (status : String) : Step :=
  if Text.isEmpty session.pad.input then .print status
  else .print (status ++ "\n" ++ session.pad.readout.text)

def setUnit (session : Session) (unit : AngleUnit) : Session :=
  if session.mode.unit = unit then session else { session with pad := session.pad.toggleUnit }

variable {σ : Type} [Store σ]

/-- Evaluates a trimmed line and saves what has a value. An empty line changes nothing. -/
def evaluate (session : Session) (now : Nat) (line : String) (store : σ) : Step × Session × σ :=
  if line = "" then (.nothing, session, store)
  else
    let (outcome, pad) := (session.pad.clear.append line).calculate
    let session := { session with pad }
    match outcome with
    | none => (.nothing, session, store)
    | some (.ok x) =>
      let (_, store) := saveIfPossible now line (Number.plain x) store
      (.print pad.readout.text, session, store)
    | some (.error fault) =>
      (.print (pad.readout.text ++ ": " ++ fault.failure.text), session, store)

def perform (session : Session) (command : Command) (store : σ) : Step × Session :=
  match command with
  | .unit unit =>
    let session := session.setUnit unit
    (session.printRefreshed unit.label, session)
  | .inverse =>
    let session := { session with pad := session.pad.toggleInverse }
    (session.printRefreshed (if session.mode.inverse then "inverse on" else "inverse off"), session)
  | .clear =>
    let session := { session with pad := session.pad.clear }
    (.print session.pad.readout.text, session)
  | .history =>
    match Store.listRecent session.recentLimit store with
    | .ok records => (.print (listing records), session)
    | .error fault => (.print ("Error: " ++ fault.message), session)
  | .help => (.print helpText, session)
  | .quit => (.quit, session)
  | .unknown name => (.print ("unknown command ':" ++ name ++ "' (try :help)"), session)

def handle (session : Session) (now : Nat) (line : String) (store : σ) : Step × Session × σ :=
  match Text.trim line.toList with
  | ':' :: name =>
    let (step, session) := session.perform (.ofName (String.ofList (Text.trim name))) store
    (step, session, store)
  | line => session.evaluate now (String.ofList line) store

end Session

end DeskCalculator
