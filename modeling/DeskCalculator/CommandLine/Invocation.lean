import DeskCalculator.CommandLine.Options
import DeskCalculator.Number.Numeral
import DeskCalculator.Scientific.Mode
import DeskCalculator.Split.Settlement
import DeskCalculator.Text.Blank

/-!
The command line of the program: what can be asked for, and which words ask for it. Verbosity and
the places of files may be given in front of a command or behind its name, where they count more.
-/
namespace DeskCalculator.CommandLine

open Scientific (AngleUnit)

structure EvalRequest where
  text : String
  /-- The unit of angles, if it is not the configured one. -/
  unit : Option AngleUnit := none
  inverse : Bool := false
  /-- The value of the previous result. -/
  ans : Option Float := none
  save : Bool := true
deriving Repr

structure SplitRequest where
  total : Float
  people : Nat
  roundUp : Bool := false
  groups : List (Split.Group Float) := []
deriving Repr

inductive Action where
  | eval (request : EvalRequest)
  | hex (text : String)
  | split (request : SplitRequest)
  | history (limit : Option Nat)
  | session (save : Bool)
deriving Repr

structure Globals where
  /-- How often more messages were asked for. -/
  verbosity : Option Nat := none
  config : Option String := none
  history : Option String := none
deriving Repr, DecidableEq

structure Invocation where
  verbosity : Nat := 0
  config : Option String := none
  history : Option String := none
  action : Option Action := none
deriving Repr

structure Draft (α : Type) where
  own : α
  globals : Globals := {}

def EvalRequest.unitOr (request : EvalRequest) (configured : AngleUnit) : AngleUnit :=
  request.unit.getD configured

/-! ### Values -/

def once {α : Type} (read : String → Except Refusal α) (word : String) :
    Option α → Except Stop (Option α)
  | some _ => .error (.refused .conflict)
  | none => (read word).map some |>.mapError .refused

def raise : Bool → Except Stop Bool
  | true => .error (.refused .conflict)
  | false => .ok true

def readable {α : Type} (read? : List Char → Option α) (word : String) : Except Refusal α :=
  match read? word.toList with
  | some value => .ok value
  | none => .error .unreadableValue

/-- A path; an empty one counts as missing. -/
def pathValue (word : String) : Except Refusal String :=
  if word = "" then .error .missingValue else .ok word

/-- A number of people; zero may have a minus sign. -/
def peopleValue? : List Char → Option Nat
  | '-' :: zeros => if !zeros.isEmpty && zeros.all (· == '0') then some 0 else none
  | word => Number.readCount? 0x100000000 word

def limitValue? : List Char → Option Nat := Number.readCount? 0x10000000000000000

/-- A group: a number of people and their ratio with a colon between them, and perhaps blanks. -/
def groupValue? (word : List Char) : Option (Split.Group Float) :=
  let (count, tail) := word.span (· != ':')
  match tail with
  | [] => none
  | _ :: ratio => do
    let count ← Number.readCount? 0x100000000 (Text.trim count)
    let ratio ← Number.readDouble? (Text.trim ratio)
    return ⟨count, ratio⟩

/-! ### Options -/

def verbosityBound : Nat := 255

def globalOptions {α : Type} : List (CommandOption (Draft α)) :=
  [⟨"verbose", some 'v', .flag fun draft =>
      let count := min (draft.globals.verbosity.getD 0 + 1) verbosityBound
      .ok { draft with globals := { draft.globals with verbosity := some count } }⟩,
    ⟨"config", none, .value (fun word draft => do
      let config ← once pathValue word draft.globals.config
      return { draft with globals := { draft.globals with config } }) false⟩,
    ⟨"history", none, .value (fun word draft => do
      let history ← once pathValue word draft.globals.history
      return { draft with globals := { draft.globals with history } }) false⟩,
    ⟨"help", some 'h', .flag fun _ => .error .help⟩]

def ownFlag {α : Type} (long : String) (apply : α → Except Stop α) : CommandOption (Draft α) :=
  ⟨long, none, .flag fun draft => do
    let own ← apply draft.own
    return { draft with own }⟩

def ownValue {α : Type} (long : String) (short : Option Char) (negative : Bool)
    (apply : String → α → Except Stop α) : CommandOption (Draft α) :=
  ⟨long, short, .value (fun word draft => do
    let own ← apply word draft.own
    return { draft with own }) negative⟩

def ownOperand {α : Type} (store : String → α → α) (word : String) (draft : Draft α) : Draft α :=
  { draft with own := store word draft.own }

def required {α : Type} : Option α → Except Stop α
  | some value => .ok value
  | none => .error (.refused .missingArgument)

/-! ### Commands -/

def commandNames : List String := ["eval", "hex", "split", "history", "repl", "help"]

def outerGrammar : Grammar (Draft Unit) where
  options := ⟨"version", some 'V', .flag fun _ => .error .version⟩ :: globalOptions
  operand := none
  commands := commandNames

structure EvalDraft where
  text : Option String := none
  radians : Bool := false
  degrees : Bool := false
  inverse : Bool := false
  ans : Option Float := none
  discard : Bool := false

def evalGrammar : Grammar (Draft EvalDraft) where
  options :=
    [ownFlag "rad" fun draft => do return { draft with radians := ← raise draft.radians },
      ownFlag "deg" fun draft => do return { draft with degrees := ← raise draft.degrees },
      ownFlag "inv" fun draft => do return { draft with inverse := ← raise draft.inverse },
      ownFlag "no-save" fun draft => do return { draft with discard := ← raise draft.discard },
      ownValue "ans" none true fun word draft => do
        return { draft with ans := ← once (readable Number.readDouble?) word draft.ans }] ++
      globalOptions
  operand := some (ownOperand fun text draft => { draft with text := some text })
  commands := []

def EvalDraft.action (draft : EvalDraft) : Except Stop Action := do
  if draft.radians && draft.degrees then throw (.refused .conflict)
  let text ← required draft.text
  let unit := if draft.radians then some .radians else if draft.degrees then some .degrees else none
  return .eval { text, unit, inverse := draft.inverse, ans := draft.ans, save := !draft.discard }

def hexGrammar : Grammar (Draft (Option String)) where
  options := globalOptions
  operand := some (ownOperand fun text _ => some text)
  commands := []

structure SplitDraft where
  total : Option Float := none
  people : Option Nat := none
  roundUp : Bool := false
  groups : List (Split.Group Float) := []

def splitGrammar : Grammar (Draft SplitDraft) where
  options :=
    [ownValue "total" none false fun word draft => do
        return { draft with total := ← once (readable Number.readDouble?) word draft.total },
      ownValue "people" none false fun word draft => do
        return { draft with people := ← once (readable peopleValue?) word draft.people },
      ownFlag "round-up" fun draft => do return { draft with roundUp := ← raise draft.roundUp },
      ownValue "group" none false fun word draft => do
        let group ← (readable groupValue? word).mapError .refused
        return { draft with groups := draft.groups ++ [group] }] ++
      globalOptions
  operand := none
  commands := []

def SplitDraft.action (draft : SplitDraft) : Except Stop Action := do
  let total ← required draft.total
  let people ← required draft.people
  return .split { total, people, roundUp := draft.roundUp, groups := draft.groups }

def historyGrammar : Grammar (Draft (Option Nat)) where
  options :=
    ownValue "limit" (some 'l') false (fun word limit => once (readable limitValue?) word limit) ::
      globalOptions
  operand := none
  commands := []

def sessionGrammar : Grammar (Draft Bool) where
  options := ownFlag "no-save" raise :: globalOptions
  operand := none
  commands := []

def readWords {α : Type} (grammar : Grammar (Draft α)) (own : α)
    (action : α → Except Stop Action) (words : List String) : Except Stop (Globals × Action) := do
  let (progress, _) ← grammar.read { draft := { own } } words
  let progress ← progress.settle
  let action ← action progress.draft.own
  return (progress.draft.globals, action)

def helpOn : List String → Stop
  | [] => .help
  | [name] => if commandNames.contains name then .help else .refused .unknownCommand
  | _ => .refused .unknownCommand

def readCommand (name : String) (words : List String) : Except Stop (Globals × Action) :=
  match name with
  | "eval" => readWords evalGrammar {} EvalDraft.action words
  | "hex" => readWords hexGrammar none (fun text => Action.hex <$> required text) words
  | "split" => readWords splitGrammar {} SplitDraft.action words
  | "history" => readWords historyGrammar none (fun limit => .ok (.history limit)) words
  | "repl" => readWords sessionGrammar false (fun discard => .ok (.session !discard)) words
  | _ => .error (helpOn words)

/-- Options behind the name of a command, with those in front of it where they are missing. -/
def Globals.over (inner outer : Globals) : Globals where
  verbosity := inner.verbosity <|> outer.verbosity
  config := inner.config <|> outer.config
  history := inner.history <|> outer.history

def Globals.invocation (globals : Globals) (action : Option Action) : Invocation where
  verbosity := globals.verbosity.getD 0
  config := globals.config
  history := globals.history
  action := action

def Invocation.ofWords (words : List String) : Except Stop Invocation := do
  let (progress, command) ← outerGrammar.read { draft := { own := () } } words
  match command with
  | none => do
    let progress ← progress.settle
    return progress.draft.globals.invocation none
  | some (name, rest) => do
    let (globals, action) ← readCommand name rest
    let progress ← progress.settle
    return (globals.over progress.draft.globals).invocation (some action)

end DeskCalculator.CommandLine
