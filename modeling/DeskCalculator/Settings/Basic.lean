import DeskCalculator.History.Record
import DeskCalculator.Scientific.Mode
import DeskCalculator.Split.Amount
import DeskCalculator.Toml.Document

/-!
The settings of the program and their form as a TOML document with three sections. Whatever the
document leaves out has its default, and keys that mean nothing are ignored.
-/
namespace DeskCalculator

open Scientific Toml

structure Settings where
  unit : AngleUnit := .degrees
  rounding : Split.Rounding := .truncate
  /-- The history file, if it is not the default one. -/
  historyPath : Option String := none
  recentLimit : Nat := History.defaultLimit
deriving Repr, DecidableEq

namespace Settings

def unitNames : List (String × AngleUnit) := [("degrees", .degrees), ("radians", .radians)]

def roundingNames : List (String × Split.Rounding) :=
  [("truncate", .truncate), ("round_up_to_100", .upToHundred)]

def isVoid : Value → Bool
  | .array items => items.isEmpty
  | .table _ entries => entries.isEmpty
  | .tables elements => elements.isEmpty
  | _ => false

/-- The choice that a value names: a string, or a table whose only key has an empty value. -/
def choice? {α : Type} (names : List (String × α)) : Value → Option α
  | .string name => names.lookup name
  | .table _ [(name, value)] => if isVoid value then names.lookup name else none
  | _ => none

def path? : Value → Option String
  | .string path => some path
  | _ => none

def count? : Value → Option Nat
  | .integer n => if 0 ≤ n then some n.toNat else none
  | _ => none

/-- One more than the greatest count that a document can hold. -/
def countBound : Nat := 0x8000000000000000

/-- What a section says about one of its fields, given by its place and key. A table is asked for
the key; an array lists its fields in order and may stop early. A date is a section that says
nothing. -/
def fieldOf (place : Nat) (key : String) : Value → Option Value
  | .table _ entries => Entries.get? entries key
  | .array items => items[place]?
  | .tables elements => elements[place]?.map (.table .header)
  | _ => none

def isSection : Value → Bool
  | .table _ _ | .array _ | .tables _ | .date => true
  | _ => false

def sectionNamed? (document : Entries) (name : String) : Option Value :=
  match document.get? name with
  | none => some (.table .header [])
  | some value => if isSection value then some value else none

def readField {α : Type} (read? : Value → Option α) (default : α) : Option Value → Option α
  | none => some default
  | some value => read? value

def ofDocument? (document : Entries) : Option Settings := do
  let calculator ← sectionNamed? document "calculator"
  let unit ← readField (choice? unitNames) .degrees (fieldOf 0 "angle_unit" calculator)
  let split ← sectionNamed? document "warikan"
  let rounding ← readField (choice? roundingNames) .truncate (fieldOf 0 "rounding" split)
  let history ← sectionNamed? document "history"
  let historyPath ← readField (fun v => (path? v).map some) none (fieldOf 0 "path" history)
  let recentLimit ← readField count? History.defaultLimit (fieldOf 1 "recent_limit" history)
  return { unit, rounding, historyPath, recentLimit }

def ofText? (text : String) : Option Settings := Toml.ofText? text >>= ofDocument?

def unitName : AngleUnit → String
  | .degrees => "degrees"
  | .radians => "radians"

def roundingName : Split.Rounding → String
  | .truncate => "truncate"
  | .upToHundred => "round_up_to_100"

def keyLine (key : String) (value : List Char) : List Char :=
  key.toList ++ " = ".toList ++ value ++ ['\n']

def pathLine : Option String → List Char
  | none => []
  | some path => keyLine "path" (Toml.quote path.toList)

def text (settings : Settings) : String :=
  String.ofList <|
    "[calculator]\n".toList ++
    keyLine "angle_unit" (Toml.quote (unitName settings.unit).toList) ++
    "\n[warikan]\n".toList ++
    keyLine "rounding" (Toml.quote (roundingName settings.rounding).toList) ++
    "\n[history]\n".toList ++
    pathLine settings.historyPath ++
    keyLine "recent_limit" (Number.decimalText settings.recentLimit)

end Settings

end DeskCalculator
