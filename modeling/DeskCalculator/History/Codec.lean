import DeskCalculator.History.Record
import DeskCalculator.Json.Value

/-!
Records as JSON. The file holds an array of objects with four members each. Reading takes the
members in any order and ignores others; it also takes an array of the four values. A member that is
missing or repeated spoils the file.
-/
namespace DeskCalculator.History

open Json (Value)

/-- The greatest number that a record holds, plus one. -/
def numberBound : Nat := 0x10000000000000000

def natural? : Value → Option Nat
  | .number (some n) => if n < numberBound then some n else none
  | _ => none

def text? : Value → Option String
  | .string text? => text?
  | _ => none

def member? (key : String) (members : List (Option String × Value)) : Option Value :=
  match members.filter (·.1 == some key) with
  | [(_, value)] => some value
  | _ => none

def ofValues? (id formula result createdAt : Value) : Option Record := do
  return ⟨← natural? id, ← text? formula, ← text? result, ← natural? createdAt⟩

def ofValue? : Value → Option Record
  | .object members => do
    if members.any (·.1.isNone) then none
    else
      ofValues? (← member? "id" members) (← member? "formula" members)
        (← member? "result" members) (← member? "created_at" members)
  | .array [id, formula, result, createdAt] => ofValues? id formula result createdAt
  | _ => none

def decode? (text : String) : Option (List Record) :=
  match Value.ofText? text with
  | some (.array items) => items.mapM ofValue?
  | _ => none

def recordText (r : Record) : List Char :=
  "  \x7b\n    \"id\": ".toList ++ Number.decimalText r.id ++
    ",\n    \"formula\": ".toList ++ Json.quote r.formula.toList ++
    ",\n    \"result\": ".toList ++ Json.quote r.result.toList ++
    ",\n    \"created_at\": ".toList ++ Number.decimalText r.createdAt ++ "\n  \x7d".toList

def furtherText (records : List Record) : List Char :=
  records.flatMap fun r => ",\n".toList ++ recordText r

def encode : List Record → String
  | [] => "[]"
  | first :: rest =>
    String.ofList ("[\n".toList ++ recordText first ++ furtherText rest ++ "\n]".toList)

end DeskCalculator.History
