/-!
TOML values and the rules by which tables grow. A table remembers how it came about, because that
decides what may still be added to it: headers may extend a table that only other headers imply, but
not one with a header of its own, and dotted keys may extend only tables that dotted keys made.
-/
namespace DeskCalculator.Toml

inductive Origin where
  /-- By its own header, or as an element of an array of tables. -/
  | header
  /-- As the parent of a table with a header. -/
  | implied
  /-- By a dotted key. -/
  | dotted
  /-- Between braces; nothing can be added any more. -/
  | braces
deriving Repr, DecidableEq

/-- A TOML value. Fractions and dates are told from other values but not kept. -/
inductive Value where
  | string (text : String)
  | integer (value : Int)
  | boolean (value : Bool)
  | fraction
  | date
  | array (items : List Value)
  | table (origin : Origin) (entries : List (String × Value))
  /-- An array of tables that headers build up. -/
  | tables (elements : List (List (String × Value)))
deriving Repr

abbrev Entries := List (String × Value)

namespace Entries

def get? (entries : Entries) (key : String) : Option Value :=
  (entries.find? (·.1 == key)).map (·.2)

/-- Gives a key a value, in its old place if it had one. -/
def set (entries : Entries) (key : String) (value : Value) : Entries :=
  if (entries.get? key).isSome then
    entries.map fun entry => if entry.1 == key then (key, value) else entry
  else entries ++ [(key, value)]

def add? (entries : Entries) (key : String) (value : Value) : Option Entries :=
  if (entries.get? key).isSome then none else some (entries ++ [(key, value)])

end Entries

/-- Follows keys from a table and lets `change` work on the table at their end; tables missing on
the way are created. A header passes through any table, and through the last element of an array of
tables. A dotted key passes only through tables that have no header. -/
def descend (byDots : Bool) (change : Origin → Entries → Option Entries) :
    List String → Origin → Entries → Option Entries
  | [], origin, entries => change origin entries
  | key :: keys, _, entries =>
    match entries.get? key with
    | none => do
      let origin := if byDots then Origin.dotted else .implied
      let inner ← descend byDots change keys origin []
      return entries.set key (.table origin inner)
    | some (.table origin inner) => do
      if origin = .braces ∨ (byDots ∧ origin = .header) then none
      else
        let inner ← descend byDots change keys origin inner
        return entries.set key (.table origin inner)
    | some (.tables elements) => do
      let last ← elements.getLast?
      let last ← descend byDots change keys .header last
      return entries.set key (.tables (elements.dropLast ++ [last]))
    | some _ => none

/-- Adds a value under a dotted key. The table that receives it is the one at hand for a plain key,
and otherwise must have been made by dotted keys. -/
def insert? (keys : List String) (key : String) (value : Value) :
    Origin → Entries → Option Entries :=
  descend true (fun origin entries =>
    if (origin = .dotted) ↔ keys = [] then none else entries.add? key value) keys

def openTable? (keys : List String) (key : String) (root : Entries) : Option Entries :=
  descend false (fun _ entries =>
    match entries.get? key with
    | none => some (entries.set key (.table .header []))
    | some (.table .implied inner) => some (entries.set key (.table .header inner))
    | some _ => none) keys .header root

def openElement? (keys : List String) (key : String) (root : Entries) : Option Entries :=
  descend false (fun _ entries =>
    match entries.get? key with
    | none => some (entries.set key (.tables [[]]))
    | some (.tables elements) => some (entries.set key (.tables (elements ++ [[]])))
    | some _ => none) keys .header root

end DeskCalculator.Toml
