import DeskCalculator.Number.Numeral
import DeskCalculator.Split.Display

/-!
The form for splitting a bill: the groups entered so far, the settlement on show, and whether the
last attempt was refused. The fields for the total and the number of people are free text, of which
the number in front counts.
-/
namespace DeskCalculator.Keypad

open Split

def askForNumbers : String := "有効な数値を入力してください。"

def floatField? (field : String) : Option Float :=
  Number.readLeadingDouble? (Text.trimFront field.toList)

def intField? (field : String) : Option Int :=
  Number.readLeadingInt? (Text.trimFront field.toList)

def peopleBound : Nat := 0x100000000

/-- Reads both fields. A total of zero counts as no number. -/
def readFields (total people : String) : Except (Fault Float) (Float × Nat) := do
  let total ←
    match floatField? total with
    | some x => if x == 0.0 then throw .totalUnreadable else pure x
    | none => throw .totalUnreadable
  let people ←
    match intField? people with
    | some n => if 0 < n ∧ n < peopleBound then pure n.toNat else throw .peopleNotPositive
    | none => throw .peopleNotPositive
  return (total, people)

structure SplitForm where
  rounding : Rounding
  groups : List (Split.Group Float) := []
  display : Option Display := none
  refused : Bool := false
deriving Repr, DecidableEq

namespace SplitForm

def message (form : SplitForm) : Option String := if form.refused then some askForNumbers else none

def addGroup (form : SplitForm) (group : Split.Group Float) : SplitForm :=
  { form with groups := form.groups ++ [group] }

def clear (form : SplitForm) : SplitForm := { rounding := form.rounding }

/-- Splits the bill that the fields and groups describe. A refused attempt leaves the last
settlement on show. -/
def calculate (form : SplitForm) (total people : String) :
    Except (Fault Float) (Settlement Float) × SplitForm :=
  let outcome := do
    let (total, people) ← readFields total people
    Request.settle ⟨total, people, form.rounding, form.groups⟩
  match outcome with
  | .ok settlement =>
    (.ok settlement, { form with display := some (.ofSettlement settlement), refused := false })
  | .error fault => (.error fault, { form with refused := true })

end SplitForm

end DeskCalculator.Keypad
