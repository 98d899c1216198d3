import DeskCalculator.Number.Radix

/-!
Saved calculations. A record keeps the time of saving; the most recent come first, and of records
with the same time the one with the greater id.
-/
namespace DeskCalculator.History

structure Record where
  id : Nat
  formula : String
  result : String
  /-- The time of saving, in milliseconds. -/
  createdAt : Nat
deriving Repr, DecidableEq

def Record.display (r : Record) : String :=
  "#" ++ String.ofList (Number.decimalText r.id) ++ " " ++ r.formula ++ " = " ++ r.result

def defaultLimit : Nat := 10

def precedes (a b : Record) : Bool :=
  b.createdAt < a.createdAt || (a.createdAt == b.createdAt && b.id ≤ a.id)

/-- Up to `limit` records, the most recent first; equals stay in stored order. -/
def mostRecent (limit : Nat) (records : List Record) : List Record :=
  (records.mergeSort precedes).take limit

/-- The id of the next record: one more than the greatest. Ids have 64 bits where they are stored,
and a history that holds the last of them can take no further record; what is said of ids elsewhere
is said below this bound. -/
def nextId (records : List Record) : Nat := (records.map Record.id).foldl max 0 + 1

def newRecord (now : Nat) (formula result : String) (records : List Record) : Record :=
  ⟨nextId records, formula, result, now⟩

end DeskCalculator.History
