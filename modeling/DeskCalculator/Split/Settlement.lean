import DeskCalculator.Split.Amount

/-!
Splitting a bill. A total is shared evenly, or by weight: members of a group pay their ratio times
the regular share. Each share is rounded on its own, and what rounding leaves over is the
remainder: money still missing when shares are truncated, money collected in excess when they are
rounded up.
-/
namespace DeskCalculator.Split

/-- A number of people who pay `ratio` times the regular share. -/
structure Group (α : Type) where
  count : Nat
  ratio : α
deriving Repr, DecidableEq

structure GroupShare (α : Type) extends Group α where
  pay : α
deriving Repr, DecidableEq

inductive Settlement (α : Type) where
  | even (perPerson remainder : α)
  | weighted (regularPay : α) (regularCount : Nat) (groups : List (GroupShare α)) (remainder : α)
deriving Repr, DecidableEq

inductive Fault (α : Type) where
  | totalUnreadable
  | totalNotPositive
  | peopleNotPositive
  | ratioUnusable (ratio : α)
  | groupsExceedPeople (grouped people : Nat)
  | nobodyPays
deriving Repr, DecidableEq

/-- A bill to split; `people` counts the members of all groups too. -/
structure Request (α : Type) where
  total : α
  people : Nat
  rounding : Rounding
  groups : List (Group α)
deriving Repr, DecidableEq

variable {α : Type} [Amount α]

def sum (amounts : List α) : α := amounts.foldl (· + ·) (Amount.ofNat 0)

def paidTotal (regularPay : α) (regularCount : Nat) (groups : List (GroupShare α)) : α :=
  regularPay * Amount.ofNat regularCount + sum (groups.map fun g => g.pay * Amount.ofNat g.count)

namespace Settlement

def remainder : Settlement α → α
  | even _ remainder => remainder
  | weighted _ _ _ remainder => remainder

def regularPay : Settlement α → α
  | even perPerson _ => perPerson
  | weighted regularPay _ _ _ => regularPay

def groups : Settlement α → List (GroupShare α)
  | even _ _ => []
  | weighted _ _ groups _ => groups

def collected (people : Nat) : Settlement α → α
  | even perPerson _ => perPerson * Amount.ofNat people
  | weighted regularPay regularCount groups _ => paidTotal regularPay regularCount groups

end Settlement

def checkBill (total : α) (people : Nat) : Except (Fault α) Unit :=
  if !(Amount.isFinite total && Amount.isPositive total) then .error .totalNotPositive
  else if people = 0 then .error .peopleNotPositive
  else .ok ()

def settleEvenly (total : α) (people : Nat) (rounding : Rounding) :
    Except (Fault α) (Settlement α) := do
  checkBill total people
  let heads : α := Amount.ofNat people
  let perPerson := rounding.apply (total / heads)
  let remainder :=
    match rounding with
    | .truncate => Amount.remainder total heads
    | .upToHundred => perPerson * heads - total
  return .even perPerson remainder

def isUsable (ratio : α) : Bool := Amount.isFinite ratio && Amount.isPositive ratio

/-- The share of a group, rounded on its own from the rounded regular share. -/
def Group.share (rounding : Rounding) (regularPay : α) (group : Group α) : GroupShare α :=
  { group with pay := rounding.apply (regularPay * group.ratio) }

def settleByWeight (total : α) (people : Nat) (groups : List (Group α)) (rounding : Rounding) :
    Except (Fault α) (Settlement α) := do
  checkBill total people
  match groups.find? fun group => !isUsable group.ratio with
  | some group => throw (.ratioUnusable group.ratio)
  | none => pure ()
  let grouped := groups.foldr (fun group rest => group.count + rest) 0
  if people < grouped then throw (.groupsExceedPeople grouped people)
  let regularCount := people - grouped
  let weighted : α := sum (groups.map fun group => Amount.ofNat group.count * group.ratio)
  let shares := Amount.ofNat regularCount + weighted
  if Amount.isZero shares then throw .nobodyPays
  let regularPay := rounding.apply (total / shares)
  let groupShares := groups.map (Group.share rounding regularPay)
  let collected := paidTotal regularPay regularCount groupShares
  let remainder :=
    match rounding with
    | .truncate => total - collected
    | .upToHundred => collected - total
  return .weighted regularPay regularCount groupShares remainder

def Request.settle (request : Request α) : Except (Fault α) (Settlement α) :=
  if request.groups.isEmpty then settleEvenly request.total request.people request.rounding
  else settleByWeight request.total request.people request.groups request.rounding

end DeskCalculator.Split
