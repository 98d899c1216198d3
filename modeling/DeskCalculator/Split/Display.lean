import DeskCalculator.Failure
import DeskCalculator.Number.Display
import DeskCalculator.Split.Settlement

/-!
Settlements and refused bills in words.
-/
namespace DeskCalculator.Split

def Fault.message : Fault Float → String
  | totalUnreadable => "total is not a number"
  | totalNotPositive => "total must be a positive amount"
  | peopleNotPositive => "people must be a positive integer"
  | ratioUnusable ratio =>
    "ratio must be a positive finite number, found " ++ Number.shortest ratio
  | groupsExceedPeople grouped people =>
    "groups exceed total headcount (" ++ String.ofList (Number.decimalText grouped) ++ " > " ++
      String.ofList (Number.decimalText people) ++ ")"
  | nobodyPays => "nobody to split the total between"

def Fault.failure (f : Fault Float) : Failure := ⟨.invalid, f.message, none⟩

structure Display where
  perPerson : String
  remainder : String
  groups : List String
deriving Repr, DecidableEq

def GroupShare.line (g : GroupShare Float) : String :=
  String.ofList (Number.decimalText g.count) ++ " x " ++ Number.shortest g.ratio ++ ": " ++
    Number.grouped g.pay

def Display.ofSettlement (s : Settlement Float) : Display where
  perPerson := Number.grouped s.regularPay
  remainder := Number.grouped s.remainder
  groups := s.groups.map GroupShare.line

end DeskCalculator.Split
