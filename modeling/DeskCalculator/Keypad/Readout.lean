/-!
The result line of a calculator.
-/
namespace DeskCalculator.Keypad

inductive Readout where
  | cleared
  | failed
  | result (text : String)
deriving Repr, DecidableEq

def Readout.text : Readout → String
  | cleared => "= 0"
  | failed => "Error"
  | result text => "= " ++ text

def dropLast (text : String) : String := String.ofList text.toList.dropLast

end DeskCalculator.Keypad
