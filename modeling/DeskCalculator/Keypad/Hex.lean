import DeskCalculator.Hex.Evaluation
import DeskCalculator.Keypad.Readout

/-!
The hexadecimal calculator: an input line, the result line, and a live preview that shows the
operand being typed in decimal.
-/
namespace DeskCalculator.Keypad

abbrev Preview := Option String

def Preview.text (preview : Preview) : String := "DEC: " ++ preview.getD "-"

def Preview.ofInput (input : String) : Preview :=
  (Hex.preview input).map fun n => String.ofList (Number.decimalText n)

structure HexPad where
  input : String := ""
  readout : Readout := .cleared
  preview : Preview := some "0"
deriving Repr, DecidableEq

namespace HexPad

def append (pad : HexPad) (digits : String) : HexPad :=
  let input := pad.input ++ digits
  { pad with input, preview := .ofInput input }

/-- Types an operator with a space on each side; the preview stays. -/
def appendOperator (pad : HexPad) (operator : String) : HexPad :=
  { pad with input := pad.input ++ " " ++ operator ++ " " }

def clear (_ : HexPad) : HexPad := {}

def backspace (pad : HexPad) : HexPad :=
  let input := String.ofList (Text.trimBack pad.input.toList).dropLast
  { pad with input, preview := .ofInput input }

/-- Calculates the input line, unless it is empty. The preview then shows the result in decimal. -/
def calculate (pad : HexPad) : Option (Except Hex.Fault Int) × HexPad :=
  if Text.isEmpty pad.input then (none, pad)
  else
    match Hex.evaluate pad.input with
    | .ok n =>
      (some (.ok n),
        { pad with readout := .result (Hex.hexText n), preview := some (Hex.decText n) })
    | .error fault => (some (.error fault), { pad with readout := .failed })

end HexPad

end DeskCalculator.Keypad
