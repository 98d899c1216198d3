import DeskCalculator.Keypad.Readout
import DeskCalculator.Number.Display
import DeskCalculator.Scientific.Evaluation

/-!
The scientific calculator: an input line, the mode, the previous result and the result line.
Switching a flag of the mode calculates the input line again.
-/
namespace DeskCalculator.Scientific

/-- The mode and the previous result, zero before the first one. -/
structure Memory where
  mode : Mode := {}
  ans : Float := 0.0
deriving Repr, DecidableEq

def Memory.evaluate (m : Memory) (text : String) : Except Fault Float × Memory :=
  match Scientific.evaluate text m.mode m.ans with
  | .ok x => (.ok x, { m with ans := x })
  | .error fault => (.error fault, m)

end DeskCalculator.Scientific

namespace DeskCalculator.Keypad

open Scientific

inductive Constant where
  | pi
  | e
deriving Repr, DecidableEq

def Constant.symbol : Constant → String
  | pi => "PI"
  | e => "E"

structure ScientificPad where
  input : String := ""
  readout : Readout := .cleared
  memory : Memory := {}
deriving Repr, DecidableEq

namespace ScientificPad

def ofMode (mode : Mode) : ScientificPad := { memory := { mode } }

def append (pad : ScientificPad) (text : String) : ScientificPad :=
  { pad with input := pad.input ++ text }

/-- Presses a function key. The power key types its operator, any other key opens a call. -/
def appendFunction (pad : ScientificPad) (name : String) : ScientificPad :=
  pad.append (if name = "pow" then "^" else name ++ "(")

def appendConstant (pad : ScientificPad) (constant : Constant) : ScientificPad :=
  pad.append constant.symbol

/-- Clears the input and the result line; mode and previous result stay. -/
def clear (pad : ScientificPad) : ScientificPad := { pad with input := "", readout := .cleared }

def backspace (pad : ScientificPad) : ScientificPad := { pad with input := dropLast pad.input }

def calculate (pad : ScientificPad) : Option (Except Fault Float) × ScientificPad :=
  if Text.isEmpty pad.input then (none, pad)
  else
    match pad.memory.evaluate pad.input with
    | (.ok x, memory) => (some (.ok x), { pad with readout := .result (Number.plain x), memory })
    | (.error fault, memory) => (some (.error fault), { pad with readout := .failed, memory })

/-- Changes the mode and calculates the input line again. -/
def switch (pad : ScientificPad) (change : Mode → Mode) : ScientificPad :=
  { pad with memory.mode := change pad.memory.mode }.calculate.2

def toggleUnit (pad : ScientificPad) : ScientificPad :=
  pad.switch fun mode => { mode with unit := mode.unit.toggled }

def toggleInverse (pad : ScientificPad) : ScientificPad :=
  pad.switch fun mode => { mode with inverse := !mode.inverse }

end ScientificPad

end DeskCalculator.Keypad
