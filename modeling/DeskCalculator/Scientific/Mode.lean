/-!
The mode of the scientific calculator: the unit of angles and the inverse flag.
-/
namespace DeskCalculator.Scientific

inductive AngleUnit where
  | degrees
  | radians
deriving Repr, DecidableEq

namespace AngleUnit

def toggled : AngleUnit → AngleUnit
  | degrees => radians
  | radians => degrees

def label : AngleUnit → String
  | degrees => "DEG"
  | radians => "RAD"

def pi : Float := 3.141592653589793

def toRadians (x : Float) : AngleUnit → Float
  | degrees => x * pi / 180.0
  | radians => x

def ofRadians (x : Float) : AngleUnit → Float
  | degrees => x * 180.0 / pi
  | radians => x

theorem toggled_toggled (unit : AngleUnit) : unit.toggled.toggled = unit := by cases unit <;> rfl

end AngleUnit

structure Mode where
  unit : AngleUnit := .degrees
  inverse : Bool := false
deriving Repr, DecidableEq

end DeskCalculator.Scientific
