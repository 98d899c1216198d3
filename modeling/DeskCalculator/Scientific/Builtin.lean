import DeskCalculator.Number.Double
import DeskCalculator.Scientific.Mode

/-!
The names that expressions may use. A function name stands for one builtin while the inverse flag
is off and for another while it is on. Outside its domain a builtin gives no number or an infinity,
which the evaluator refuses at the end.
-/
namespace DeskCalculator.Scientific

inductive Builtin where
  | sine
  | cosine
  | tangent
  | arcsine
  | arccosine
  | arctangent
  | logarithm
  | powerOfTen
  | naturalLogarithm
  | exponential
  | squareRoot
  | square
  | power
  | root
  | factorial
deriving Repr, DecidableEq

namespace Builtin

def name : Builtin → String
  | sine => "sin"
  | cosine => "cos"
  | tangent => "tan"
  | arcsine => "asin"
  | arccosine => "acos"
  | arctangent => "atan"
  | logarithm => "log"
  | powerOfTen => "tenpow"
  | naturalLogarithm => "ln"
  | exponential => "exp"
  | squareRoot => "sqrt"
  | square => "sq"
  | power => "pow"
  | root => "root"
  | factorial => "fact"

def arity : Builtin → Nat
  | power | root => 2
  | _ => 1

/-- The factors of a factorial beyond one. With the last of them, 171, the product is infinite, so
larger factors would change nothing. -/
def factors : List Nat := (List.range 170).map (· + 2)

/-- The product of the integers from two to `n`. A fraction counts as the integer below it, and a
negative number has no factorial. -/
def factorialOf (n : Float) : Float :=
  if n.isNaN || n < 0.0 then 0.0 / 0.0
  else ((factors.map Number.ofNat).takeWhile (· ≤ n)).foldl (· * ·) 1.0

def apply (unit : AngleUnit) : Builtin → List Float → Float
  | sine, [x] => (unit.toRadians x).sin
  | cosine, [x] => (unit.toRadians x).cos
  | tangent, [x] => (unit.toRadians x).tan
  | arcsine, [x] => unit.ofRadians x.asin
  | arccosine, [x] => unit.ofRadians x.acos
  | arctangent, [x] => unit.ofRadians x.atan
  | logarithm, [x] => x.log10
  | powerOfTen, [x] => Float.pow 10.0 x
  | naturalLogarithm, [x] => x.log
  | exponential, [x] => x.exp
  | squareRoot, [x] => x.sqrt
  | square, [x] => x * x
  | power, [x, y] => x.pow y
  | root, [x, y] => x.pow (1.0 / y)
  | factorial, [x] => factorialOf x
  | _, _ => 0.0 / 0.0

end Builtin

structure Binding where
  name : String
  direct : Builtin
  inverse : Builtin
deriving Repr, DecidableEq

def Binding.builtin (b : Binding) (inverse : Bool) : Builtin :=
  if inverse then b.inverse else b.direct

def bindings : List Binding :=
  [⟨"sin", .sine, .arcsine⟩, ⟨"cos", .cosine, .arccosine⟩, ⟨"tan", .tangent, .arctangent⟩,
   ⟨"log", .logarithm, .powerOfTen⟩, ⟨"ln", .naturalLogarithm, .exponential⟩,
   ⟨"sqrt", .squareRoot, .square⟩, ⟨"pow", .power, .root⟩, ⟨"fact", .factorial, .factorial⟩]

def function? (name : String) (mode : Mode) : Option Builtin :=
  (bindings.find? (·.name == name)).map (·.builtin mode.inverse)

def powerBuiltin (mode : Mode) : Builtin := if mode.inverse then .root else .power

def constants : List (String × Float) := [("PI", AngleUnit.pi), ("E", 2.718281828459045)]

def constant? (name : String) : Option Float :=
  (constants.find? (·.1 == name)).map (·.2)

def answerName : String := "Ans"

def symbolNames : List String :=
  bindings.map (·.name) ++ constants.map (·.1) ++ [answerName]

end DeskCalculator.Scientific
