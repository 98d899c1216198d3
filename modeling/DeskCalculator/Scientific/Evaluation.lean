import DeskCalculator.Expression.Keystroke
import DeskCalculator.Expression.Pending
import DeskCalculator.Failure
import DeskCalculator.Scientific.Builtin
import DeskCalculator.Text.Blank

/-!
Evaluating scientific expressions: text is normalized, cut into tokens, read as a tree and computed
from left to right. A misused name stops the computation at once; whether the value is finite is
asked only at the end.
-/
namespace DeskCalculator.Scientific

open Expression Reading

inductive Fault where
  | empty
  | unreadable (complaint : Complaint Token)
  | unknownSymbol (name : String) (span : Span)
  | functionAsSymbol (name : String) (span : Span)
  | unknownFunction (name : String) (span : Span)
  | notAFunction (name : String) (span : Span)
  | wrongArity (name : String) (takes found : Nat) (span : Span)
  | notANumber
  | infinite
deriving Repr

namespace Fault

private def quote (name : String) : String := "'" ++ name ++ "'"

def kind : Fault → FailureKind
  | notANumber | infinite => .arithmetic
  | _ => .malformed

def span : Fault → Option Span
  | unreadable complaint => some complaint.span
  | unknownSymbol _ span | functionAsSymbol _ span | unknownFunction _ span | notAFunction _ span
  | wrongArity _ _ _ span => some span
  | empty | notANumber | infinite => none

def message : Fault → String
  | empty => "empty expression"
  | unreadable complaint => complaint.message
  | unknownSymbol name _ => "unknown symbol " ++ quote name
  | functionAsSymbol name _ => quote name ++ " is a function; call it as " ++ name ++ "(...)"
  | unknownFunction name _ => "unknown function " ++ quote name
  | notAFunction name _ => quote name ++ " is not a function"
  | wrongArity name takes found _ =>
    quote name ++ " takes " ++ String.ofList (Number.decimalText takes) ++
      (if takes = 1 then " argument" else " arguments") ++ ", found " ++
      String.ofList (Number.decimalText found)
  | notANumber => "result is not a number"
  | infinite => "result is infinite"

def failure (f : Fault) : Failure := ⟨f.kind, f.message, f.span⟩

end Fault

def symbolValue (mode : Mode) (ans : Float) (name : String) (span : Span) : Except Fault Float :=
  if name = answerName then .ok ans
  else
    match constant? name with
    | some value => .ok value
    | none =>
      if (function? name mode).isSome then .error (.functionAsSymbol name span)
      else .error (.unknownSymbol name span)

def callee (mode : Mode) (name : String) (span : Span) (count : Nat) : Except Fault Builtin :=
  match function? name mode with
  | none =>
    if name = answerName ∨ (constant? name).isSome then .error (.notAFunction name span)
    else .error (.unknownFunction name span)
  | some builtin =>
    if count = builtin.arity then .ok builtin
    else .error (.wrongArity name builtin.arity count span)

def applySign : Sign → Float → Float
  | .plus, x => x
  | .minus, x => -x

def applySum : Sign → Float → Float → Float
  | .plus, x, y => x + y
  | .minus, x, y => x - y

def applyProduct : Scale → Float → Float → Float
  | .times, x, y => x * y
  | .over, x, y => x / y

mutual

def value (mode : Mode) (ans : Float) : Tree → Except Fault Float
  | .number x => .ok x
  | .symbol name span => symbolValue mode ans name span
  | .signed sign body => do
    let x ← value mode ans body
    return applySign sign x
  | .sum sign left right => do
    let x ← value mode ans left
    let y ← value mode ans right
    return applySum sign x y
  | .product scale left right => do
    let x ← value mode ans left
    let y ← value mode ans right
    return applyProduct scale x y
  | .power base exponent => do
    let x ← value mode ans base
    let y ← value mode ans exponent
    return (powerBuiltin mode).apply mode.unit [x, y]
  | .call name span arguments => do
    let builtin ← callee mode name span arguments.length
    let xs ← values mode ans arguments
    return builtin.apply mode.unit xs

def values (mode : Mode) (ans : Float) : List Tree → Except Fault (List Float)
  | [] => .ok []
  | tree :: rest => do
    let x ← value mode ans tree
    let xs ← values mode ans rest
    return x :: xs

end

def checkFinite (x : Float) : Except Fault Float :=
  if x.isNaN then .error .notANumber
  else if x.isInf then .error .infinite
  else .ok x

def parse (normalized : String) : Except Fault Tree :=
  if Text.isEmpty normalized then .error .empty
  else (Tree.ofText normalized).mapError .unreadable

/-- The finite value of a text, with `ans` as the value of the previous result. -/
def evaluate (text : String) (mode : Mode) (ans : Float) : Except Fault Float := do
  let tree ← parse (normalize text)
  let x ← value mode ans tree
  checkFinite x

end DeskCalculator.Scientific
