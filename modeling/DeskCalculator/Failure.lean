import DeskCalculator.Reading.Lexeme

/-!
Failed calculations as the user sees them: one of three kinds, a message, and for malformed
expressions the place in the text. Each evaluator has causes of its own and says which failure a
cause amounts to.
-/
namespace DeskCalculator

open Reading (Span)

inductive FailureKind where
  /-- The text is no expression, or a name in it is misused. -/
  | malformed
  /-- The calculation has no finite result. -/
  | arithmetic
  /-- The request makes no sense. -/
  | invalid
deriving Repr, DecidableEq

def FailureKind.exitCode : FailureKind → Nat
  | malformed => 2
  | arithmetic => 3
  | invalid => 4

def FailureKind.caption : FailureKind → String
  | malformed => "Syntax error: "
  | arithmetic => "Math error: "
  | invalid => "Invalid input: "

/-- A failure with its message and, if there is one, the place it points at. -/
structure Failure where
  kind : FailureKind
  message : String
  span : Option Span := none
deriving Repr, DecidableEq

def Failure.text (f : Failure) : String := f.kind.caption ++ f.message

end DeskCalculator
