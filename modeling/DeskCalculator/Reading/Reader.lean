import DeskCalculator.Reading.Complaint

/-!
Reading a token sequence from left to right. A reader holds what it has understood so far in a
state; a state either takes the next token or refuses it. The first refusal is the complaint. It
names what the state would have taken, unless the state objects to the token itself.
-/
namespace DeskCalculator.Reading

/-- A way of reading tokens into a result. `fixed` lists the tokens with only one spelling, which a
complaint may name as expected. -/
structure Reader (τ σ α : Type) where
  start : σ
  step : σ → Lexeme τ → Option σ
  finish : σ → Option α
  fixed : List τ
  /-- What is said of a refused token that is of a kind to be taken. -/
  objection? : σ → Lexeme τ → Option String := fun _ _ => none

namespace Reader

variable {τ σ α : Type} (reader : Reader τ σ α)

def expected (state : σ) : List (Option τ) :=
  ((reader.fixed.filter fun token => (reader.step state ⟨token, 0, 0⟩).isSome).map some) ++
    if (reader.finish state).isSome then [none] else []

def refusal (state : σ) (lexeme : Lexeme τ) : Complaint τ :=
  match reader.objection? state lexeme with
  | some message => .custom message lexeme.span
  | none => .unexpected (some lexeme.token) (reader.expected state) lexeme.span

/-- Reads lexemes from a state on; `length` is the byte length of the text, where the end of input
is complained about. -/
def readFrom (length : Nat) : σ → List (Lexeme τ) → Except (Complaint τ) α
  | state, [] =>
    match reader.finish state with
    | some result => .ok result
    | none => .error (.unexpected none (reader.expected state) ⟨length, length + 1⟩)
  | state, lexeme :: rest =>
    match reader.step state lexeme with
    | some next => readFrom length next rest
    | none => .error (reader.refusal state lexeme)

def read (length : Nat) (lexemes : List (Lexeme τ)) : Except (Complaint τ) α :=
  reader.readFrom length reader.start lexemes

end Reader

end DeskCalculator.Reading
