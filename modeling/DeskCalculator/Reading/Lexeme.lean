/-!
Cutting text into tokens. A vocabulary says which characters may stand between tokens and which
token stands at the front of a text; `scan` takes one token after the other and notes the bytes that
each covers. A character with which no token begins becomes an invalid token of its own, so scanning
never fails.
-/
namespace DeskCalculator.Reading

structure Span where
  start : Nat
  stop : Nat
deriving Repr, DecidableEq

structure Lexeme (τ : Type) where
  token : τ
  span : Span
deriving Repr, DecidableEq

/-- The tokens of a language. `front?` gives the longest token at the front of a text and its
length in characters, and `isSeparator` the characters that may stand between tokens. -/
class Vocabulary (τ : Type) where
  isSeparator : Char → Bool
  front? : List Char → Option (τ × Nat)
  invalid : τ
  text : τ → String

def byteLength (text : List Char) : Nat := text.foldr (fun c rest => c.utf8Size + rest) 0

variable {τ : Type} [Vocabulary τ]

/-- The token at the front of a text that does not begin with a separator, and its length, which
is at least one. -/
def frontToken (text : List Char) : τ × Nat :=
  match Vocabulary.front? text with
  | some (token, length) => (token, max 1 length)
  | none => (Vocabulary.invalid, 1)

/-- The lexemes of a text whose first character is the byte `offset`. -/
def scanFrom (offset : Nat) : List Char → List (Lexeme τ)
  | [] => []
  | c :: rest =>
    if Vocabulary.isSeparator τ c then scanFrom (offset + c.utf8Size) rest
    else
      let (token, length) := frontToken (τ := τ) (c :: rest)
      let stop := offset + byteLength ((c :: rest).take length)
      ⟨token, offset, stop⟩ :: scanFrom stop (rest.drop (length - 1))
termination_by text => text.length
decreasing_by all_goals (simp only [List.length_cons, List.length_drop]; omega)

def scan (τ : Type) [Vocabulary τ] (text : String) : List (Lexeme τ) := scanFrom 0 text.toList

end DeskCalculator.Reading
