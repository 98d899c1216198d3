/-!
The lines of a text. A line ends with a line feed, a carriage return, both in this order, or one of
the other line ends of Unicode, and keeps its end.
-/
namespace DeskCalculator.Text

/-- A line with its end, and the number of characters in front of it. -/
structure Line where
  offset : Nat
  text : List Char
deriving Repr, DecidableEq

def isLineEnd (c : Char) : Bool :=
  let n := c.toNat
  (10 ≤ n && n ≤ 13) || n == 0x85 || n == 0x2028 || n == 0x2029

def lineTexts : List Char → List (List Char)
  | [] => []
  | '\r' :: '\n' :: rest => ['\r', '\n'] :: lineTexts rest
  | c :: rest =>
    if isLineEnd c then [c] :: lineTexts rest
    else
      match lineTexts rest with
      | [] => [[c]]
      | line :: lines => (c :: line) :: lines

def linesFrom (offset : Nat) : List (List Char) → List Line
  | [] => []
  | text :: rest => ⟨offset, text⟩ :: linesFrom (offset + text.length) rest

def lines (text : List Char) : List Line := linesFrom 0 (lineTexts text)

def lineAt (lines : List Line) (offset : Nat) : Nat :=
  (lines.takeWhile fun line => line.offset ≤ offset).length - 1

end DeskCalculator.Text
