/-!
Blank characters and the trimming of text. Blank means Unicode white space, so a text made of
wide or unbreakable spaces counts as empty wherever emptiness matters, although only four of
these characters may stand between the tokens of an expression.
-/
namespace DeskCalculator.Text

/-- White space in the sense of Unicode: the five control characters from the tab to the carriage
return, the space, and the blanks beyond ASCII. -/
def isBlank (c : Char) : Bool :=
  let n := c.toNat
  (9 ≤ n && n ≤ 13) || n == 0x20 || n == 0x85 || n == 0xA0 || n == 0x1680 ||
    (0x2000 ≤ n && n ≤ 0x200A) || n == 0x2028 || n == 0x2029 || n == 0x202F || n == 0x205F ||
    n == 0x3000

def isSeparator (c : Char) : Bool := c == ' ' || c == '\t' || c == '\n' || c == '\x0c'

def dropTail (p : Char → Bool) (text : List Char) : List Char :=
  (text.reverse.dropWhile p).reverse

def trimFront (text : List Char) : List Char := text.dropWhile isBlank

def trimBack (text : List Char) : List Char := dropTail isBlank text

def trim (text : List Char) : List Char := trimBack (trimFront text)

def isEmpty (text : String) : Bool := text.toList.all isBlank

def trimmed (text : String) : String := String.ofList (trim text.toList)

end DeskCalculator.Text
