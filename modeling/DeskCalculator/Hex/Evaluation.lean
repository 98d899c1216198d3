import DeskCalculator.Failure
import DeskCalculator.Hex.Pending
import DeskCalculator.Text.Blank

/-!
Evaluating hexadecimal expressions in the integers of 64 bits with sign. Division truncates toward
zero, and a value outside the range is refused wherever it arises. A negative result is shown as
its 32-bit two's complement.
-/
namespace DeskCalculator.Hex

open Reading Number

inductive Fault where
  | empty
  | unreadable (complaint : Complaint Token)
  | divisionByZero
  | overflow
  | literalTooLarge (digits : String)
deriving Repr

namespace Fault

def message : Fault → String
  | empty => "empty expression"
  | unreadable complaint => complaint.message
  | divisionByZero => "division by zero"
  | overflow => "integer overflow"
  | literalTooLarge digits => "literal '" ++ digits ++ "' is too large"

def failure : Fault → Failure
  | empty => ⟨.malformed, empty.message, none⟩
  | unreadable complaint => ⟨.malformed, complaint.message, some complaint.span⟩
  | fault => ⟨.arithmetic, fault.message, none⟩

end Fault

def InRange (n : Int) : Prop := -0x8000000000000000 ≤ n ∧ n < 0x8000000000000000

instance (n : Int) : Decidable (InRange n) := inferInstanceAs (Decidable (_ ∧ _))

def checkRange (n : Int) (fault : Fault) : Except Fault Int :=
  if InRange n then .ok n else .error fault

def value : Tree → Except Fault Int
  | .literal digits _ => checkRange (hexValue digits.toList) (.literalTooLarge digits)
  | .signed sign body => do
    let x ← value body
    match sign with
    | .plus => return x
    | .minus => checkRange (-x) .overflow
  | .sum sign left right => do
    let x ← value left
    let y ← value right
    match sign with
    | .plus => checkRange (x + y) .overflow
    | .minus => checkRange (x - y) .overflow
  | .product scale left right => do
    let x ← value left
    let y ← value right
    match scale with
    | .times => checkRange (x * y) .overflow
    | .over => if y = 0 then .error .divisionByZero else checkRange (x.tdiv y) .overflow

def evaluate (text : String) : Except Fault Int :=
  if Text.isEmpty text then .error .empty
  else (Tree.ofText text).mapError .unreadable >>= value

/-- The remainder of an integer modulo 2 ^ 32, which is its 32-bit two's complement. -/
def twosComplement (n : Int) : Nat := (n % 0x100000000).toNat

def hexText (n : Int) : String :=
  String.ofList (radixText 16 (if n < 0 then twosComplement n else n.toNat))

def decText (n : Int) : String := String.ofList (integerText n)

def lastWord (text : List Char) : List Char := (text.reverse.takeWhile (· != ' ')).reverse

/-- The value of the operand being typed: the hexadecimal digits behind the last space, unless they
exceed 64 bits or something else stands there. -/
def preview (text : String) : Option Nat :=
  let word := lastWord text.toList
  if word.isEmpty || !word.all isHexDigit then none
  else if hexValue word < 0x10000000000000000 then some (hexValue word) else none

end DeskCalculator.Hex
