import DeskCalculator.Json.Token
import DeskCalculator.Reading.Reader

/-!
JSON values and how they are read. An open array or object keeps what it has received so far; the
members of an object stay in order and may repeat a key.
-/
namespace DeskCalculator.Json

open Reading

inductive Value where
  | null
  | boolean (value : Bool)
  | number (natural? : Option Nat)
  | string (text? : Option String)
  | array (items : List Value)
  | object (members : List (Option String × Value))
deriving Repr

/-- An array or object that is still open, with its items or members in reverse. An object also
holds the key whose value is at hand. -/
inductive Opening where
  | array (items : List Value)
  | object (members : List (Option String × Value)) (key : Option String)

inductive Phase where
  /-- A value. -/
  | value
  /-- The first item of an array, or its end. -/
  | item
  /-- The first key of an object, or its end. -/
  | member
  /-- A key. -/
  | key
  /-- The colon behind a key. -/
  | colon
  /-- What follows a complete value. -/
  | complete (value : Value)

structure Progress where
  phase : Phase := .value
  outer : List Opening := []

namespace Progress

def takeValue (p : Progress) : Token → Option Progress
  | .null => some { p with phase := .complete .null }
  | .boolean b => some { p with phase := .complete (.boolean b) }
  | .number natural? => some { p with phase := .complete (.number natural?) }
  | .string text? => some { p with phase := .complete (.string text?) }
  | .leftBracket => some ⟨.item, .array [] :: p.outer⟩
  | .leftBrace => some ⟨.member, p.outer⟩
  | _ => none

def takeNext (p : Progress) (value : Value) (token : Token) : Option Progress :=
  match token, p.outer with
  | .comma, .array items :: outer => some ⟨.value, .array (value :: items) :: outer⟩
  | .rightBracket, .array items :: outer =>
    some ⟨.complete (.array (value :: items).reverse), outer⟩
  | .comma, .object members key :: outer =>
    some ⟨.key, .object ((key, value) :: members) key :: outer⟩
  | .rightBrace, .object members key :: outer =>
    some ⟨.complete (.object ((key, value) :: members).reverse), outer⟩
  | _, _ => none

def take? (p : Progress) (lexeme : Lexeme Token) : Option Progress :=
  match p.phase, lexeme.token, p.outer with
  | .value, token, _ => p.takeValue token
  | .item, .rightBracket, .array _ :: outer => some ⟨.complete (.array []), outer⟩
  | .item, token, _ => p.takeValue token
  | .member, .rightBrace, outer => some ⟨.complete (.object []), outer⟩
  | .member, .string key, outer => some ⟨.colon, .object [] key :: outer⟩
  | .key, .string key, .object members _ :: outer => some ⟨.colon, .object members key :: outer⟩
  | .colon, .colon, _ => some { p with phase := .value }
  | .complete value, token, _ => p.takeNext value token
  | _, _, _ => none

def value? (p : Progress) : Option Value :=
  match p.phase, p.outer with
  | .complete value, [] => some value
  | _, _ => none

end Progress

def Value.reader : Reader Token Progress Value where
  start := {}
  step := Progress.take?
  finish := Progress.value?
  fixed := []

def Value.ofText? (text : String) : Option Value :=
  (Value.reader.read text.utf8ByteSize (scan Token text)).toOption

end DeskCalculator.Json
