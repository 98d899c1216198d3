import DeskCalculator.Toml.Quoted
import DeskCalculator.Toml.Scalar

/-!
TOML documents. A document is a sequence of statements, one to a line: headers, which open tables,
and keys with values, which go into the table that was opened last. Every loop below goes on only
from a text that has become shorter.
-/
namespace DeskCalculator.Toml

def isBareKey (c : Char) : Bool := c.isAlphanum || c == '-' || c == '_'

def simpleKey? (text : List Char) : Option (String × List Char) :=
  match text with
  | '"' :: rest => (basic? rest).map fun (key, rest) => (String.ofList key, rest)
  | '\'' :: rest => (literal? rest).map fun (key, rest) => (String.ofList key, rest)
  | _ =>
    let key := text.takeWhile isBareKey
    if key.isEmpty then none else some (String.ofList key, text.drop key.length)

def keyParts? (text : List Char) : Option (List String × List Char) := do
  let (key, rest) ← simpleKey? (text.dropWhile isBlank)
  match rest.dropWhile isBlank with
  | '.' :: rest =>
    if rest.length < text.length then
      let (keys, rest) ← keyParts? rest
      return (key :: keys, rest)
    else none
  | rest => return ([key], rest)
termination_by text.length

/-- How deep keys and values may be nested. -/
def depthLimit : Nat := 79

def key? (text : List Char) : Option ((List String × String) × List Char) := do
  let (parts, rest) ← keyParts? text
  let last ← parts.getLast?
  if parts.length ≤ depthLimit then some ((parts.dropLast, last), rest) else none

/-- Skips blanks, line ends and comments. A comment that holds a control character stays in the
way. -/
def skipLines (inComment : Bool) : List Char → List Char
  | [] => []
  | '\n' :: rest => skipLines false rest
  | '\r' :: '\n' :: rest => skipLines false rest
  | c :: rest =>
    if inComment then (if isPlain c then skipLines true rest else c :: rest)
    else if isBlank c then skipLines false rest
    else if c = '#' then skipLines true rest
    else c :: rest

def items? (item? : List Char → Option (Value × List Char)) (text : List Char) :
    Option (List Value × List Char) :=
  match skipLines false text with
  | ']' :: rest => some ([], rest)
  | start => do
    let (value, rest) ← item? start
    match skipLines false rest with
    | ']' :: rest => return ([value], rest)
    | ',' :: rest =>
      if rest.length < text.length then
        let (values, rest) ← items? item? rest
        return (value :: values, rest)
      else none
    | _ => none
termination_by text.length

def keyValue? (item? : List Char → Option (Value × List Char)) (text : List Char) :
    Option (((List String × String) × Value) × List Char) := do
  let (key, rest) ← key? text
  match rest with
  | '=' :: rest =>
    let (value, rest) ← item? (rest.dropWhile isBlank)
    return ((key, value), rest)
  | _ => none

def pairs? (item? : List Char → Option (Value × List Char)) (text : List Char) :
    Option (List ((List String × String) × Value) × List Char) := do
  let (pair, rest) ← keyValue? item? text
  match rest.dropWhile isBlank with
  | '\x7d' :: rest => return ([pair], rest)
  | ',' :: rest =>
    if rest.length < text.length then
      let (pairs, rest) ← pairs? item? rest
      return (pair :: pairs, rest)
    else none
  | _ => none
termination_by text.length

def entriesOf? (pairs : List ((List String × String) × Value)) : Option Entries :=
  pairs.foldlM (fun entries pair => insert? pair.1.1 pair.1.2 pair.2 .header entries) []

def leaf? (text : List Char) : Option (Value × List Char) :=
  match text with
  | '"' :: _ | '\'' :: _ => (string? text).map fun (s, rest) => (.string (String.ofList s), rest)
  | _ => scalarValue? text

/-- The value at the front of a text, in which arrays and tables are nested at most as deep as
given. -/
def value? : (depth : Nat) → List Char → Option (Value × List Char)
  | depth + 1, '[' :: rest =>
    (items? (value? depth) rest).map fun (items, rest) => (.array items, rest)
  | depth + 1, '\x7b' :: rest =>
    match rest.dropWhile isBlank with
    | '\x7d' :: rest => some (.table .braces [], rest)
    | _ => do
      let (pairs, rest) ← pairs? (value? depth) rest
      let entries ← entriesOf? pairs
      return (.table .braces entries, rest)
  | _, text => leaf? text

inductive Statement where
  | table (keys : List String) (key : String)
  | element (keys : List String) (key : String)
  | entry (keys : List String) (key : String) (value : Value)
deriving Repr

def statement? (text : List Char) : Option (Statement × List Char) :=
  match text with
  | '[' :: '[' :: rest => do
    match ← key? rest with
    | ((keys, key), ']' :: ']' :: rest) => return (.element keys key, rest)
    | _ => none
  | '[' :: rest => do
    match ← key? rest with
    | ((keys, key), ']' :: rest) => return (.table keys key, rest)
    | _ => none
  | _ => do
    let (((keys, key), value), rest) ← keyValue? (value? depthLimit) text
    return (.entry keys key value, rest)

def afterComment (text : List Char) : List Char := text.dropWhile isPlain

def lineEnd? (text : List Char) : Option (List Char) :=
  let rest :=
    match text.dropWhile isBlank with
    | '#' :: rest => afterComment rest
    | rest => rest
  match rest with
  | [] => some []
  | '\n' :: rest => some rest
  | '\r' :: '\n' :: rest => some rest
  | _ => none

def statements? (text : List Char) : Option (List Statement) :=
  if text.isEmpty then some []
  else
    match lineEnd? text with
    | some rest => if rest.length < text.length then statements? rest else none
    | none => do
      let (statement, rest) ← statement? (text.dropWhile isBlank)
      let rest ← lineEnd? rest
      if rest.length < text.length then
        let statements ← statements? rest
        return statement :: statements
      else none
termination_by text.length

/-- A document while it grows: its entries, and the keys of the table that was opened last. -/
structure Growth where
  root : Entries := []
  current : List String := []

def Growth.add? (g : Growth) : Statement → Option Growth
  | .table keys key => (openTable? keys key g.root).map fun root => ⟨root, keys ++ [key]⟩
  | .element keys key => (openElement? keys key g.root).map fun root => ⟨root, keys ++ [key]⟩
  | .entry keys key value =>
    (descend false (insert? keys key value) g.current .header g.root).map fun root =>
      { g with root }

def dropByteOrderMark : List Char → List Char
  | c :: rest => if c.toNat = 0xFEFF then rest else c :: rest
  | [] => []

def ofText? (text : String) : Option Entries := do
  let statements ← statements? (dropByteOrderMark text.toList)
  let growth ← statements.foldlM Growth.add? {}
  return growth.root

end DeskCalculator.Toml
