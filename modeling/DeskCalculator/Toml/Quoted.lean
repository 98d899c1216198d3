import DeskCalculator.Number.Radix

/-!
Strings in TOML. There are four styles: with or without escapes, on one line or on several. Reading
takes all of them. Writing chooses the plainest style that needs no escape, and escapes only when no
style can do without.
-/
namespace DeskCalculator.Toml

open Number

/-- A character that may stand in a comment or a string as it is: a tab, or no control character. -/
def isPlain (c : Char) : Bool := c == '\t' || (0x20 ≤ c.toNat && c.toNat != 0x7F)

def isBlank (c : Char) : Bool := c == ' ' || c == '\t'

def escaped? : Char → Option Char
  | 'b' => some '\x08'
  | 't' => some '\t'
  | 'n' => some '\n'
  | 'f' => some '\x0c'
  | 'r' => some '\r'
  | '"' => some '"'
  | '\\' => some '\\'
  | _ => none

def scalar? (digits : List Char) : Option Char :=
  let n := hexValue digits
  if digits.all isHexDigit && (n < 0xD800 || (0xDFFF < n && n < 0x110000)) then some (Char.ofNat n)
  else none

def prepend (c? : Option Char) (read? : Option (List Char × List Char)) :
    Option (List Char × List Char) :=
  match c?, read? with
  | some c, some (text, rest) => some (c :: text, rest)
  | _, _ => none

def basic? : List Char → Option (List Char × List Char)
  | [] => none
  | '"' :: rest => some ([], rest)
  | '\\' :: 'u' :: a :: b :: c :: d :: rest => prepend (scalar? [a, b, c, d]) (basic? rest)
  | '\\' :: 'U' :: a :: b :: c :: d :: e :: f :: g :: h :: rest =>
    prepend (scalar? [a, b, c, d, e, f, g, h]) (basic? rest)
  | '\\' :: c :: rest => prepend (escaped? c) (basic? rest)
  | c :: rest => if isPlain c && c != '\\' then prepend (some c) (basic? rest) else none

def endsLine (text : List Char) : Bool :=
  match text.dropWhile isBlank with
  | '\n' :: _ => true
  | '\r' :: '\n' :: _ => true
  | _ => false

/-- Reads a string with escapes that may span lines. While `joining`, blanks and line ends are
skipped, since a backslash at the end of a line joins it to the next text. One or two quotes may
stand inside and also in front of the closing ones. -/
def longBasic? (joining : Bool) : List Char → Option (List Char × List Char)
  | [] => none
  | '"' :: '"' :: '"' :: '"' :: '"' :: rest => some (['"', '"'], rest)
  | '"' :: '"' :: '"' :: '"' :: rest => some (['"'], rest)
  | '"' :: '"' :: '"' :: rest => some ([], rest)
  | '\r' :: '\n' :: rest =>
    if joining then longBasic? true rest else prepend (some '\n') (longBasic? false rest)
  | '\n' :: rest =>
    if joining then longBasic? true rest else prepend (some '\n') (longBasic? false rest)
  | '\\' :: 'u' :: a :: b :: c :: d :: rest =>
    prepend (scalar? [a, b, c, d]) (longBasic? false rest)
  | '\\' :: 'U' :: a :: b :: c :: d :: e :: f :: g :: h :: rest =>
    prepend (scalar? [a, b, c, d, e, f, g, h]) (longBasic? false rest)
  | '\\' :: c :: rest =>
    if endsLine (c :: rest) then longBasic? true (c :: rest)
    else prepend (escaped? c) (longBasic? false rest)
  | c :: rest =>
    if joining && isBlank c then longBasic? true rest
    else if isPlain c && c != '\\' then prepend (some c) (longBasic? false rest)
    else none

def literal? : List Char → Option (List Char × List Char)
  | [] => none
  | '\'' :: rest => some ([], rest)
  | c :: rest => if isPlain c then prepend (some c) (literal? rest) else none

def longLiteral? : List Char → Option (List Char × List Char)
  | [] => none
  | '\'' :: '\'' :: '\'' :: '\'' :: '\'' :: rest => some (['\'', '\''], rest)
  | '\'' :: '\'' :: '\'' :: '\'' :: rest => some (['\''], rest)
  | '\'' :: '\'' :: '\'' :: rest => some ([], rest)
  | '\r' :: '\n' :: rest => prepend (some '\n') (longLiteral? rest)
  | '\n' :: rest => prepend (some '\n') (longLiteral? rest)
  | c :: rest => if isPlain c then prepend (some c) (longLiteral? rest) else none

def dropLineEnd : List Char → List Char
  | '\n' :: rest => rest
  | '\r' :: '\n' :: rest => rest
  | text => text

def string? : List Char → Option (List Char × List Char)
  | '"' :: '"' :: '"' :: rest => longBasic? false (dropLineEnd rest)
  | '"' :: rest => basic? rest
  | '\'' :: '\'' :: '\'' :: rest => longLiteral? (dropLineEnd rest)
  | '\'' :: rest => literal? rest
  | _ => none

def longestRun (mark : Char) (run : Nat) : List Char → Nat
  | [] => run
  | c :: rest =>
    if c = mark then longestRun mark (run + 1) rest else max run (longestRun mark 0 rest)

def needsEscape (c : Char) : Bool := !isPlain c && c != '\n'

inductive Style where
  | basic
  | literal
  | longBasic
  | longLiteral
deriving Repr, DecidableEq

def styleOf (text : List Char) : Style :=
  let hard := text.any needsEscape
  let backslash := text.contains '\\'
  let lines := text.contains '\n'
  let quotes := longestRun '"' 0 text
  let apostrophes := longestRun '\'' 0 text
  if !hard && !backslash && quotes == 0 && !lines then .basic
  else if !hard && apostrophes == 0 && !lines then .literal
  else if !hard && !backslash && quotes ≤ 2 then .longBasic
  else if !hard && apostrophes ≤ 2 then .longLiteral
  else if lines then .longBasic
  else .basic

def fourDigits (n : Nat) : List Char :=
  [digitChar (n / 4096 % 16), digitChar (n / 256 % 16), digitChar (n / 16 % 16), digitChar (n % 16)]

/-- A character other than the quote, with the escape that it may need. Line ends stand as they are
in a string that spans lines. -/
def encodeChar (long : Bool) (c : Char) : List Char :=
  if c = '\x08' then ['\\', 'b']
  else if c = '\t' then ['\\', 't']
  else if c = '\n' then (if long then ['\n'] else ['\\', 'n'])
  else if c = '\x0c' then ['\\', 'f']
  else if c = '\r' then ['\\', 'r']
  else if c = '\\' then ['\\', '\\']
  else if needsEscape c then '\\' :: 'u' :: fourDigits c.toNat
  else [c]

/-- The text between quotes, of which `run` stand directly in front. On one line every quote is
escaped, and across lines every third one of a run. -/
def encodeBasic (long : Bool) (run : Nat) : List Char → List Char
  | [] => []
  | c :: rest =>
    if c = '"' then
      if run < (if long then 2 else 0) then '"' :: encodeBasic long (run + 1) rest
      else '\\' :: '"' :: encodeBasic long 0 rest
    else encodeChar long c ++ encodeBasic long 0 rest

/-- The line end that opens a string with several lines, so that they all start at the margin. -/
def openingLine (text : List Char) : List Char := if text.contains '\n' then ['\n'] else []

def quote (text : List Char) : List Char :=
  match styleOf text with
  | .basic => '"' :: (encodeBasic false 0 text ++ ['"'])
  | .literal => '\'' :: (text ++ ['\''])
  | .longBasic =>
    ['"', '"', '"'] ++ openingLine text ++ encodeBasic true 0 text ++ ['"', '"', '"']
  | .longLiteral => ['\'', '\'', '\''] ++ openingLine text ++ text ++ ['\'', '\'', '\'']

end DeskCalculator.Toml
