/-!
Command lines word by word: options with a long and perhaps a short name, flags that stand alone,
operands, and names of commands, which leave the remaining words to a grammar of their own. The
value of an option waits until the next option or operand has been recognized and is examined
only then, so of two faults the one that is recognized first wins.
-/
namespace DeskCalculator.CommandLine

inductive Refusal where
  /-- A word is neither a known option nor expected as an operand. -/
  | unknownArgument
  /-- A word stands where only the name of a command can. -/
  | unknownCommand
  /-- Something that cannot be left out is missing. -/
  | missingArgument
  /-- An option stands without its value. -/
  | missingValue
  /-- A flag is given a value. -/
  | unexpectedValue
  /-- A value cannot be read. -/
  | unreadableValue
  /-- An option is repeated, or excluded by another one. -/
  | conflict
deriving Repr, DecidableEq

inductive Stop where
  | help
  | version
  | refused (refusal : Refusal)
deriving Repr, DecidableEq

def Stop.exitCode : Stop → Nat
  | help | version => 0
  | refused _ => 2

inductive Effect (σ : Type) where
  | flag (apply : σ → Except Stop σ)
  /-- An option with a value; `negative` values such as `-3` are not taken for options. -/
  | value (apply : String → σ → Except Stop σ) (negative : Bool)

/-- An option with its names, which are written without hyphens. -/
structure CommandOption (σ : Type) where
  long : String
  short : Option Char
  effect : Effect σ

structure Grammar (σ : Type) where
  options : List (CommandOption σ)
  /-- Stores the operand, if the command has one. -/
  operand : Option (String → σ → σ)
  /-- The names of further commands. -/
  commands : List String

/-- An option whose value has not been examined, and perhaps not been found either. -/
structure Waiting (σ : Type) where
  apply : String → σ → Except Stop σ
  negative : Bool
  value : Option String

structure Progress (σ : Type) where
  draft : σ
  waiting : Option (Waiting σ) := none
  operandTaken : Bool := false

namespace Progress

variable {σ : Type}

def settle (progress : Progress σ) : Except Stop (Progress σ) :=
  match progress.waiting with
  | none => .ok progress
  | some waiting =>
    match waiting.value with
    | none => .error (.refused .missingValue)
    | some value => do
      let draft ← waiting.apply value progress.draft
      return { progress with draft, waiting := none }

def carryOut (progress : Progress σ) (apply : σ → Except Stop σ) : Except Stop (Progress σ) := do
  let progress ← progress.settle
  let draft ← apply progress.draft
  return { progress with draft }

def await (progress : Progress σ) (apply : String → σ → Except Stop σ) (negative : Bool) :
    Except Stop (Progress σ) := do
  let progress ← progress.settle
  return { progress with waiting := some ⟨apply, negative, none⟩ }

def expecting (progress : Progress σ) : Option (Waiting σ) :=
  progress.waiting.filter (·.value.isNone)

end Progress

/-- Digits with at most one point, not in front, and after them at most one exponent mark with
something behind it: what may follow a hyphen in a negative value. -/
def isMagnitude (text : List Char) : Bool :=
  let (mantissa, tail) := text.span (· != 'e')
  let (whole, fraction) := mantissa.span (· != '.')
  whole.all Char.isDigit &&
    (fraction.isEmpty || (!whole.isEmpty && (fraction.drop 1).all Char.isDigit)) &&
    (tail.isEmpty ||
      (!mantissa.isEmpty && !(tail.drop 1).isEmpty && (tail.drop 1).all Char.isDigit))

inductive Word where
  /-- Two hyphens, after which every word is an operand. -/
  | divider
  /-- Two hyphens and a name, perhaps with a value behind an equals sign. -/
  | long (name : String) (attached : Option String)
  /-- A hyphen and short names. -/
  | shorts (names : List Char)
  | plain
deriving Repr, DecidableEq

def splitAttached (text : List Char) : Word :=
  let (name, tail) := text.span (· != '=')
  match tail with
  | _ :: value => .long (String.ofList name) (some (String.ofList value))
  | [] => .long (String.ofList name) none

/-- What a word looks like. A single hyphen is plain. -/
def Word.ofString (word : String) : Word :=
  match word.toList with
  | ['-', '-'] => divider
  | '-' :: '-' :: text => splitAttached text
  | '-' :: c :: names => shorts (c :: names)
  | _ => plain

namespace Grammar

variable {σ : Type}

def long? (grammar : Grammar σ) (name : String) : Option (Effect σ) :=
  (grammar.options.find? (·.long == name)).map (·.effect)

def short? (grammar : Grammar σ) (name : Char) : Option (Effect σ) :=
  (grammar.options.find? (·.short == some name)).map (·.effect)

/-- Whether a word with a hyphen in front may still be an operand. -/
def operandFree (grammar : Grammar σ) (progress : Progress σ) : Bool :=
  grammar.operand.isSome && !progress.operandTaken

def takeOperand (grammar : Grammar σ) (progress : Progress σ) (word : String) :
    Except Stop (Progress σ) :=
  match grammar.operand, progress.operandTaken with
  | some store, false => do
    let progress ← progress.settle
    return { progress with draft := store word progress.draft, operandTaken := true }
  | _, _ =>
    .error (.refused (if grammar.commands.isEmpty then .unknownArgument else .unknownCommand))

def takePlain (grammar : Grammar σ) (progress : Progress σ) (word : String) :
    Except Stop (Progress σ) :=
  match progress.expecting with
  | some waiting => .ok { progress with waiting := some { waiting with value := some word } }
  | none => grammar.takeOperand progress word

/-- Takes an option by its long name. An unknown one may be meant as an operand. -/
def takeLong (grammar : Grammar σ) (progress : Progress σ) (word name : String)
    (attached : Option String) : Except Stop (Progress σ) :=
  match grammar.long? name, attached with
  | some (.flag apply), none => progress.carryOut apply
  | some (.flag _), some _ => .error (.refused .unexpectedValue)
  | some (.value apply negative), none => progress.await apply negative
  | some (.value apply _), some value => progress.carryOut (apply value)
  | none, _ =>
    if grammar.operandFree progress then grammar.takePlain progress word
    else .error (.refused .unknownArgument)

/-- Takes options by their short names. What follows the name of an option with a value is the
value, perhaps behind an equals sign. -/
def takeShorts (grammar : Grammar σ) (progress : Progress σ) :
    List Char → Except Stop (Progress σ)
  | [] => .ok progress
  | name :: rest =>
    match grammar.short? name, rest with
    | none, _ => .error (.refused .unknownArgument)
    | some (.flag apply), _ => do
      let progress ← progress.carryOut apply
      grammar.takeShorts progress rest
    | some (.value apply negative), [] => progress.await apply negative
    | some (.value apply _), '=' :: value => progress.carryOut (apply (String.ofList value))
    | some (.value apply _), value => progress.carryOut (apply (String.ofList value))

/-- Whether a word that looks like short names is a value or operand instead: a negative number
where one is expected, or any unknown name while the operand is free. -/
def isHyphenated (grammar : Grammar σ) (progress : Progress σ) (names : List Char) : Bool :=
  progress.expecting.any (·.negative) && isMagnitude names ||
    grammar.operandFree progress && names.any fun name => (grammar.short? name).isNone

def takeWord (grammar : Grammar σ) (progress : Progress σ) (word : String) :
    Except Stop (Progress σ) :=
  match Word.ofString word with
  | .long name attached => grammar.takeLong progress word name attached
  | .shorts names =>
    if grammar.isHyphenated progress names then grammar.takePlain progress word
    else grammar.takeShorts progress names
  | _ => grammar.takePlain progress word

def takeDivided (grammar : Grammar σ) (progress : Progress σ) (word : String) :
    Except Stop (Progress σ) :=
  if grammar.commands.contains word then .error (.refused .unknownArgument)
  else grammar.takeOperand progress word

/-- Reads words up to the name of a command, which is returned with the words behind it. The last
value is still to be examined. -/
def read (grammar : Grammar σ) (progress : Progress σ) :
    List String → Except Stop (Progress σ × Option (String × List String))
  | [] => .ok (progress, none)
  | word :: rest =>
    if progress.expecting.isNone && grammar.commands.contains word then
      .ok (progress, some (word, rest))
    else if Word.ofString word = .divider then do
      let progress ← rest.foldlM grammar.takeDivided progress
      return (progress, none)
    else do
      let progress ← grammar.takeWord progress word
      grammar.read progress rest

end Grammar

end DeskCalculator.CommandLine
