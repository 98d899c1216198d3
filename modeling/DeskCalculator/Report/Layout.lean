import DeskCalculator.Number.Radix
import DeskCalculator.Report.Label
import DeskCalculator.Text.Blank
import DeskCalculator.Text.Width

/-!
The layout of a report: a heading and, if a label can be shown, the lines that it marks with line
numbers in front, and under them an arrow to the message. What stands under a character is as wide
as that character.
-/
namespace DeskCalculator.Report

open Reading (Span)
open Text (Line)

def heading : FailureKind → String
  | .malformed => "[E001] Error: Syntax Error"
  | .arithmetic => "[E002] Error: Math Error"
  | .invalid => "[E003] Error: Invalid Input"

/-! ### Characters -/

def tabWidth : Nat := 4

def widthAt (index : Nat) (c : Char) : Nat :=
  if c = '\t' then (index / tabWidth + 1) * tabWidth - index
  else if Text.isBlank c then 1
  else Text.columns c

def shownAt (index : Nat) (c : Char) : List Char :=
  if Text.isBlank c then List.replicate (widthAt index c) ' ' else [c]

def visible (line : Line) : List Char := Text.trimBack line.text

def shownLine (line : Line) : List Char :=
  (visible line).zipIdx.flatMap fun (c, index) => shownAt index c

/-- A cell under a character: what stands in its first column, and what fills the others. -/
structure Cell where
  mark : Char
  filler : Char

def Cell.text (cell : Cell) (columns : Nat) : List Char :=
  (cell.mark :: List.replicate (columns - 1) cell.filler).take columns

def cellsFrom (cell : Nat → Cell) (index : Nat) : (count : Nat) → List Char → List Char
  | 0, _ => []
  | count + 1, c :: rest =>
    (cell index).text (widthAt index c) ++ cellsFrom cell (index + 1) count rest
  | count + 1, [] => (cell index).text 1 ++ cellsFrom cell (index + 1) count []

def cells (line : Line) (count : Nat) (cell : Nat → Cell) : List Char :=
  cellsFrom cell 0 count (visible line)

def Cell.blank : Cell := ⟨' ', ' '⟩

def Cell.rule : Cell := ⟨'─', '─'⟩

/-! ### Margins -/

def numbered (digits number : Nat) : List Char :=
  let text := Number.decimalText number
  ' ' :: List.replicate (digits - text.length) ' ' ++ text ++ " │ ".toList

def unnumbered (digits : Nat) : List Char := List.replicate (digits + 2) ' '

def place (file : String) (lines : List Line) (length offset : Nat) : List Char :=
  let position :=
    if offset ≤ length then
      let index := Text.lineAt lines offset
      let start := ((lines[index]?).map Line.offset).getD 0
      Number.decimalText (index + 1) ++ ':' :: Number.decimalText (offset - start + 1)
    else "?:?".toList
  "╭─[".toList ++ file.toList ++ ':' :: position ++ [']']

/-! ### Labels -/

def arrowTail : Nat := 2

def lineLabel (digits number : Nat) (line : Line) (marked : Span) (message : String) :
    List (List Char) :=
  let margin := unnumbered digits ++ "│ ".toList
  let count := marked.stop - line.offset + arrowTail
  let middle := (marked.start + marked.stop) / 2 - line.offset
  let isMarked (index : Nat) : Bool :=
    marked.start ≤ line.offset + index && line.offset + index < marked.stop
  let underline (index : Nat) : Cell :=
    if index = middle then if isMarked index then ⟨'┬', '─'⟩ else ⟨'│', ' '⟩
    else if isMarked index then .rule
    else .blank
  let arrow (index : Nat) : Cell :=
    if index < middle then .blank else if index = middle then ⟨'╰', '─'⟩ else .rule
  [numbered digits number ++ shownLine line,
    margin ++ cells line count underline,
    margin ++ cells line count arrow ++ ' ' :: message.toList]

def blockEnd (digits number : Nat) (line : Line) (message : String) : List (List Char) :=
  let count := line.text.length + arrowTail
  [numbered digits number ++ "├─▶ ".toList ++ shownLine line,
    unnumbered digits ++ "│ │   ".toList ++ cells line count fun _ => .blank,
    unnumbered digits ++ "│ ╰───".toList ++ cells line count (fun _ => .rule) ++
      ' ' :: message.toList]

/-- Whether a label ends within a line. One that points at the end of the text may end behind it,
and then nothing is drawn at its end. -/
def endsWithin (marked : Span) (line : Line) : Bool :=
  marked.stop ≤ line.offset + line.text.length

def lineRows (digits number : Nat) (line : Line) (marked : Span) (message : String) :
    List (List Char) :=
  if endsWithin marked line then lineLabel digits number line marked message
  else [unnumbered digits ++ "│ ".toList]

/-- A label over several lines: the first of them with an arrow at its front, a gap for those that
are left out, and the end. -/
def blockRows (digits number : Nat) (first : Line) (between : Nat) (last : Line) (marked : Span)
    (message : String) : List (List Char) :=
  let gap :=
    if between = 0 && endsWithin marked last then [] else [unnumbered digits ++ "┆ ┆   ".toList]
  (numbered digits number ++ "╭─▶ ".toList ++ shownLine first) :: gap ++
    if endsWithin marked last then blockEnd digits (number + between + 1) last message else []

def labelRows (file source : String) (span : Span) (message : String) : List (List Char) :=
  let text := padded source
  let lines := Text.lines text
  let marked := markedSpan source span
  let first := Text.lineAt lines marked.start
  let last := Text.lineAt lines (lastPlace marked)
  match isShown marked text.length, lines[first]?, lines[last]? with
  | true, some firstLine, some lastLine =>
    let digits := (Number.decimalText (last + 1)).length
    let rows :=
      if first = last then lineRows digits (first + 1) firstLine marked message
      else blockRows digits (first + 1) firstLine (last - first - 1) lastLine marked message
    [unnumbered digits ++ place file lines text.length span.start,
      unnumbered digits ++ ['│']] ++
      rows ++ [List.replicate (digits + 2) '─' ++ ['╯']]
  | _, _, _ => []

end DeskCalculator.Report

namespace DeskCalculator

/-- The rows of the report on a failure, whose span counts the bytes of a source. -/
def Failure.report (failure : Failure) (file source : String) : List String :=
  Report.heading failure.kind ::
    match failure.span with
    | some span => (Report.labelRows file source span failure.message).map String.ofList
    | none => []

end DeskCalculator
