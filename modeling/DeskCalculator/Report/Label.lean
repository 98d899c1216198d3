import DeskCalculator.Failure
import DeskCalculator.Text.Line

/-!
The label of a report: the part of the text that a failed calculation points at. One blank is added
to the text, so that a failure at its end has a column to point at. Labels count characters.
-/
namespace DeskCalculator.Report

open Reading (Span)

def padded (source : String) : List Char := source.toList ++ [' ']

def clamp (span : Span) (length : Nat) : Span :=
  let stop := min span.stop length
  ⟨min span.start stop, stop⟩

def markedSpan (source : String) (span : Span) : Span :=
  clamp span (Reading.byteLength (padded source))

/-- The last place of a span; an empty one counts as the place where it begins. -/
def lastPlace (span : Span) : Nat := max (span.stop - 1) span.start

def isShown (marked : Span) (length : Nat) : Bool :=
  marked.start ≤ length && lastPlace marked ≤ length

end DeskCalculator.Report
