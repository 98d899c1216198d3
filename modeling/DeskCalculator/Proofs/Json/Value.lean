import DeskCalculator.Json.Value
import DeskCalculator.Proofs.Outcome
import DeskCalculator.Proofs.Reading.Scanning
import DeskCalculator.Proofs.Reading.Viability

/-!
Reading JSON from tokens. What a token may follow does not depend on its place, so the value of a
text is determined by its tokens.
-/
namespace DeskCalculator.Json

open Reading

namespace Progress

def takeAll (p : Progress) : List Token → Option Progress
  | [] => some p
  | token :: rest => (p.take? ⟨token, 0, 0⟩).bind fun next => takeAll next rest

theorem takeAll_append (p : Progress) (left right : List Token) :
    p.takeAll (left ++ right) = (p.takeAll left).bind fun next => next.takeAll right := by
  induction left generalizing p with
  | nil => rfl
  | cons token rest ih =>
    cases h : p.take? ⟨token, 0, 0⟩ with
    | none => simp [takeAll, h]
    | some next => simpa [takeAll, h] using ih next

theorem advance_eq_takeAll (p : Progress) (lexemes : List (Lexeme Token)) :
    Value.reader.advance p lexemes = p.takeAll (lexemes.map Lexeme.token) := by
  induction lexemes generalizing p with
  | nil => rfl
  | cons lexeme rest ih =>
    have htake : p.take? lexeme = p.take? ⟨lexeme.token, 0, 0⟩ := rfl
    simp only [Reader.advance_cons, List.map_cons, takeAll, ← htake, ih]
    rfl

end Progress

theorem Value.ofText?_eq_some_iff (text : String) (value : Value) :
    Value.ofText? text = some value ↔
      ∃ last, Progress.takeAll {} (tokensOf Token text.toList) = some last ∧
        last.value? = some value := by
  have hread := Value.reader.readFrom_eq_ok_iff text.utf8ByteSize {} (scan Token text) value
  rw [Progress.advance_eq_takeAll, map_token_scan] at hread
  exact toOption_eq_some_iff.trans hread

end DeskCalculator.Json
