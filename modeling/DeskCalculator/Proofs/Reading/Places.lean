import DeskCalculator.Failure
import DeskCalculator.Proofs.Reading.Tiling
import DeskCalculator.Proofs.Reading.Viability

/-!
Places in a text. The span of a lexeme holds the bytes of its word and no others, also behind
characters of several bytes, and the lexemes of a text stand one behind the other. A reader that
refuses a text complains about one of its lexemes or about the place right behind its last byte, so
only a blank text is malformed at no place.
-/
namespace DeskCalculator.Reading

/-- Whether a span of a text holds exactly the bytes of a word. -/
def Span.Covers (span : Span) (text word : String) : Prop :=
  ∃ before behind : String, text = before ++ (word ++ behind) ∧
    span = ⟨before.utf8ByteSize, (before ++ word).utf8ByteSize⟩

structure StandInOrder (text : String) (words : List (String × Span)) : Prop where
  covered : ∀ word ∈ words, word.2.Covers text word.1
  nonempty : ∀ word ∈ words, word.2.start < word.2.stop
  ordered : words.Pairwise fun first second => first.2.stop ≤ second.2.start

/-- Whether a span is that of a token of a text, or one byte long and right behind the text. -/
def Span.PointsInto (span : Span) (τ : Type) [Vocabulary τ] (text : String) : Prop :=
  span = ⟨text.utf8ByteSize, text.utf8ByteSize + 1⟩ ∨ ∃ lexeme ∈ scan τ text, lexeme.span = span

section Scanned

variable {τ : Type} [Vocabulary τ] {Spells : τ → List Char → Prop}

/-- A valid lexeme covers the text of its token. -/
theorem IsRuledBy.covers (h : IsRuledBy τ Spells) {text : String} {lexeme : Lexeme τ}
    (hmem : lexeme ∈ scan τ text) (hvalid : lexeme.token ≠ Vocabulary.invalid) :
    lexeme.span.Covers text (Vocabulary.text lexeme.token) := by
  obtain ⟨before, word, behind, htext, hspan, htoken⟩ :=
    (h.tiles_scanFrom 0 text.toList).covered lexeme hmem
  obtain ⟨-, hword⟩ := htoken.munch hvalid
  have hspelled : Vocabulary.text lexeme.token = String.ofList word := by
    rw [← hword, String.ofList_toList]
  refine ⟨String.ofList before, String.ofList behind, ?_, ?_⟩
  · rw [hspelled, ← String.ofList_append, ← String.ofList_append, ← htext, String.ofList_toList]
  · rw [hspan, hspelled, ← String.ofList_append, utf8ByteSize_ofList, utf8ByteSize_ofList,
      Nat.zero_add, Nat.zero_add]

/-- The valid tokens of a kind stand in a text in their order. -/
theorem IsRuledBy.standInOrder (h : IsRuledBy τ Spells) (text : String) (kind : τ → Bool)
    (hkind : kind Vocabulary.invalid = false) :
    StandInOrder text (((scan τ text).filter fun lexeme => kind lexeme.token).map
      fun lexeme => (Vocabulary.text lexeme.token, lexeme.span)) := by
  have htiles := h.tiles_scanFrom 0 text.toList
  constructor
  · intro word hword
    obtain ⟨lexeme, hlexeme, rfl⟩ := List.mem_map.mp hword
    obtain ⟨hmem, hvalid⟩ := List.mem_filter.mp hlexeme
    apply h.covers hmem
    intro hinvalid
    rw [hinvalid, hkind] at hvalid
    exact nomatch hvalid
  · intro word hword
    obtain ⟨lexeme, hlexeme, rfl⟩ := List.mem_map.mp hword
    exact htiles.nonempty lexeme (List.mem_filter.mp hlexeme).1
  · exact List.pairwise_map.mpr (htiles.ordered.filter _)

/-- Of two different words in order, one begins in front of the other. -/
theorem StandInOrder.pairwise_start_lt {text : String} {words : List (String × Span)}
    (h : StandInOrder text words) :
    words.Pairwise fun first second => first.2.start < second.2.start := by
  refine h.ordered.imp_of_mem ?_
  intro first second hfirst _ hle
  have hpos := h.nonempty first hfirst
  omega

end Scanned

theorem Reader.span_refusal {τ σ α : Type} (reader : Reader τ σ α) (state : σ)
    (lexeme : Lexeme τ) : (reader.refusal state lexeme).span = lexeme.span := by
  cases hobjection : reader.objection? state lexeme <;>
    simp [Reader.refusal, hobjection, Complaint.span]

/-- What a reader complains about is a lexeme that it was given, or the place behind the text. -/
theorem Reader.span_of_read_eq_error {τ σ α : Type} (reader : Reader τ σ α) {length : Nat}
    {lexemes : List (Lexeme τ)} {complaint : Complaint τ}
    (h : reader.read length lexemes = .error complaint) :
    complaint.span = ⟨length, length + 1⟩ ∨ ∃ lexeme ∈ lexemes, lexeme.span = complaint.span := by
  obtain ⟨k, last, -, -, rfl, -⟩ :=
    reader.exists_of_readFrom_eq_error length reader.start lexemes complaint h
  cases hk : lexemes[k]? with
  | none => exact .inl rfl
  | some lexeme =>
    exact .inr ⟨lexeme, List.mem_of_getElem? hk, (reader.span_refusal last lexeme).symm⟩

end DeskCalculator.Reading

namespace DeskCalculator

open Reading

/-- Whether a failure points into a text, except that for a blank one it says that there is nothing
to point at. -/
structure Failure.IsPlacedIn (failure : Failure) (τ : Type) [Vocabulary τ] (text : String) :
    Prop where
  absent_iff : failure.span = none ↔ Text.isEmpty text = true
  empty : failure.span = none → failure.message = "empty expression"
  inside : ∀ span, failure.span = some span → span.PointsInto τ text

variable {τ : Type} [Vocabulary τ] {failure : Failure} {text : String}

theorem Failure.isPlacedIn_of_isEmpty (hempty : Text.isEmpty text = true)
    (hspan : failure.span = none) (hmessage : failure.message = "empty expression") :
    failure.IsPlacedIn τ text where
  absent_iff := iff_of_true hspan hempty
  empty _ := hmessage
  inside _ h := nomatch hspan.symm.trans h

theorem Failure.isPlacedIn_of_pointsInto (hempty : ¬Text.isEmpty text = true) {span : Span}
    (hspan : failure.span = some span) (h : span.PointsInto τ text) :
    failure.IsPlacedIn τ text where
  absent_iff := iff_of_false (by simp [hspan]) hempty
  empty hnone := nomatch hspan.symm.trans hnone
  inside other hother := by
    obtain rfl := Option.some.inj (hspan.symm.trans hother)
    exact h

end DeskCalculator
