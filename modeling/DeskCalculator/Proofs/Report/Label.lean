import DeskCalculator.Proofs.Expression.Neighbours
import DeskCalculator.Proofs.Scientific.Places
import DeskCalculator.Report.Layout

/-!
Labels of malformed expressions. Spans count bytes and labels count characters. In front of the
token at which a text is refused all characters have one byte, so the label begins where the token
does; it ends there too unless the token is a refused character of several bytes, and then it is as
many characters long as that one has bytes.
-/
namespace DeskCalculator.Reading

def IsNarrow (text : List Char) : Prop := ∀ c ∈ text, c.utf8Size = 1

theorem length_le_byteLength (text : List Char) : text.length ≤ byteLength text := by
  induction text with
  | nil => exact le_rfl
  | cons c rest ih =>
    have hpos := c.utf8Size_pos
    rw [List.length_cons, byteLength_cons]
    omega

theorem byteLength_eq_length_iff (text : List Char) :
    byteLength text = text.length ↔ IsNarrow text := by
  induction text with
  | nil => exact iff_of_true rfl (List.forall_mem_nil _)
  | cons c rest ih =>
    have hpos := c.utf8Size_pos
    have hle := length_le_byteLength rest
    rw [IsNarrow, List.forall_mem_cons, ← IsNarrow, ← ih, byteLength_cons, List.length_cons]
    omega

end DeskCalculator.Reading

namespace DeskCalculator.Report

open Reading

/-- Whether a span holds the bytes of a word of the padded source and marks as many characters, from
the beginning of the word on, as the word has bytes. -/
structure Marks (source : String) (span : Span) (before word behind : List Char) : Prop where
  laid : padded source = before ++ (word ++ behind)
  bytes : span = ⟨byteLength before, byteLength (before ++ word)⟩
  marked : markedSpan source span = ⟨before.length, before.length + byteLength word⟩

namespace Marks

variable {source : String} {span : Span} {before word behind : List Char}

theorem of_isNarrow (hlaid : padded source = before ++ (word ++ behind))
    (hbytes : span = ⟨byteLength before, byteLength (before ++ word)⟩) (hbefore : IsNarrow before) :
    Marks source span before word behind where
  laid := hlaid
  bytes := hbytes
  marked := by
    have hlength := (byteLength_eq_length_iff before).mpr hbefore
    have hstop : byteLength (before ++ word) ≤ byteLength (padded source) := by
      rw [hlaid, byteLength_append, byteLength_append, byteLength_append]
      omega
    rw [markedSpan, clamp, hbytes, Nat.min_eq_left hstop, byteLength_append,
      Nat.min_eq_left (Nat.le_add_right _ _), hlength]

/-- The label covers the characters of the word and no others just if each of them has one byte. -/
theorem exact_iff (h : Marks source span before word behind) :
    markedSpan source span = ⟨before.length, (before ++ word).length⟩ ↔ IsNarrow word := by
  rw [h.marked, Span.mk.injEq, List.length_append, Nat.add_left_cancel_iff,
    byteLength_eq_length_iff, and_iff_right rfl]

/-- The label lies within the padded source just if as many characters as the word has bytes are
left there. -/
theorem inside_iff (h : Marks source span before word behind) :
    (markedSpan source span).stop ≤ (padded source).length ↔
      byteLength word ≤ (word ++ behind).length := by
  rw [h.marked, h.laid, List.length_append, Nat.add_le_add_iff_left]

end Marks

end DeskCalculator.Report

namespace DeskCalculator.Scientific

open Expression Reading Report

/-- The word at which a text is refused is narrow, or it is a single character that is no token. -/
theorem IsRefusedAt.exists_marks {normalized : String} {span : Span}
    (h : IsRefusedAt normalized span) :
    ∃ before word behind, Marks normalized span before word behind ∧
      (¬IsNarrow word → ∃ c, word = [c] ∧ ⟨.invalid, span⟩ ∈ scan Token normalized) := by
  cases h with
  | @atToken left right lexeme hscan hleft hspan =>
    obtain ⟨before, word, behind, htext, hbefore, hbytes, htoken⟩ :=
      Token.isRuledBy.exists_place Token.isAlphabet hscan hleft
    have hlaid : padded normalized = before ++ (word ++ (behind ++ [' '])) := by
      rw [padded, htext, List.append_assoc, List.append_assoc]
    have hnarrow : IsNarrow before := fun c hc => (hbefore c hc).utf8Size_eq_one
    refine ⟨before, word, behind ++ [' '],
      .of_isNarrow hlaid (hspan.symm.trans hbytes) hnarrow, ?_⟩
    intro hwide
    -- the characters of valid words have one byte, so only an invalid token can be wide
    by_cases hinvalid : lexeme.token = .invalid
    · obtain ⟨c, rfl⟩ := List.length_eq_one_iff.mp (htoken.invalid hinvalid).1
      obtain ⟨token, span⟩ := lexeme
      obtain rfl : token = .invalid := hinvalid
      obtain rfl : span = _ := hspan
      exact ⟨c, rfl, hscan ▸ List.mem_append_cons_self⟩
    · have hspelled := (htoken.munch hinvalid).1.spelled
      exact absurd (fun c hc => Token.utf8Size_of_isWordPart (hspelled.isWordPart c hc)) hwide
  | atEnd hvalid hspan =>
    have hall := Token.isRuledBy.forall_mem_of_valid Token.isAlphabet hvalid
    have hnarrow : IsNarrow normalized.toList := fun c hc => (hall c hc).utf8Size_eq_one
    have hblank : IsNarrow [' '] := List.forall_mem_singleton.mpr rfl
    refine ⟨normalized.toList, [' '], [], .of_isNarrow ?_ ?_ hnarrow, ?_⟩
    · rw [padded, List.append_nil]
    · rw [hspan, byteLength_append, byteLength_toList]
      rfl
    · exact fun hwide => absurd hblank hwide

/-- The label of a malformed expression begins with the token at which the expression is refused, or
with the blank behind its end, and is as many characters long as that has bytes. It covers exactly
its characters if each of them has one byte. Otherwise the token is a single character that belongs
to no token, and the label goes on behind it, beyond the end of the text if too little follows. -/
theorem label_exact_iff_narrow {text : String} {mode : Mode} {ans : Float} {fault : Fault}
    {span : Span} (h : evaluate text mode ans = .error fault)
    (hkind : fault.failure.kind = .malformed) (hspan : fault.failure.span = some span) :
    span.PointsInto Token (normalize text) ∧
      ∃ before word behind, Marks (normalize text) span before word behind ∧
        (markedSpan (normalize text) span = ⟨before.length, (before ++ word).length⟩ ↔
          IsNarrow word) ∧
        ((markedSpan (normalize text) span).stop ≤ (padded (normalize text)).length ↔
          byteLength word ≤ (word ++ behind).length) ∧
        (¬IsNarrow word →
          ∃ c, word = [c] ∧ ⟨.invalid, span⟩ ∈ scan Token (normalize text)) := by
  rcases refusal_of_evaluate h hkind with ⟨-, rfl⟩ | ⟨-, place, hplace, hrefused⟩
  · exact nomatch hspan
  · obtain rfl := Option.some.inj (hplace.symm.trans hspan)
    obtain ⟨before, word, behind, hmarks, hwide⟩ := hrefused.exists_marks
    exact ⟨hrefused.pointsInto, before, word, behind, hmarks, hmarks.exact_iff, hmarks.inside_iff,
      hwide⟩

/-- A sign that belongs to no token, behind a power that is longer than it was typed. -/
theorem label_exact_iff_narrow_of_sign :
    let fault : Fault := .unreadable (.unexpected (some .invalid)
      [some .plus, some .minus, some .leftParen] ⟨3, 4⟩)
    evaluate "E^#" {} 0.0 = .error fault ∧ fault.failure.kind = .malformed ∧
      fault.failure.span = some ⟨3, 4⟩ ∧ normalize "E^#" = "E**#" ∧
      markedSpan (normalize "E^#") ⟨3, 4⟩ = ⟨3, 4⟩ ∧
      ∃ before word behind, Marks (normalize "E^#") ⟨3, 4⟩ before word behind ∧
        (markedSpan (normalize "E^#") ⟨3, 4⟩ = ⟨before.length, (before ++ word).length⟩ ↔
          IsNarrow word) := by
  intro fault
  have hnormal : normalize "E^#" = "E**#" := by decide +kernel
  have hfault : evaluate "E^#" {} 0.0 = .error fault := by
    have hscan : scan Token "E**#" =
        [⟨.identifier "E", 0, 1⟩, ⟨.power, 1, 3⟩, ⟨.invalid, 3, 4⟩] := by
      decide +kernel
    rw [evaluate, hnormal, parse, if_neg (by decide), Tree.ofText, hscan]
    rfl
  obtain ⟨-, before, word, behind, hmarks, hexact, -⟩ := label_exact_iff_narrow hfault rfl rfl
  exact ⟨hfault, rfl, rfl, hnormal, by decide +kernel, before, word, behind, hmarks, hexact⟩

/-- The label of a character of three bytes at the end of a text leaves the text, and the report
shows neither the text nor what was expected there. -/
theorem label_beyond_text_of_ideograph :
    let fault : Fault := .unreadable (.unexpected (some .invalid)
      [some .plus, some .minus, some .leftParen, some .rightParen] ⟨4, 7⟩)
    evaluate "sin(日" {} 0.0 = .error fault ∧ fault.failure.kind = .malformed ∧
      fault.failure.span = some ⟨4, 7⟩ ∧ normalize "sin(日" = "sin(日" ∧
      padded "sin(日" = "sin(".toList ++ (['日'] ++ [' ']) ∧
      markedSpan "sin(日" ⟨4, 7⟩ ≠ ⟨"sin(".length, "sin(日".length⟩ ∧
      ¬(markedSpan "sin(日" ⟨4, 7⟩).stop ≤ (padded "sin(日").length ∧
      fault.failure.report "<input>" "sin(日" =
        ["[E001] Error: Syntax Error", "   ╭─[<input>:1:5]", "   │", "   │ ", "───╯"] := by
  intro fault
  have hnormal : normalize "sin(日" = "sin(日" := by decide +kernel
  have hfault : evaluate "sin(日" {} 0.0 = .error fault := by
    have hscan : scan Token "sin(日" =
        [⟨.identifier "sin", 0, 3⟩, ⟨.leftParen, 3, 4⟩, ⟨.invalid, 4, 7⟩] := by
      decide +kernel
    rw [evaluate, hnormal, parse, if_neg (by decide), Tree.ofText, hscan]
    rfl
  exact ⟨hfault, rfl, rfl, hnormal, by decide +kernel, by decide +kernel, by decide +kernel,
    by decide +kernel⟩

end DeskCalculator.Scientific
