import DeskCalculator.Proofs.Hex.Places
import DeskCalculator.Proofs.Scientific.Places

/-!
Faithful places. The spans that trees and failures carry are those of the words that they are about:
names and literals are found again in the text where their spans say, and a malformed text that is
not blank is malformed at one of its tokens or right behind its end.
-/
namespace DeskCalculator

open Reading

/-- Names and literals stand in the text where their spans are, one behind the other. A failure that
is about the text has no place if and only if the text is blank, and then the failure says so;
otherwise its place is that of a token of the text that was read, or right behind this text. -/
theorem spans_faithful :
    (∀ text tree, Scientific.parse text = .ok tree →
      StandInOrder text (tree.uses.map fun use => (use.name, use.span))) ∧
    (∀ text tree, Hex.Tree.ofText text = .ok tree → StandInOrder text tree.literals) ∧
    (∀ text mode ans fault, Scientific.evaluate text mode ans = .error fault →
      fault.failure.kind = .malformed →
      fault.failure.IsPlacedIn Expression.Token (Expression.normalize text) ∧
        (fault.failure.span = none ↔ Text.isEmpty text = true)) ∧
    ∀ text fault, Hex.evaluate text = .error fault → fault.failure.kind = .malformed →
      fault.failure.IsPlacedIn Hex.Token text := by
  refine ⟨?_, ?_, ?_, ?_⟩
  · intro text tree hparse
    exact (Scientific.isSum_of_parse hparse).standInOrder_uses
  · intro text tree hread
    exact Hex.standInOrder_literals hread
  · intro text mode ans fault hfault hkind
    have hplaced := Scientific.isPlacedIn_of_evaluate hfault hkind
    refine ⟨hplaced, ?_⟩
    rw [hplaced.absent_iff, Expression.isEmpty_normalize]
  · intro text fault hfault hkind
    exact Hex.isPlacedIn_of_evaluate hfault hkind

/-- Two names behind each other, two literals, and a letter of two bytes that is no token. -/
theorem spans_faithful_around_letter :
    StandInOrder "E**Ans" [("E", ⟨0, 1⟩), ("Ans", ⟨3, 6⟩)] ∧
      StandInOrder "A + 1F" [("A", ⟨0, 1⟩), ("1F", ⟨4, 6⟩)] ∧
      ∃ fault, Scientific.evaluate "E^éA" {} 0.0 = .error fault ∧
        fault.failure.span = some ⟨3, 5⟩ ∧
        fault.failure.IsPlacedIn Expression.Token (Expression.normalize "E^éA") := by
  refine ⟨?_, ?_, ?_⟩
  · refine spans_faithful.1 "E**Ans" (.power (.symbol "E" ⟨0, 1⟩) (.symbol "Ans" ⟨3, 6⟩)) ?_
    have hscan : scan Expression.Token "E**Ans" =
        [⟨.identifier "E", 0, 1⟩, ⟨.power, 1, 3⟩, ⟨.identifier "Ans", 3, 6⟩] := by
      decide +kernel
    rw [Scientific.parse, if_neg (by decide), Expression.Tree.ofText, hscan]
    rfl
  · refine spans_faithful.2.1 "A + 1F"
      (.sum .plus (.literal "A" ⟨0, 1⟩) (.literal "1F" ⟨4, 6⟩)) ?_
    have hscan : scan Hex.Token "A + 1F" =
        [⟨.literal "A", 0, 1⟩, ⟨.plus, 2, 3⟩, ⟨.literal "1F", 4, 6⟩] := by
      decide +kernel
    rw [Hex.Tree.ofText, hscan]
    rfl
  · have hnormal : Expression.normalize "E^éA" = "E**éA" := by decide +kernel
    have hscan : scan Expression.Token "E**éA" =
        [⟨.identifier "E", 0, 1⟩, ⟨.power, 1, 3⟩, ⟨.invalid, 3, 5⟩, ⟨.identifier "A", 5, 6⟩] := by
      decide +kernel
    have hfault : Scientific.evaluate "E^éA" {} 0.0 =
        .error (.unreadable (.unexpected (some .invalid)
          [some .plus, some .minus, some .leftParen] ⟨3, 5⟩)) := by
      rw [Scientific.evaluate, hnormal, Scientific.parse, if_neg (by decide),
        Expression.Tree.ofText, hscan]
      rfl
    exact ⟨_, hfault, rfl, (spans_faithful.2.2.1 _ _ _ _ hfault rfl).1⟩

end DeskCalculator
