import DeskCalculator.Proofs.Expression.Spelling
import DeskCalculator.Proofs.Hex.Spelling

/-!
Scanning undoes writing. The words of both vocabularies hold no separators and tell their tokens, so
tokens that are written with separators between them come back, and separators added where tokens
end change nothing.
-/
namespace DeskCalculator

open Reading

/-- Tokens written with separators between them are scanned as the same tokens, and more separators
where the tokens of a text end leave its tokens as they are, if none of them is invalid. -/
theorem scanning_undoes_writing :
    UndoesWriting Expression.Token Expression.Token.Spells ∧
      UndoesWriting Hex.Token Hex.Token.Spells :=
  ⟨Expression.Token.isLegible.undoesWriting, Hex.Token.isLegible.undoesWriting⟩

/-- What would be one number without separators stays apart with them. -/
theorem scanning_undoes_writing_of_split_exponent :
    let before : Gap Expression.Token := ⟨['\t'], List.all_eq_true.mp rfl⟩
    let pieces : List (Piece Expression.Token) :=
      [⟨.number "2", [' '], List.all_eq_true.mp rfl⟩,
        ⟨.identifier "e", ['\n', ' '], List.all_eq_true.mp rfl⟩,
        ⟨.plus, ['\x0c'], List.all_eq_true.mp rfl⟩, ⟨.number "5", [], nofun⟩]
    (∀ piece ∈ pieces, Expression.Token.Spells piece.token piece.word) ∧
      (∀ piece ∈ pieces.dropLast, piece.behind.run ≠ []) ∧
      String.ofList (layOut before pieces) = "\t2 e\n +\x0c5" ∧
      (scan Expression.Token (String.ofList (layOut before pieces))).map Lexeme.token =
        [.number "2", .identifier "e", .plus, .number "5"] := by
  intro before pieces
  have hnumber : ∀ digit : Char, digit.isDigit = true →
      Expression.Token.Spells (.number (String.ofList [digit])) [digit] := by
    intro digit hdigit
    refine .inr (.inl ⟨rfl, ⟨[digit], none, none⟩, ⟨?_, nofun, .inl (by simp), nofun⟩, rfl⟩)
    simpa using hdigit
  have hspells : ∀ piece ∈ pieces, Expression.Token.Spells piece.token piece.word := by
    simp only [pieces, List.forall_mem_cons]
    exact ⟨hnumber '2' rfl, .inl ⟨rfl, 'e', [], rfl, rfl, nofun⟩, .inr (.inr ⟨trivial, rfl⟩),
      hnumber '5' rfl, nofun⟩
  have hspaced : ∀ piece ∈ pieces.dropLast, piece.behind.run ≠ [] := by
    simp [pieces]
  exact ⟨hspells, hspaced, rfl, scanning_undoes_writing.1.written before pieces hspells hspaced⟩

end DeskCalculator
