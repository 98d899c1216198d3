import DeskCalculator.Proofs.Expression.Spelling
import DeskCalculator.Proofs.Hex.Spelling

/-!
How texts are cut into tokens. Both vocabularies take their tokens by rules, so their scanners tile
every text by maximal munch.
-/
namespace DeskCalculator

open Reading

/-- Every text is tiled by the longest words that the rules of its vocabulary allow. The places of
the tokens are counted in bytes of the text. -/
theorem scan_tiles (text : String) :
    Tiles Expression.Token.Spells 0 text.toList (scan Expression.Token text) ∧
      Tiles Hex.Token.Spells 0 text.toList (scan Hex.Token text) ∧
      byteLength text.toList = text.utf8ByteSize :=
  ⟨Expression.Token.isRuledBy.tiles_scanFrom 0 text.toList,
    Hex.Token.isRuledBy.tiles_scanFrom 0 text.toList, byteLength_toList text⟩

/-- An exponent without digits is none, and of three stars two are taken first. -/
example : scan Expression.Token "2e+***" =
    [⟨.number "2", 0, 1⟩, ⟨.identifier "e", 1, 2⟩, ⟨.plus, 2, 3⟩, ⟨.power, 3, 5⟩,
      ⟨.star, 5, 6⟩] := by
  decide +kernel

end DeskCalculator
