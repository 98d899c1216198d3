import DeskCalculator.Proofs.Expression.Normalization
import DeskCalculator.Proofs.Expression.Spelling
import DeskCalculator.Proofs.Number.Display
import DeskCalculator.Proofs.Scientific.Answer

/-!
Displayed results typed back in. The text of a result is a plain numeral with at most a minus sign
before it. Normalization leaves it as it is, it is cut into the sign and the numeral, and these are
evaluated to the number displayed, in every mode and whatever the previous result is.
-/
namespace DeskCalculator.Expression

open Number Reading

theorem tokensOf_minus_cons (text : List Char) :
    tokensOf Token ('-' :: ([] ++ text)) = .minus :: tokensOf Token text :=
  tokensOf_cons_append rfl rfl

theorem spells_of_writes {text : List Char} {q : ℚ} (h : Writes text q) :
    Token.Spells (.number (String.ofList text)) text := by
  obtain ⟨n, hplain, rfl, -⟩ := h
  exact .inr (.inl ⟨rfl, n, hplain.isProper _, rfl⟩)

end DeskCalculator.Expression

namespace DeskCalculator.Scientific

open Expression Number Reading

theorem checkFinite_of_isFinite {x : Float} (hx : x.isFinite = true) : checkFinite x = .ok x := by
  have hmodel := (isFinite_iff x).mp hx
  have hnumber : x.isNaN = false := by
    change x.toModel.unpack.isNaN = false
    generalize x.toModel.unpack = u at hmodel ⊢
    cases hmodel <;> rfl
  have hrange : x.isInf = false := by
    change x.toModel.unpack.isInf = false
    generalize x.toModel.unpack = u at hmodel ⊢
    cases hmodel <;> rfl
  rw [checkFinite, if_neg (Bool.eq_false_iff.mp hnumber), if_neg (Bool.eq_false_iff.mp hrange)]

theorem parse_of_isSum {text : String} {tree : Tree} (hempty : Text.isEmpty text = false)
    (h : IsSum (scan Token text) tree) : parse text = .ok tree := by
  rw [parse, if_neg (by simp [hempty])]
  exact mapError_eq_ok_iff.mpr ((recognizes.read_eq_ok_iff _ _ _).mpr h)

theorem isEmpty_of_shows {text : List Char} {negative : Bool} {q : ℚ}
    (h : Shows text negative q) : Text.isEmpty (String.ofList text) = false := by
  obtain ⟨body, hbody, rfl⟩ := h
  obtain ⟨c, rest, rfl, hc⟩ := hbody.exists_eq_cons
  rw [Text.isEmpty, String.toList_ofList]
  cases negative with
  | true => rfl
  | false => exact congrArg (· && rest.all Text.isBlank) (not_isBlank_of_isDigit hc)

theorem exists_scan_of_writes {text : List Char} {q : ℚ} (h : Writes text q) :
    ∃ span, scan Token (String.ofList text) = [⟨.number (String.ofList text), span⟩] :=
  Token.isLegible.exists_scan_of_spells (spells_of_writes h)

theorem exists_scan_of_minus {text : List Char} {q : ℚ} (h : Writes text q) :
    ∃ first span, scan Token (String.ofList ('-' :: text)) =
      [⟨.minus, first⟩, ⟨.number (String.ofList text), span⟩] := by
  have htokens : (scan Token (String.ofList ('-' :: text))).map Lexeme.token =
      [.minus, .number (String.ofList text)] := by
    rw [map_token_scan, String.toList_ofList]
    exact (tokensOf_minus_cons text).trans
      (congrArg _ (Token.isLegible.tokensOf_of_spells (spells_of_writes h)))
  obtain ⟨⟨_, first⟩, rest, hlexemes, rfl, hrest⟩ := List.map_eq_cons_iff.mp htokens
  obtain ⟨⟨_, span⟩, rfl, rfl⟩ := List.map_eq_singleton_iff.mp hrest
  exact ⟨first, span, hlexemes⟩

/-- A displayed number is parsed, and has the value that it shows. -/
theorem exists_parse_of_shows {text : List Char} {negative : Bool} {q : ℚ}
    (h : Shows text negative q) : ∃ tree y,
      parse (normalize (String.ofList text)) = .ok tree ∧ IsRounded q y ∧
        ∀ mode ans, value mode ans tree = .ok (withSign negative y) := by
  have hmem : ∀ c : Char, ¬(c = '-' ∨ c.isDigit = true ∨ c = '.') →
      c ∉ (String.ofList text).toList := by
    intro c hc hmem
    rw [String.toList_ofList] at hmem
    exact hc (h.of_mem hmem)
  rw [normalize_eq_self (hmem '^' (by decide)) (hmem 'E' (by decide))]
  have hempty := isEmpty_of_shows h
  obtain ⟨body, hbody, rfl⟩ := h
  obtain ⟨y, hread, hy⟩ := hbody.readDouble?
  have hspelled : readDouble? (String.ofList body).toList = some y := by
    rw [String.toList_ofList, hread]
  have hnumber : ∀ span, IsSigned [⟨.number (String.ofList body), span⟩] (.number y) :=
    fun span => .power (.atom (.number span hspelled))
  cases negative with
  | false =>
    obtain ⟨span, hscan⟩ := exists_scan_of_writes hbody
    exact ⟨.number y, y, parse_of_isSum hempty (hscan ▸ .product (.signed (hnumber span))), hy,
      fun _ _ => rfl⟩
  | true =>
    obtain ⟨first, span, hscan⟩ := exists_scan_of_minus hbody
    exact ⟨.signed .minus (.number y), y,
      parse_of_isSum hempty (hscan ▸ .product (.signed (.signed .minus first (hnumber span)))), hy,
      fun _ _ => rfl⟩

/-- A displayed result can be typed back in: it is evaluated to a number at most `10 ^ -10` away,
and to the same number where the result is an integer. -/
theorem evaluate_plain_near {x : Float} (hx : x.isFinite = true) (mode : Mode) (ans : Float) :
    ∃ y, evaluate (plain x) mode ans = .ok y ∧ y.isFinite = true ∧
      |exact y - exact x| ≤ 1 / 10 ^ 10 ∧ ∀ z : ℤ, exact x = z → exact y = exact x := by
  obtain ⟨negative, q, hshows, hnear⟩ := showsNear_plainText hx
  obtain ⟨tree, y, hparse, hy, hvalue⟩ := exists_parse_of_shows hshows
  obtain ⟨hfinite, hdistance⟩ := hnear y hy
  have hsigned : (withSign negative y).isFinite = true :=
    (isFinite_withSign negative y).trans hfinite
  refine ⟨withSign negative y, ?_, hsigned, hdistance⟩
  rw [plain, evaluate_of_parse_eq_ok hparse, hvalue]
  exact checkFinite_of_isFinite hsigned

/-- A sum with noise behind its first digit comes back without the noise. -/
theorem evaluate_plain_near_of_sum :
    (0.1 + 0.2 : Float).isFinite = true ∧ plain (0.1 + 0.2) = "0.3" ∧
      ∃ y, evaluate "0.3" {} 0.0 = .ok y ∧ y.isFinite = true ∧
        |exact y - exact (0.1 + 0.2)| ≤ 1 / 10 ^ 10 ∧
        ∀ z : ℤ, exact (0.1 + 0.2) = z → exact y = exact (0.1 + 0.2) := by
  have hfinite : (0.1 + 0.2 : Float).isFinite = true := by decide +kernel
  have hplain : plain (0.1 + 0.2) = "0.3" := by decide +kernel
  have hback := evaluate_plain_near hfinite {} 0.0
  rw [hplain] at hback
  exact ⟨hfinite, hplain, hback⟩

end DeskCalculator.Scientific
