import DeskCalculator.Json.Quoted
import Mathlib.Data.Nat.Notation
import Mathlib.Tactic.SplitIfs

/-!
Strings in quotes read back. What is written for one character is read as one piece, and the pieces
of a text join to the text.
-/
namespace DeskCalculator.Json

theorem fourDigits?_hexPair {n : ℕ} (h : n < 0x20) :
    fourDigits? '0' '0' (Nat.digitChar (n / 16)) (Nat.digitChar (n % 16)) = some n := by
  revert n
  decide

theorem join?_unit_cons {n : ℕ} (hhigh : isHighHalf n = false) (hlow : isLowHalf n = false)
    (pieces : List Piece) :
    join? (.unit n :: pieces) = (join? pieces).map (Char.ofNat n :: ·) := by
  cases pieces with
  | nil => simp [join?, hhigh, hlow]
  | cons piece pieces =>
    cases piece with
    | char c => simp [join?, hhigh, hlow]
    | unit m => simp [join?, hhigh, hlow]

theorem pieces?_cons {c : Char} (hquote : c ≠ '"') (hbackslash : c ≠ '\\')
    (hcontrol : 0x20 ≤ c.toNat) (rest : List Char) :
    pieces? (c :: rest) =
      (pieces? rest).map fun (pieces, length) => (.char c :: pieces, length + 1) := by
  rw [pieces?]
  · rw [if_neg (by simp [hbackslash]; omega)]
  all_goals grind

theorem pieces?_escape {letter c : Char} (hletter : letter ≠ 'u') (h : escaped? letter = some c)
    (rest : List Char) :
    pieces? ('\\' :: letter :: rest) =
      (pieces? rest).map fun (pieces, length) => (.char c :: pieces, length + 2) := by
  rw [pieces?]
  · rw [h]
    cases pieces? rest <;> rfl
  all_goals grind

theorem pieces?_unit {a b c d : Char} {n : ℕ} (h : fourDigits? a b c d = some n)
    (rest : List Char) :
    pieces? ('\\' :: 'u' :: a :: b :: c :: d :: rest) =
      (pieces? rest).map fun (pieces, length) => (.unit n :: pieces, length + 6) := by
  rw [pieces?, h]
  cases pieces? rest <;> rfl

/-- A character is written behind a backslash, by its code, or as it is. -/
theorem encodeChar_cases (c : Char) :
    (∃ letter, encodeChar c = ['\\', letter] ∧ letter ≠ 'u' ∧ escaped? letter = some c) ∨
    (encodeChar c = ['\\', 'u', '0', '0'] ++ hexPair c.toNat ∧ c.toNat < 0x20) ∨
    (encodeChar c = [c] ∧ c ≠ '"' ∧ c ≠ '\\' ∧ 0x20 ≤ c.toNat) := by
  unfold encodeChar
  split_ifs with hquote hbackslash hb hf hn hr ht hcontrol
  · exact .inl ⟨'"', rfl, by decide, by rw [hquote]; rfl⟩
  · exact .inl ⟨'\\', rfl, by decide, by rw [hbackslash]; rfl⟩
  · exact .inl ⟨'b', rfl, by decide, hb ▸ rfl⟩
  · exact .inl ⟨'f', rfl, by decide, hf ▸ rfl⟩
  · exact .inl ⟨'n', rfl, by decide, hn ▸ rfl⟩
  · exact .inl ⟨'r', rfl, by decide, hr ▸ rfl⟩
  · exact .inl ⟨'t', rfl, by decide, ht ▸ rfl⟩
  · exact .inr (.inl ⟨rfl, hcontrol⟩)
  · exact .inr (.inr ⟨rfl, hquote, hbackslash, by omega⟩)

/-- A character is written so that it is read as one piece, which joins to the character. -/
theorem exists_piece (c : Char) : ∃ piece,
    (∀ rest, pieces? (encodeChar c ++ rest) = (pieces? rest).map fun (pieces, length) =>
      (piece :: pieces, length + (encodeChar c).length)) ∧
    ∀ pieces, join? (piece :: pieces) = (join? pieces).map (c :: ·) := by
  rcases encodeChar_cases c with ⟨letter, hencode, hletter, hescaped⟩ | ⟨hencode, hcontrol⟩ |
    ⟨hencode, hquote, hbackslash, hcode⟩
  · rw [hencode]
    exact ⟨.char c, pieces?_escape hletter hescaped, fun _ => rfl⟩
  · rw [hencode]
    have hhigh : isHighHalf c.toNat = false := by
      unfold isHighHalf
      simp only [Bool.and_eq_false_iff, decide_eq_false_iff_not]
      omega
    have hlow : isLowHalf c.toNat = false := by
      unfold isLowHalf
      simp only [Bool.and_eq_false_iff, decide_eq_false_iff_not]
      omega
    refine ⟨.unit c.toNat, pieces?_unit (fourDigits?_hexPair hcontrol), fun pieces => ?_⟩
    rw [join?_unit_cons hhigh hlow, Char.ofNat_toNat]
  · rw [hencode]
    exact ⟨.char c, pieces?_cons hquote hbackslash hcode, fun _ => rfl⟩

/-- What stands inside quotes is read up to the closing quote, and its pieces join to the text. -/
theorem exists_pieces (text rest : List Char) : ∃ pieces,
    pieces? (text.flatMap encodeChar ++ '"' :: rest) =
      some (pieces, (text.flatMap encodeChar).length + 1) ∧ join? pieces = some text := by
  induction text with
  | nil => exact ⟨[], by rw [List.flatMap_nil, List.nil_append, pieces?]; rfl, rfl⟩
  | cons c text ih =>
    obtain ⟨pieces, hpieces, hjoin⟩ := ih
    obtain ⟨piece, hread, hcons⟩ := exists_piece c
    refine ⟨piece :: pieces, ?_, ?_⟩
    · rw [List.flatMap_cons, List.append_assoc, hread, hpieces, List.length_append]
      simp only [Option.map_some, Option.some.injEq, Prod.mk.injEq, true_and]
      omega
    · rw [hcons, hjoin]
      rfl

end DeskCalculator.Json
