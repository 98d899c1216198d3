/-!
Cutting a text into the pieces between separators.
-/
namespace DeskCalculator.Text

/-- The pieces between the separators, empty ones included; there is always one piece more than
separators. -/
def pieces (separator : Char) : List Char → List (List Char)
  | [] => [[]]
  | c :: rest =>
    if c = separator then [] :: pieces separator rest
    else
      match pieces separator rest with
      | piece :: others => (c :: piece) :: others
      | [] => [[c]]

theorem length_pieces (separator : Char) (text : List Char) :
    (pieces separator text).length = text.count separator + 1 := by
  fun_induction pieces separator text with
  | case1 => rfl
  | case2 rest ih => simp [ih]
  | case3 c rest hc piece others h ih => simp_all
  | case4 c rest hc h ih => simp [h] at ih

end DeskCalculator.Text
