import DeskCalculator.Proofs.Hex.Joining
import DeskCalculator.Proofs.Keypad.Preview
import DeskCalculator.Proofs.Number.Trimming

/-!
An operator behind an operand, taken back at once. Taking back removes the operator and the space
behind it, and leaves the space in front of it. That space makes no difference to what is calculated
later, except that digits no longer continue the operand: typed directly behind it they are a literal
of their own, with no operator in between.
-/
namespace DeskCalculator.Keypad.HexPad

open Hex (SameKind)

def Key.typed : Key → String
  | digits text => text
  | operator symbol => " " ++ symbol ++ " "
  | backspace | clear | calculate => ""

def typed : List Key → String
  | [] => ""
  | key :: rest => key.typed ++ typed rest

section

variable {pad : HexPad} {keys : List Key} {operator : String}

@[simp] theorem input_calculate (pad : HexPad) : pad.calculate.2.input = pad.input := by
  unfold calculate
  split
  · rfl
  · split <;> rfl

theorem input_press {key : Key} (hbackspace : key ≠ .backspace) (hclear : key ≠ .clear) :
    (pad.press key).input = pad.input ++ key.typed := by
  cases key with
  | digits digits => rfl
  | operator operator => simp only [press, appendOperator, Key.typed, String.append_assoc]
  | calculate => simp only [press, input_calculate, Key.typed, String.append_empty]
  | backspace => exact absurd rfl hbackspace
  | clear => exact absurd rfl hclear

theorem input_pressAll (hkeys : ∀ key ∈ keys, key ≠ .backspace ∧ key ≠ .clear) :
    (pad.pressAll keys).input = pad.input ++ typed keys := by
  induction keys generalizing pad with
  | nil => exact String.append_empty.symm
  | cons key rest ih =>
    obtain ⟨⟨hbackspace, hclear⟩, hrest⟩ := List.forall_mem_cons.mp hkeys
    rw [pressAll_cons, ih hrest, input_press hbackspace hclear, typed, String.append_assoc]

/-- The space in front of an operator is all that is left of it. -/
theorem input_operator_backspace (hoperator : operator ∈ ["+", "-", "*", "/"]) :
    ((pad.press (.operator operator)).press .backspace).input = pad.input ++ " " := by
  obtain ⟨c, hc, rfl⟩ : ∃ c, Text.isBlank c = false ∧ operator = String.singleton c := by
    simp only [List.mem_cons, List.not_mem_nil, or_false] at hoperator
    rcases hoperator with rfl | rfl | rfl | rfl
    · exact ⟨'+', rfl, rfl⟩
    · exact ⟨'-', rfl, rfl⟩
    · exact ⟨'*', rfl, rfl⟩
    · exact ⟨'/', rfl, rfl⟩
  have hinput : (pad.press (.operator (String.singleton c))).input.toList =
      (pad.input.toList ++ [' ']) ++ c :: [' '] := by
    simp [press, appendOperator]
  have hspace : Text.dropTail Text.isBlank [' '] = [] := rfl
  change String.ofList (Text.trimBack (pad.press _).input.toList).dropLast = _
  rw [hinput, Text.trimBack, Number.dropTail_append_cons _ hc, hspace, List.dropLast_concat,
    String.ofList_append, String.ofList_toList]

/-- Something typed is calculated. -/
theorem calculate_fst {pad : HexPad} (h : Text.isEmpty pad.input = false) :
    pad.calculate.1 = some (Hex.evaluate pad.input) := by
  unfold calculate
  rw [if_neg (by simp [h])]
  cases Hex.evaluate pad.input <;> rfl

theorem isEmpty_append_of_digit {text : String} {c : Char} (hc : [c] <:+ text.toList)
    (hdigit : Number.isHexDigit c = true) (behind : String) :
    Text.isEmpty (text ++ behind) = false := by
  have hmem : c ∈ (text ++ behind).toList := by
    rw [String.toList_append]
    exact List.mem_append_left _ (hc.subset (List.mem_singleton_self c))
  refine Bool.eq_false_iff.mpr fun hempty => ?_
  have hblank := Hex.isHexDigit_eq_false_of_isBlank (List.all_eq_true.mp hempty c hmem)
  exact nomatch hblank.symm.trans hdigit

/-- An operator behind an operand, taken back before anything else is typed. Whatever is typed and
calculated afterwards, a calculation has the outcome that it has without the two keys, the same
integer or a failure of the same kind, as long as what has been typed since does not begin with a
digit. If it does, the space that is left keeps its digits apart from the operand, and the
calculation fails, for the text is malformed. -/
theorem operator_taken_back (hlast : pad.input.toList.getLast?.any Number.isHexDigit = true)
    (hoperator : operator ∈ ["+", "-", "*", "/"])
    (hkeys : ∀ key ∈ keys, key ≠ .backspace ∧ key ≠ .clear) :
    let kept := pad.pressAll keys
    let retaken := pad.pressAll (.operator operator :: .backspace :: keys)
    ∃ outcome other, kept.calculate.1 = some outcome ∧ retaken.calculate.1 = some other ∧
      ((typed keys).toList.head?.any Number.isHexDigit = false → SameKind other outcome) ∧
      ((typed keys).toList.head?.any Number.isHexDigit = true →
        ∃ fault, other = .error fault ∧ fault.failure.kind = .malformed) := by
  intro kept retaken
  obtain ⟨c, hc, hdigit⟩ := (Option.any_eq_true _ _).mp hlast
  obtain ⟨front, hfront⟩ := List.getLast?_eq_some_iff.mp hc
  have hsuffix : [c] <:+ pad.input.toList := ⟨front, hfront.symm⟩
  have hkept : kept.input = pad.input ++ typed keys := input_pressAll hkeys
  have hretaken : retaken.input = pad.input ++ " " ++ typed keys := by
    rw [← input_operator_backspace hoperator, ← input_pressAll hkeys, ← pressAll_cons,
      ← pressAll_cons]
  have hkeptEmpty : Text.isEmpty kept.input = false := by
    rw [hkept]
    exact isEmpty_append_of_digit hsuffix hdigit _
  have hretakenEmpty : Text.isEmpty retaken.input = false := by
    rw [hretaken, String.append_assoc]
    exact isEmpty_append_of_digit hsuffix hdigit _
  refine ⟨_, _, calculate_fst hkeptEmpty, calculate_fst hretakenEmpty, fun hno => ?_, fun hyes => ?_⟩
  · rw [hkept, hretaken]
    refine Hex.evaluate_append_space fun _ d _ hd _ => ?_
    obtain ⟨rest, hrest⟩ := hd
    rwa [← hrest] at hno
  · rw [hretaken]
    obtain ⟨d, hd, hfirst⟩ := (Option.any_eq_true _ _).mp hyes
    obtain ⟨rest, hrest⟩ := List.head?_eq_some_iff.mp hd
    exact Hex.evaluate_append_space_of_digits hsuffix ⟨rest, hrest.symm⟩ ⟨hdigit, hfirst⟩

/-- Plus corrected to times, with a further digit typed after a first calculation. -/
theorem operator_taken_back_for_times :
    let pad := pressAll {} [.digits "A"]
    let keys : List Key := [.operator "*", .digits "2", .calculate, .digits "0"]
    pad.input.toList.getLast?.any Number.isHexDigit = true ∧ "+" ∈ ["+", "-", "*", "/"] ∧
      (∀ key ∈ keys, key ≠ .backspace ∧ key ≠ .clear) ∧
      (typed keys).toList.head?.any Number.isHexDigit = false ∧
      (pad.pressAll (.operator "+" :: .backspace :: keys)).input = "A  * 20" ∧
      (pad.pressAll (.operator "+" :: .backspace :: keys)).calculate.1 = some (.ok 320) := by
  intro pad keys
  have hlast : pad.input.toList.getLast?.any Number.isHexDigit = true := by decide +kernel
  have hoperator : "+" ∈ ["+", "-", "*", "/"] := by decide
  have hkeys : ∀ key ∈ keys, key ≠ .backspace ∧ key ≠ .clear := by decide
  have hno : (typed keys).toList.head?.any Number.isHexDigit = false := by decide +kernel
  have hvalue : ((pad.pressAll keys).calculate.1.bind Except.toOption) = some 320 := by
    decide +kernel
  obtain ⟨outcome, other, hkept, hretaken, hsame, -⟩ :=
    operator_taken_back hlast hoperator hkeys
  rw [hkept] at hvalue
  obtain rfl : outcome = .ok 320 := toOption_eq_some_iff.mp hvalue
  obtain rfl : other = .ok 320 := mapError_eq_ok_iff.mp (hsame hno)
  exact ⟨hlast, hoperator, hkeys, hno, by decide +kernel, hretaken⟩

/-- Digits typed directly behind an operator that was taken back do not continue the operand. -/
theorem operator_taken_back_ends_operand :
    let pad := pressAll {} [.digits "A"]
    let kept := pad.pressAll [.digits "5"]
    let retaken := pad.pressAll [.operator "+", .backspace, .digits "5"]
    kept.input = "A5" ∧ kept.calculate.1.bind Except.toOption = some 165 ∧
      retaken.input = "A 5" ∧
      (retaken.calculate.1.bind failure?).map (fun fault => fault.failure.kind) =
        some .malformed := by
  decide +kernel

end

end DeskCalculator.Keypad.HexPad
