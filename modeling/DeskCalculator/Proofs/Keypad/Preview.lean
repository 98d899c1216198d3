import DeskCalculator.Keypad.Hex
import DeskCalculator.Proofs.Hex.Preview
import Mathlib.Data.List.DropRight

/-!
The live preview of the hexadecimal calculator, whatever keys have edited the input line. Digits and
taking back refresh it, and clearing sets it back to zero. An operator leaves it as it is, although
no operand is being typed behind one: until the next operand begins, the value of the previous one
stays on show.
-/
namespace DeskCalculator.Keypad

namespace HexPad

inductive Key where
  | digits (digits : String)
  | operator (operator : String)
  | backspace
  | clear
  | calculate
deriving Repr, DecidableEq

def Key.isOperator : Key → Bool
  | operator _ => true
  | digits _ | backspace | clear | calculate => false

def press (pad : HexPad) : Key → HexPad
  | .digits digits => pad.append digits
  | .operator operator => pad.appendOperator operator
  | .backspace => pad.backspace
  | .clear => pad.clear
  | .calculate => pad.calculate.2

def pressAll (pad : HexPad) (keys : List Key) : HexPad := keys.foldl press pad

theorem pressAll_cons (pad : HexPad) (key : Key) (keys : List Key) :
    pad.pressAll (key :: keys) = (pad.press key).pressAll keys := rfl

theorem pressAll_concat (pad : HexPad) (keys : List Key) (key : Key) :
    pad.pressAll (keys ++ [key]) = (pad.pressAll keys).press key := by
  rw [pressAll, List.foldl_append]
  rfl

/-- What the preview is to show behind keys that have led to an input line: the operand being typed,
or zero if nothing has been typed since the calculator was new or cleared. -/
def duePreview (keys : List Key) (input : String) : Preview :=
  match keys.getLast? with
  | none | some .clear => some "0"
  | some _ => .ofInput input

theorem duePreview_concat (keys : List Key) (key : Key) (input : String) :
    duePreview (keys ++ [key]) input =
      if key = .clear then some "0" else Preview.ofInput input := by
  rw [duePreview, List.getLast?_concat]
  cases key <;> rfl

section

variable {pad : HexPad} {key : Key} {keys : List Key}

/-- A key that is no operator leaves the preview as it has to be. -/
theorem preview_press (hoperator : key.isOperator = false) (hcalculate : key ≠ .calculate)
    (keys : List Key) :
    (pad.press key).preview = duePreview (keys ++ [key]) (pad.press key).input := by
  rw [duePreview_concat]
  cases key with
  | digits | backspace =>
    rw [if_neg nofun]
    simp only [press, append, backspace]
  | clear =>
    rw [if_pos rfl]
    rfl
  | operator => exact nomatch hoperator
  | calculate => exact absurd rfl hcalculate

theorem preview_press_of_isOperator (h : key.isOperator = true) :
    (pad.press key).preview = pad.preview := by
  cases key with
  | operator => rfl
  | digits | backspace | clear | calculate => exact nomatch h

/-- Behind an operator there is no operand to show. -/
theorem duePreview_of_isOperator (h : key.isOperator = true) (keys : List Key) :
    duePreview (keys ++ [key]) (pad.press key).input = none := by
  rw [duePreview_concat]
  cases key with
  | operator operator =>
    rw [if_neg nofun]
    exact congrArg (Option.map _) (Hex.preview_append_space _)
  | digits | backspace | clear | calculate => exact nomatch h

/-- The keys in front of the operators at the end say what is on show. -/
theorem preview_pressAll (hkeys : .calculate ∉ keys) :
    (pressAll {} keys).preview = duePreview (keys.rdropWhile Key.isOperator)
      (pressAll {} (keys.rdropWhile Key.isOperator)).input := by
  induction keys using List.reverseRecOn with
  | nil => rfl
  | append_singleton keys key ih =>
    obtain ⟨hbefore, hkey⟩ : .calculate ∉ keys ∧ .calculate ≠ key := by
      simpa using hkeys
    cases hoperator : key.isOperator with
    | true =>
      rw [List.rdropWhile_concat_pos _ _ _ hoperator, pressAll_concat,
        preview_press_of_isOperator hoperator, ih hbefore]
    | false =>
      rw [List.rdropWhile_concat_neg _ _ _ (by simp [hoperator]), pressAll_concat,
        preview_press hoperator hkey.symm keys]

theorem duePreview_of_operators (h : keys.rdropWhile Key.isOperator ≠ keys) :
    duePreview keys (pressAll {} keys).input = none := by
  rw [Ne, List.rdropWhile_eq_self_iff] at h
  obtain ⟨hne, hlast⟩ := not_forall.mp h
  rw [← List.dropLast_concat_getLast hne, pressAll_concat]
  exact duePreview_of_isOperator (not_not.mp hlast) _

/-- Whatever keys have edited the input line of a new calculator, the preview shows what was due in
front of the operators at the end of them. Behind operators a placeholder is due, so the preview is
right just if the last key was no operator or there was nothing to show in front of it either. -/
theorem preview_follows_up_to_operators (hkeys : .calculate ∉ keys) :
    let pad := pressAll {} keys
    let settled := keys.rdropWhile Key.isOperator
    pad.preview = duePreview settled (pressAll {} settled).input ∧
      (settled ≠ keys → (duePreview keys pad.input).text = "DEC: -") ∧
      (pad.preview.text = (duePreview keys pad.input).text ↔
        settled = keys ∨ pad.preview.text = "DEC: -") := by
  intro pad settled
  have hshown : pad.preview = duePreview settled (pressAll {} settled).input :=
    preview_pressAll hkeys
  have hplaceholder : settled ≠ keys → (duePreview keys pad.input).text = "DEC: -" :=
    fun hoperators => congrArg Preview.text (duePreview_of_operators hoperators)
  refine ⟨hshown, hplaceholder, ?_⟩
  by_cases hoperators : settled = keys
  · rw [hoperators] at hshown
    exact ⟨fun _ => .inl hoperators, fun _ => congrArg Preview.text hshown⟩
  · rw [hplaceholder hoperators, or_iff_right hoperators]

/-- An operator that is replaced by another one, and taken back. -/
theorem preview_follows_up_to_operators_taken_back :
    let keys : List Key := [.digits "ff", .operator "+", .backspace, .operator "*"]
    .calculate ∉ keys ∧ (pressAll {} keys).input = "ff  * " ∧
      (pressAll {} keys).preview.text = "DEC: -" ∧
      (pressAll {} keys).preview.text = (duePreview keys (pressAll {} keys).input).text := by
  intro keys
  have hkeys : .calculate ∉ keys := by decide
  have hinput : (pressAll {} keys).input = "ff  * " := by decide +kernel
  have hshown : (pressAll {} keys).preview.text = "DEC: -" := by decide +kernel
  obtain ⟨-, -, hright⟩ := preview_follows_up_to_operators hkeys
  exact ⟨hkeys, hinput, hshown, hright.mpr (.inr hshown)⟩

/-- Behind an operator the previous operand is still on show, where nothing is being typed. -/
theorem preview_shows_operand_behind_operator :
    let keys : List Key := [.digits "A", .operator "+"]
    let pad := pressAll {} keys
    .calculate ∉ keys ∧ pad.input = "A + " ∧ Hex.preview pad.input = none ∧
      pad.preview.text = "DEC: 10" ∧ (duePreview keys pad.input).text = "DEC: -" := by
  decide +kernel

end

end HexPad

end DeskCalculator.Keypad
