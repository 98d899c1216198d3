import DeskCalculator.Proofs.Session.Switching

/-!
What the scientific calculator remembers and shows, whatever keys are pressed. Three of the keys
evaluate the input line; the last value that they have found is the previous result, and the result
line shows that value, a failure, or nothing since it was cleared. No other key touches the memory.
-/
namespace DeskCalculator

open Scientific

namespace Scientific

/-- A value that passes the check is finite. -/
theorem isFinite_of_checkFinite {x y : Float} (h : checkFinite x = .ok y) : y.isFinite = true := by
  unfold checkFinite at h
  split_ifs at h with hnumber hrange
  obtain rfl := Except.ok.inj h
  have hmodel : x.toModel.unpack.isNaN ≠ true ∧ x.toModel.unpack.isInf ≠ true := ⟨hnumber, hrange⟩
  change x.toModel.unpack.isFinite = true
  generalize x.toModel.unpack = u at hmodel ⊢
  cases u with
  | infinity sign => exact absurd rfl hmodel.2
  | notANumber => exact absurd rfl hmodel.1
  | zero sign => rfl
  | finite sign mantissa exponent h => rfl

/-- A text has no other values than finite ones. -/
theorem isFinite_of_evaluate {text : String} {mode : Mode} {ans x : Float}
    (h : evaluate text mode ans = .ok x) : x.isFinite = true := by
  obtain ⟨tree, -, h⟩ := bind_eq_ok_iff.mp h
  obtain ⟨y, -, hfinite⟩ := bind_eq_ok_iff.mp h
  exact isFinite_of_checkFinite hfinite

end Scientific

namespace Keypad

inductive Key where
  /-- Digits, brackets or an operator. -/
  | text (text : String)
  | function (name : String)
  | constant (constant : Constant)
  | clear
  | backspace
  | unit
  | inverse
  | calculate
deriving Repr, DecidableEq

namespace Key

def evaluates : Key → Bool
  | unit | inverse | calculate => true
  | text _ | function _ | constant _ | clear | backspace => false

def change : Key → Mode → Mode
  | unit, mode => { mode with unit := mode.unit.toggled }
  | inverse, mode => { mode with inverse := !mode.inverse }
  | _, mode => mode

end Key

namespace ScientificPad

def press (pad : ScientificPad) : Key → ScientificPad
  | .text text => pad.append text
  | .function name => pad.appendFunction name
  | .constant constant => pad.appendConstant constant
  | .clear => pad.clear
  | .backspace => pad.backspace
  | .unit => pad.toggleUnit
  | .inverse => pad.toggleInverse
  | .calculate => pad.calculate.2

/-- The outcome of the evaluation that a key sets off. There is none without something typed. -/
def evaluation? (pad : ScientificPad) (key : Key) : Option (Except Fault Float) :=
  if key.evaluates && !Text.isEmpty pad.input then
    some (Scientific.evaluate pad.input (key.change pad.memory.mode) pad.memory.ans)
  else none

variable {pad : ScientificPad} {key : Key} {outcomes : List (Except Fault Float)}

/-- A key that evaluates does so in the mode that it has changed. -/
theorem press_of_evaluates (pad : ScientificPad) (h : key.evaluates = true) :
    pad.press key = pad.switch key.change := by
  cases key with
  | unit | inverse | calculate => rfl
  | text text | function name | constant constant | clear | backspace => exact nomatch h

/-- The other keys edit the input line; at most they clear the result line. -/
theorem press_of_not_evaluates (pad : ScientificPad) (h : key.evaluates = false) :
    (pad.press key).memory = pad.memory ∧
      ((pad.press key).readout = pad.readout ∨ (pad.press key).readout = .cleared) := by
  cases key with
  | text text | function name | constant constant | backspace => exact ⟨rfl, .inl rfl⟩
  | clear => exact ⟨rfl, .inr rfl⟩
  | unit | inverse | calculate => exact nomatch h

theorem press_of_isEmpty (h : key.evaluates = true) (hinput : Text.isEmpty pad.input = true) :
    pad.press key = { pad with memory.mode := key.change pad.memory.mode } := by
  rw [press_of_evaluates pad h, switch, calculate]
  exact congrArg Prod.snd (if_pos hinput)

theorem evaluate_of_evaluation {outcome : Except Fault Float}
    (h : pad.evaluation? key = some outcome) :
    Scientific.evaluate pad.input (key.change pad.memory.mode) pad.memory.ans = outcome := by
  unfold evaluation? at h
  split_ifs at h
  exact Option.some.inj h

theorem isEmpty_of_evaluation (hkey : key.evaluates = true) (h : pad.evaluation? key = none) :
    Text.isEmpty pad.input = true := by
  simpa [evaluation?, hkey] using h

theorem press_of_evaluation {outcome : Except Fault Float}
    (h : pad.evaluation? key = some outcome) :
    pad.press key = ⟨pad.input, .ofOutcome outcome,
      ⟨key.change pad.memory.mode, outcome.toOption.getD pad.memory.ans⟩⟩ := by
  obtain rfl := evaluate_of_evaluation h
  unfold evaluation? at h
  split_ifs at h with hkey
  obtain ⟨hevaluates, hinput⟩ := (Bool.and_eq_true _ _).mp hkey
  rw [press_of_evaluates pad hevaluates, pad.switch_eq (by simpa using hinput)]

theorem change_of_not_evaluates (h : key.evaluates = false) (mode : Mode) :
    key.change mode = mode := by
  cases key with
  | text text | function name | constant constant | clear | backspace => rfl
  | unit | inverse | calculate => exact nomatch h

/-- Only a value replaces the previous result, and only the keys for it change the mode. -/
theorem memory_press (pad : ScientificPad) (key : Key) :
    (pad.press key).memory = ⟨key.change pad.memory.mode,
      ((pad.evaluation? key).bind Except.toOption).getD pad.memory.ans⟩ := by
  cases hevaluation : pad.evaluation? key with
  | some outcome => rw [press_of_evaluation hevaluation]; rfl
  | none =>
    cases hkey : key.evaluates with
    | false =>
      rw [(press_of_not_evaluates pad hkey).1, change_of_not_evaluates hkey]
      rfl
    | true =>
      rw [press_of_isEmpty hkey (isEmpty_of_evaluation hkey hevaluation)]
      rfl

def pressAll (pad : ScientificPad) (keys : List Key) : ScientificPad := keys.foldl press pad

def evaluations (pad : ScientificPad) : List Key → List (Except Fault Float)
  | [] => []
  | key :: rest => (pad.evaluation? key).toList ++ (pad.press key).evaluations rest

def lastValue (outcomes : List (Except Fault Float)) : Float :=
  (outcomes.filterMap Except.toOption).getLastD 0.0

theorem lastValue_append (outcomes : List (Except Fault Float))
    (outcome? : Option (Except Fault Float)) :
    lastValue (outcomes ++ outcome?.toList) =
      (outcome?.bind Except.toOption).getD (lastValue outcomes) := by
  unfold lastValue
  rw [List.filterMap_append]
  rcases outcome? with _ | fault | x
  · exact congrArg (List.getLastD · 0.0) (List.append_nil _)
  · exact congrArg (List.getLastD · 0.0) (List.append_nil _)
  · exact List.getLastD_concat

structure Recalls (pad : ScientificPad) (outcomes : List (Except Fault Float)) : Prop where
  ans_eq : pad.memory.ans = lastValue outcomes
  isFinite : pad.memory.ans.isFinite = true
  readout_cases : pad.readout = .cleared ∨ pad.readout = .failed ∨
    pad.readout = .result (Number.plain pad.memory.ans)

theorem recalls_ofMode (mode : Mode) : (ofMode mode).Recalls [] where
  ans_eq := rfl
  isFinite := by
    have hzero : (0.0 : Float).isFinite = true := by decide +kernel
    exact hzero
  readout_cases := .inl rfl

namespace Recalls

/-- A key adds the outcome of its evaluation, if it sets one off. -/
theorem press (h : pad.Recalls outcomes) (key : Key) :
    (pad.press key).Recalls (outcomes ++ (pad.evaluation? key).toList) := by
  have hans : (pad.press key).memory.ans =
      lastValue (outcomes ++ (pad.evaluation? key).toList) := by
    rw [memory_press, lastValue_append, h.ans_eq]
  cases hevaluation : pad.evaluation? key with
  | some outcome =>
    have hpad := press_of_evaluation hevaluation
    rw [hevaluation] at hans
    cases outcome with
    | ok x =>
      have hvalue := isFinite_of_evaluate (evaluate_of_evaluation hevaluation)
      refine ⟨hans, ?_, ?_⟩ <;> rw [hpad]
      · exact hvalue
      · exact .inr (.inr rfl)
    | error fault =>
      refine ⟨hans, ?_, ?_⟩ <;> rw [hpad]
      · exact h.isFinite
      · exact .inr (.inl rfl)
  | none =>
    have hkept : (pad.press key).memory.ans = pad.memory.ans := by
      rw [memory_press, hevaluation]
      rfl
    rw [hevaluation] at hans
    refine ⟨hans, hkept ▸ h.isFinite, ?_⟩
    rw [hkept]
    cases hkey : key.evaluates with
    | true =>
      rw [press_of_isEmpty hkey (isEmpty_of_evaluation hkey hevaluation)]
      exact h.readout_cases
    | false =>
      rcases (press_of_not_evaluates pad hkey).2 with hsame | hcleared
      · exact hsame ▸ h.readout_cases
      · exact .inl hcleared

theorem pressAll (h : pad.Recalls outcomes) (keys : List Key) :
    (pad.pressAll keys).Recalls (outcomes ++ pad.evaluations keys) := by
  induction keys generalizing pad outcomes with
  | nil =>
    rw [evaluations, List.append_nil]
    exact h
  | cons key rest ih =>
    rw [evaluations, ← List.append_assoc]
    exact ih (h.press key)

end Recalls

/-- Whatever keys are pressed, the previous result is finite and is the last value that they have
found, and the result line shows it unless it was cleared or shows a failure. A further key changes
the mode only if it is there for that, and the previous result only if it finds a value. Where it
evaluates in vain, the input and the previous result stay, and where nothing is typed, the result
line stays too. -/
theorem recalls_last_value (mode : Mode) (keys : List Key) :
    let pad := (ofMode mode).pressAll keys
    pad.memory.ans = lastValue ((ofMode mode).evaluations keys) ∧
      pad.memory.ans.isFinite = true ∧
      (pad.readout.text = "= 0" ∨ pad.readout.text = "Error" ∨
        pad.readout.text = "= " ++ Number.plain pad.memory.ans) ∧
      ∀ key, let next := pad.press key
        next.memory.mode = key.change pad.memory.mode ∧
        (next.memory.ans ≠ pad.memory.ans →
          pad.evaluation? key = some (.ok next.memory.ans)) ∧
        (∀ fault, pad.evaluation? key = some (.error fault) →
          next.input = pad.input ∧ next.memory.ans = pad.memory.ans) ∧
        (key.evaluates = true → Text.isEmpty pad.input = true →
          next.input = pad.input ∧ next.memory.ans = pad.memory.ans ∧
            next.readout = pad.readout) := by
  intro pad
  have hrecalls : pad.Recalls ((ofMode mode).evaluations keys) := (recalls_ofMode mode).pressAll keys
  refine ⟨hrecalls.ans_eq, hrecalls.isFinite, ?_, fun key => ⟨?_, ?_, ?_, ?_⟩⟩
  · exact hrecalls.readout_cases.imp (congrArg Readout.text)
      (Or.imp (congrArg Readout.text) (congrArg Readout.text))
  · rw [memory_press]
  · rw [memory_press]
    intro hchanged
    rcases hevaluation : pad.evaluation? key with _ | fault | x
    · exact absurd (by rw [hevaluation]; rfl) hchanged
    · exact absurd (by rw [hevaluation]; rfl) hchanged
    · rfl
  · intro fault hevaluation
    rw [press_of_evaluation hevaluation]
    exact ⟨rfl, rfl⟩
  · intro hkey hinput
    rw [press_of_isEmpty hkey hinput]
    exact ⟨rfl, rfl, rfl⟩

/-- A sum that finds a value, goes on to fail by a division, and is cleared. -/
theorem recalls_last_value_over_failure :
    let typed := (ofMode {}).pressAll [.text "2+3"]
    let failing := (ofMode {}).pressAll [.text "2+3", .calculate, .text "/0"]
    let cleared := (ofMode {}).pressAll [.text "2+3", .calculate, .text "/0", .unit, .clear]
    (typed.press .calculate).memory.ans ≠ typed.memory.ans ∧
      typed.evaluation? .calculate = some (.ok 5.0) ∧
      (∃ fault, failing.evaluation? .unit = some (.error fault)) ∧
      (failing.press .unit).input = "2+3/0" ∧ (failing.press .unit).memory.ans = 5.0 ∧
      Key.inverse.evaluates = true ∧ Text.isEmpty cleared.input = true ∧
      (cleared.press .inverse).memory = ⟨⟨.radians, true⟩, 5.0⟩ ∧
      (cleared.press .inverse).readout = .cleared := by
  intro typed failing cleared
  have hans : typed.memory.ans = 0.0 := by decide +kernel
  have hvalue : (typed.press .calculate).memory.ans = 5.0 := by decide +kernel
  have hchanged : (typed.press .calculate).memory.ans ≠ typed.memory.ans := by
    rw [hvalue, hans]
    decide +kernel
  obtain ⟨-, -, -, hkeys⟩ := recalls_last_value {} [.text "2+3"]
  obtain ⟨-, hfound, -, -⟩ := hkeys .calculate
  have hfailure : (failing.evaluation? .unit).map Except.toOption = some none := by decide +kernel
  obtain ⟨fault, hfault⟩ : ∃ fault, failing.evaluation? .unit = some (.error fault) := by
    obtain ⟨outcome, houtcome, hnone⟩ := Option.map_eq_some_iff.mp hfailure
    cases outcome with
    | ok x => exact nomatch hnone
    | error fault => exact ⟨fault, houtcome⟩
  obtain ⟨-, -, -, hfailing⟩ :=
    recalls_last_value {} [.text "2+3", .calculate, .text "/0"]
  obtain ⟨hinput, hkept⟩ := (hfailing .unit).2.2.1 fault hfault
  have hempty : Text.isEmpty cleared.input = true := by decide +kernel
  obtain ⟨-, -, -, hcleared⟩ :=
    recalls_last_value {} [.text "2+3", .calculate, .text "/0", .unit, .clear]
  obtain ⟨hmode, -, -, hblank⟩ := hcleared .inverse
  obtain ⟨-, hsame, hreadout⟩ := hblank rfl hempty
  exact ⟨hchanged, (hfound hchanged).trans (by rw [hvalue]), ⟨fault, hfault⟩,
    hinput.trans (by decide +kernel), hkept.trans (by decide +kernel), rfl, hempty,
    congrArg₂ Memory.mk (hmode.trans (by decide +kernel)) (hsame.trans (by decide +kernel)),
    hreadout.trans (by decide +kernel)⟩

end ScientificPad

end Keypad

end DeskCalculator
