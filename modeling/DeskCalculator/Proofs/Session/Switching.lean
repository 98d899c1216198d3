import DeskCalculator.Proofs.Scientific.Answer
import DeskCalculator.Proofs.Session.Lines

/-!
Switching a flag of the mode there and back. Each switch evaluates the input again and remembers its
value, so the way back starts from the answer that the way there has left. The mode comes back in
any case; result line and previous result come back exactly if the input still has its value, which
it always has if it does not mention the previous result.
-/
namespace DeskCalculator

open History Keypad Scientific ScientificPad

namespace Keypad.ScientificPad

variable {pad : ScientificPad} {x : Float}

/-- Whether the last operation was a calculation, and had the value `x`. -/
def Calculated (pad : ScientificPad) (x : Float) : Prop :=
  ∃ typed : ScientificPad, typed.calculate = (some (.ok x), pad)

theorem calculated_of_evaluate (typed : ScientificPad)
    (hinput : Text.isEmpty typed.input = false)
    (hvalue : Scientific.evaluate typed.input typed.memory.mode typed.memory.ans = .ok x) :
    typed.calculate.2.Calculated x := by
  refine ⟨typed, Prod.ext ?_ rfl⟩
  rw [typed.calculate_eq hinput, hvalue]

theorem mode_calculate (pad : ScientificPad) :
    pad.calculate.2.memory.mode = pad.memory.mode := by
  cases h : Text.isEmpty pad.input with
  | true => simp only [calculate, h, if_true]
  | false => rw [pad.calculate_eq h]; rfl

theorem mode_switch (pad : ScientificPad) (change : Mode → Mode) :
    (pad.switch change).memory.mode = change pad.memory.mode :=
  mode_calculate _

theorem mode_switch_switch (pad : ScientificPad) {change : Mode → Mode}
    (hchange : ∀ mode, change (change mode) = mode) :
    ((pad.switch change).switch change).memory.mode = pad.memory.mode := by
  rw [mode_switch, mode_switch, hchange]

theorem unit_toggled_toggled (mode : Mode) :
    { { mode with unit := mode.unit.toggled } with unit := mode.unit.toggled.toggled } = mode := by
  rw [AngleUnit.toggled_toggled]

theorem inverse_not_not (mode : Mode) :
    { { mode with inverse := !mode.inverse } with inverse := !!mode.inverse } = mode := by
  rw [Bool.not_not]

/-- After a calculation the input is that which was calculated, in the same mode, and both the
result line and the memory hold its value. -/
theorem Calculated.exists_evaluate (h : pad.Calculated x) :
    Text.isEmpty pad.input = false ∧
      pad = ⟨pad.input, .result (Number.plain x), ⟨pad.memory.mode, x⟩⟩ ∧
      ∃ ans, Scientific.evaluate pad.input pad.memory.mode ans = .ok x := by
  obtain ⟨typed, hcalculate⟩ := h
  cases hinput : Text.isEmpty typed.input with
  | true => simp [calculate, hinput] at hcalculate
  | false =>
    rw [typed.calculate_eq hinput] at hcalculate
    obtain ⟨houtcome, hpad⟩ := Prod.mk.inj hcalculate
    have hvalue := Option.some.inj houtcome
    rw [hvalue] at hpad
    subst hpad
    exact ⟨hinput, rfl, typed.memory.ans, hvalue⟩

/-- The pad after a change of the mode, if there is something to calculate. -/
theorem switch_eq (pad : ScientificPad) (h : Text.isEmpty pad.input = false)
    (change : Mode → Mode) :
    let outcome := Scientific.evaluate pad.input (change pad.memory.mode) pad.memory.ans
    pad.switch change =
      ⟨pad.input, .ofOutcome outcome,
        ⟨change pad.memory.mode, outcome.toOption.getD pad.memory.ans⟩⟩ := by
  have hcalculate := calculate_eq { pad with memory.mode := change pad.memory.mode } h
  exact congrArg Prod.snd hcalculate

theorem switch_switch (h : Text.isEmpty pad.input = false) {change : Mode → Mode}
    (hchange : ∀ mode, change (change mode) = mode) :
    let ans := (pad.switch change).memory.ans
    let outcome := Scientific.evaluate pad.input pad.memory.mode ans
    (pad.switch change).switch change =
      ⟨pad.input, .ofOutcome outcome, ⟨pad.memory.mode, outcome.toOption.getD ans⟩⟩ := by
  have hinput : (pad.switch change).input = pad.input := by rw [pad.switch_eq h]
  have hback := (pad.switch change).switch_eq (hinput.symm ▸ h) change
  rw [mode_switch, hchange, hinput] at hback
  exact hback

/-- A change of the mode and its reversal bring a result back exactly if the input has the same
value with the answer that stands in the memory in between. -/
theorem switch_switch_eq_iff (h : pad.Calculated x) {change : Mode → Mode}
    (hchange : ∀ mode, change (change mode) = mode) :
    (pad.switch change).switch change = pad ↔
      Scientific.evaluate pad.input pad.memory.mode (pad.switch change).memory.ans = .ok x := by
  obtain ⟨hinput, hpad, -⟩ := h.exists_evaluate
  have hback := switch_switch hinput hchange
  constructor
  · intro hrestored
    rw [hback] at hrestored
    have hreadout := congrArg ScientificPad.readout (hrestored.trans hpad)
    have hans := congrArg (fun pad => pad.memory.ans) (hrestored.trans hpad)
    cases houtcome :
        Scientific.evaluate pad.input pad.memory.mode (pad.switch change).memory.ans with
    | ok y =>
      rw [houtcome] at hans
      exact congrArg Except.ok hans
    | error fault =>
      rw [houtcome] at hreadout
      exact nomatch hreadout
  · intro houtcome
    refine hback.trans ?_
    rw [houtcome]
    exact hpad.symm

/-- An input that does not mention the previous result gives its result again. -/
theorem Calculated.switch_switch (h : pad.Calculated x) (hans : ¬Mentions pad.input answerName)
    {change : Mode → Mode} (hchange : ∀ mode, change (change mode) = mode) :
    (pad.switch change).switch change = pad := by
  obtain ⟨-, -, ans, hvalue⟩ := h.exists_evaluate
  rw [switch_switch_eq_iff h hchange, evaluate_eq_of_not_mentions hans _ _ ans]
  exact hvalue

end Keypad.ScientificPad

namespace Session

def unitLine : AngleUnit → String
  | .degrees => ":deg"
  | .radians => ":rad"

theorem ofLine_unitLine (unit : AngleUnit) :
    Input.ofLine (unitLine unit) = .command (.unit unit) := by
  cases unit <;> decide

theorem ofLine_inverse : Input.ofLine ":inv" = .command .inverse := by decide

/-- The other unit is reached by a switch. -/
theorem setUnit_toggled (session : Session) :
    session.setUnit session.mode.unit.toggled =
      { session with pad := session.pad.toggleUnit } := by
  unfold setUnit
  rw [if_neg]
  cases session.mode.unit <;> decide

theorem setUnit_setUnit_toggled (session : Session) :
    (session.setUnit session.mode.unit.toggled).setUnit session.mode.unit =
      { session with pad := session.pad.toggleUnit.toggleUnit } := by
  have hthere := session.setUnit_toggled
  have hmode : session.pad.toggleUnit.memory.mode.unit = session.mode.unit.toggled :=
    congrArg Mode.unit (session.pad.mode_switch _)
  have hunit : (session.setUnit session.mode.unit.toggled).mode.unit.toggled =
      session.mode.unit := by
    rw [hthere, mode, hmode, AngleUnit.toggled_toggled]
  have hback := (session.setUnit session.mode.unit.toggled).setUnit_toggled
  rw [hunit, hthere] at hback
  rw [hthere]
  exact hback

theorem Input.isEmpty_of_ofLine {line text : String} (h : Input.ofLine line = .expression text) :
    Text.isEmpty text = false := by
  unfold Input.ofLine at h
  split at h
  · exact nomatch h
  · exact nomatch h
  · next hblank hcommand =>
    obtain rfl := Input.expression.inj h
    exact Text.isEmpty_trimmed fun hnil => hblank hnil

theorem calculated_follow (session : Session) {line text : String} {x : Float}
    (hline : Input.ofLine line = .expression text) (hvalue : session.outcome text = .ok x) :
    (session.follow (.expression text)).pad.Calculated x := by
  refine ⟨session.pad.clear.append text, ?_⟩
  refine (session.pad.calculate_typed (Input.isEmpty_of_ofLine hline)).trans ?_
  exact congrArg (fun outcome => (some outcome, _)) hvalue

section

variable {σ : Type} [Store σ]

theorem handle_unitLine (session : Session) (now : ℕ) (unit : AngleUnit) (store : σ) :
    session.handle now (unitLine unit) store =
      ((session.setUnit unit).printRefreshed unit.label, session.setUnit unit, store) := by
  rw [handle_eq, ofLine_unitLine]
  rfl

/-- What is printed when a result is shown again. -/
theorem printRefreshed_of_calculated {session : Session} {x : Float}
    (h : session.pad.Calculated x) (status : String) :
    session.printRefreshed status = .print (status ++ "\n" ++ ("= " ++ Number.plain x)) := by
  obtain ⟨hinput, hpad, -⟩ := h.exists_evaluate
  have hreadout : session.pad.readout = .result (Number.plain x) :=
    congrArg ScientificPad.readout hpad
  unfold printRefreshed
  rw [if_neg (by simp [hinput]), hreadout]
  rfl

/-- Handles a line, each with its time, and then another one. -/
def handleBoth (session : Session) (first second : ℕ × String) (store : σ) : Step × Session × σ :=
  let (_, next, kept) := session.handle first.1 first.2 store
  next.handle second.1 second.2 kept

/-- Asking for the other unit and back again leaves a session as it was. -/
theorem unit_there_and_back {session : Session} {x : Float} (h : session.pad.Calculated x)
    (hans : ¬Mentions session.pad.input answerName) (now later : ℕ) (store : σ) :
    session.handleBoth (now, unitLine session.mode.unit.toggled)
        (later, unitLine session.mode.unit) store =
      (.print (session.mode.unit.label ++ "\n" ++ ("= " ++ Number.plain x)), session, store) := by
  have hpad : session.pad.toggleUnit.toggleUnit = session.pad :=
    h.switch_switch hans unit_toggled_toggled
  have hrestored : (session.setUnit session.mode.unit.toggled).setUnit session.mode.unit =
      session := by
    rw [setUnit_setUnit_toggled, hpad]
  unfold handleBoth
  simp only [handle_unitLine, hrestored]
  rw [printRefreshed_of_calculated h]

def inverseStatus (session : Session) : String :=
  if session.mode.inverse then "inverse on" else "inverse off"

theorem handle_inverse (session : Session) (now : ℕ) (store : σ) :
    session.handle now ":inv" store =
      let switched := { session with pad := session.pad.toggleInverse }
      (switched.printRefreshed switched.inverseStatus, switched, store) := by
  rw [handle_eq, ofLine_inverse]
  rfl

theorem inverse_there_and_back {session : Session} {x : Float} (h : session.pad.Calculated x)
    (hans : ¬Mentions session.pad.input answerName) (now later : ℕ) (store : σ) :
    session.handleBoth (now, ":inv") (later, ":inv") store =
      (.print (session.inverseStatus ++ "\n" ++ ("= " ++ Number.plain x)), session, store) := by
  have hpad : session.pad.toggleInverse.toggleInverse = session.pad :=
    h.switch_switch hans inverse_not_not
  unfold handleBoth
  simp only [handle_inverse, hpad]
  rw [printRefreshed_of_calculated h]

end

/-- Switching a flag there and back. The mode comes back in any case. After a calculation with a
value, the result and the previous result come back exactly if the input has the same value with the
answer that the first switch leaves; that is so whenever the input does not mention the previous
result, and a session then prints the result again. -/
theorem switching_back_restores :
    (∀ pad : ScientificPad,
      pad.toggleUnit.toggleUnit.memory.mode = pad.memory.mode ∧
      pad.toggleInverse.toggleInverse.memory.mode = pad.memory.mode) ∧
    (∀ (pad : ScientificPad) (x : Float), pad.Calculated x →
      (pad.toggleUnit.toggleUnit = pad ↔
        Scientific.evaluate pad.input pad.memory.mode pad.toggleUnit.memory.ans = .ok x) ∧
      (pad.toggleInverse.toggleInverse = pad ↔
        Scientific.evaluate pad.input pad.memory.mode pad.toggleInverse.memory.ans = .ok x) ∧
      (¬Mentions pad.input answerName →
        pad.toggleUnit.toggleUnit = pad ∧ pad.toggleInverse.toggleInverse = pad)) ∧
    ∀ (σ : Type) [Store σ] (before : Session) (store : σ) (now first second : ℕ)
      (line text : String) (x : Float),
      Input.ofLine line = .expression text → before.outcome text = .ok x →
      ¬Mentions text answerName →
      let (shown, session, kept) := before.handle now line store
      shown = .print ("= " ++ Number.plain x) ∧
      session.handleBoth (first, unitLine session.mode.unit.toggled)
          (second, unitLine session.mode.unit) kept =
        (.print (session.mode.unit.label ++ "\n" ++ ("= " ++ Number.plain x)), session, kept) ∧
      session.handleBoth (first, ":inv") (second, ":inv") kept =
        (.print (session.inverseStatus ++ "\n" ++ ("= " ++ Number.plain x)), session, kept) := by
  refine ⟨fun pad => ⟨?_, ?_⟩, fun pad x h => ⟨?_, ?_, fun hans => ⟨?_, ?_⟩⟩, ?_⟩
  · exact mode_switch_switch pad unit_toggled_toggled
  · exact mode_switch_switch pad inverse_not_not
  · exact switch_switch_eq_iff h unit_toggled_toggled
  · exact switch_switch_eq_iff h inverse_not_not
  · exact h.switch_switch hans unit_toggled_toggled
  · exact h.switch_switch hans inverse_not_not
  · intro σ _ before store now first second line text x hline hvalue hans
    have hcalculated := before.calculated_follow hline hvalue
    rw [handle_eq, hline]
    refine ⟨?_, ?_, ?_⟩
    · simp only [answer, hvalue, verdict]
    · exact unit_there_and_back hcalculated hans first second _
    · exact inverse_there_and_back hcalculated hans first second _

/-- A root, which is a square while the inverse flag is on, and a session with it. -/
theorem switching_back_restores_root :
    let pad := ((ofMode {}).append "sqrt(9)").calculate.2
    let session : Session := ⟨⟨"sqrt(9)", .result "3", ⟨{ unit := .radians }, 3.0⟩⟩, 10⟩
    let kept : MemoryStore := ⟨[⟨1, "sqrt(9)", "3", 0⟩]⟩
    pad.Calculated 3.0 ∧ ¬Mentions pad.input answerName ∧
      pad.toggleInverse.readout.text = "= 81" ∧ pad.toggleInverse.toggleInverse = pad ∧
      Input.ofLine " sqrt(9)" = .expression "sqrt(9)" ∧
      (start .radians 10).outcome "sqrt(9)" = .ok 3.0 ∧
      (start .radians 10).handle 0 " sqrt(9)" ({} : MemoryStore) = (.print "= 3", session, kept) ∧
      session.handleBoth (1, ":deg") (2, ":rad") kept = (.print "RAD\n= 3", session, kept) ∧
      session.handleBoth (1, ":inv") (2, ":inv") kept =
        (.print "inverse off\n= 3", session, kept) := by
  intro pad session kept
  have hpad : Scientific.evaluate "sqrt(9)" {} 0.0 = .ok 3.0 :=
    toOption_eq_some_iff.mp (by decide +kernel)
  have hcalculated : pad.Calculated 3.0 :=
    ((ofMode {}).append "sqrt(9)").calculated_of_evaluate (by decide) hpad
  have hinput : pad.input = "sqrt(9)" := by decide +kernel
  have hans : ¬Mentions "sqrt(9)" answerName := by decide +kernel
  have hunread : ¬Mentions pad.input answerName := hinput.symm ▸ hans
  have hline : Input.ofLine " sqrt(9)" = .expression "sqrt(9)" := by decide
  have hvalue : (start .radians 10).outcome "sqrt(9)" = .ok 3.0 :=
    toOption_eq_some_iff.mp (by decide +kernel)
  have hhandle : (start .radians 10).handle 0 " sqrt(9)" ({} : MemoryStore) =
      (.print "= 3", session, kept) := by decide +kernel
  obtain ⟨-, hpads, hsessions⟩ := switching_back_restores
  obtain ⟨-, -, hrestored⟩ := hpads pad 3.0 hcalculated
  have hswitches := hsessions MemoryStore (start .radians 10) {} 0 1 2 _ _ _ hline hvalue hans
  rw [hhandle] at hswitches
  obtain ⟨-, hunit, hinverse⟩ := hswitches
  have hshown : session.inverseStatus ++ "\n" ++ ("= " ++ Number.plain 3.0) =
      "inverse off\n= 3" := by decide +kernel
  have hunitShown : session.mode.unit.label ++ "\n" ++ ("= " ++ Number.plain 3.0) = "RAD\n= 3" := by
    decide +kernel
  rw [hunitShown] at hunit
  rw [hshown] at hinverse
  exact ⟨hcalculated, hunread, by decide +kernel, (hrestored hunread).2, hline, hvalue, hhandle,
    hunit, hinverse⟩

/-- An input that mentions the previous result takes its own value for it, so it counts on. -/
theorem switching_back_counts_on :
    let pad := ((ofMode {}).append "Ans+1").calculate.2
    pad.Calculated 1.0 ∧ pad.readout.text = "= 1" ∧ pad.memory.ans = 1.0 ∧
      pad.toggleUnit.toggleUnit.readout.text = "= 3" ∧ pad.toggleUnit.toggleUnit.memory.ans = 3.0 ∧
      pad.toggleInverse.toggleInverse.readout.text = "= 3" ∧
      pad.toggleInverse.toggleInverse.memory.ans = 3.0 ∧
      ¬(pad.toggleUnit.toggleUnit = pad ∧ pad.toggleInverse.toggleInverse = pad) := by
  intro pad
  have hpad : Scientific.evaluate "Ans+1" {} 0.0 = .ok 1.0 :=
    toOption_eq_some_iff.mp (by decide +kernel)
  have hcalculated : pad.Calculated 1.0 :=
    ((ofMode {}).append "Ans+1").calculated_of_evaluate (by decide) hpad
  have hthree : pad.toggleUnit.toggleUnit.readout.text = "= 3" := by decide +kernel
  have hone : pad.readout.text = "= 1" := by decide +kernel
  refine ⟨hcalculated, hone, by decide +kernel, hthree, by decide +kernel, by decide +kernel,
    by decide +kernel, ?_⟩
  intro hrestored
  rw [hrestored.1, hone] at hthree
  exact absurd hthree (by decide)

end Session

end DeskCalculator
