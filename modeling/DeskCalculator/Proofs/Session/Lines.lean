import DeskCalculator.Session
import Mathlib.Data.Nat.Notation
import Mathlib.Tactic.SplitIfs

/-!
What a session does with a line. A line is blank, an expression or a command, and that decides what
is printed, which session goes on and which calculation is saved. Only a listing asks the store for
anything, and saving is all that is ever done to it.
-/
namespace DeskCalculator

open History Keypad Scientific

/-- What is left of a line without the blanks on both sides is not blank. -/
theorem Text.isEmpty_trimmed {line : String} (h : trim line.toList ≠ []) :
    isEmpty (trimmed line) = false := by
  have hne : (trimFront line.toList).reverse.dropWhile isBlank ≠ [] := by
    intro hnil
    apply h
    unfold trim trimBack dropTail
    rw [hnil, List.reverse_nil]
  have hmem : List.head _ hne ∈ trim line.toList := List.mem_reverse.mpr (List.head_mem hne)
  unfold isEmpty trimmed
  rw [String.toList_ofList, List.all_eq_false]
  exact ⟨_, hmem, by rw [List.head_dropWhile_not isBlank hne]; decide⟩

def Keypad.Readout.ofOutcome : Except Fault Float → Readout
  | .ok x => .result (Number.plain x)
  | .error _ => .failed

def Scientific.Memory.recall (memory : Memory) (outcome : Except Fault Float) : Memory :=
  { memory with ans := outcome.toOption.getD memory.ans }

/-- Calculating an input line that is not blank. -/
theorem Keypad.ScientificPad.calculate_eq (pad : ScientificPad)
    (h : Text.isEmpty pad.input = false) :
    let outcome := Scientific.evaluate pad.input pad.memory.mode pad.memory.ans
    pad.calculate =
      (some outcome, ⟨pad.input, .ofOutcome outcome, pad.memory.recall outcome⟩) := by
  unfold calculate
  rw [if_neg (by simp [h])]
  unfold Memory.evaluate
  cases Scientific.evaluate pad.input pad.memory.mode pad.memory.ans with
  | ok x => rfl
  | error fault => rfl

/-- Calculating a text that has just been typed. -/
theorem Keypad.ScientificPad.calculate_typed (pad : ScientificPad) {text : String}
    (h : Text.isEmpty text = false) :
    let outcome := Scientific.evaluate text pad.memory.mode pad.memory.ans
    (pad.clear.append text).calculate =
      (some outcome, ⟨text, .ofOutcome outcome, pad.memory.recall outcome⟩) := by
  have hinput : (pad.clear.append text).input = text := String.empty_append
  have hcalculate := (pad.clear.append text).calculate_eq (hinput ▸ h)
  rw [hinput] at hcalculate
  exact hcalculate

def History.keep {σ : Type} [Store σ] (store : σ) (calculation : ℕ × String × String) : σ :=
  (Store.save calculation.1 calculation.2.1 calculation.2.2 store).2

theorem History.saveIfPossible_snd {σ : Type} [Store σ] (now : ℕ) (formula result : String)
    (store : σ) : (saveIfPossible now formula result store).2 = keep store (now, formula, result) := by
  unfold keep saveIfPossible
  rcases Store.save now formula result store with ⟨saved, after⟩
  rfl

namespace Session

inductive Input where
  | blank
  | expression (text : String)
  | command (command : Command)
deriving Repr, DecidableEq

def Input.ofLine (line : String) : Input :=
  match Text.trim line.toList with
  | [] => .blank
  | ':' :: name => .command (.ofName (String.ofList (Text.trim name)))
  | _ => .expression (Text.trimmed line)

def outcome (session : Session) (text : String) : Except Fault Float :=
  Scientific.evaluate text session.mode session.pad.memory.ans

def verdict : Except Fault Float → String
  | .ok x => "= " ++ Number.plain x
  | .error fault => "Error: " ++ fault.failure.text

def calculation? (session : Session) (now : ℕ) : Input → Option (ℕ × String × String)
  | .expression text => (session.outcome text).toOption.map fun x => (now, text, Number.plain x)
  | .blank | .command _ => none

def obey (session : Session) : Command → Session
  | .unit unit => session.setUnit unit
  | .inverse => { session with pad := session.pad.toggleInverse }
  | .clear => { session with pad := session.pad.clear }
  | .history | .help | .quit | .unknown _ => session

def follow (session : Session) : Input → Session
  | .blank => session
  | .expression text =>
    { session with
      pad := ⟨text, .ofOutcome (session.outcome text),
        session.pad.memory.recall (session.outcome text)⟩ }
  | .command command => session.obey command

variable {σ : Type} [Store σ]

def answer (session : Session) (store : σ) : Input → Step
  | .blank => .nothing
  | .expression text => .print (verdict (session.outcome text))
  | .command command => (session.perform command store).1

theorem perform_snd (session : Session) (command : Command) (store : σ) :
    (session.perform command store).2 = session.obey command := by
  cases command with
  | history =>
    simp only [perform]
    cases Store.listRecent session.recentLimit store <;> rfl
  | unit unit | inverse | clear | help | quit | unknown name => rfl

/-- Evaluating a text prints its outcome, remembers its value and saves it. -/
theorem evaluate_eq (session : Session) (now : ℕ) {text : String} (h : Text.isEmpty text = false)
    (store : σ) :
    session.evaluate now text store =
      (.print (verdict (session.outcome text)), session.follow (.expression text),
        (session.calculation? now (.expression text)).toList.foldl keep store) := by
  have hne : text ≠ "" := by
    rintro rfl
    exact absurd h (by decide)
  have hcalculate : (session.pad.clear.append text).calculate =
      (some (session.outcome text), ⟨text, .ofOutcome (session.outcome text),
        session.pad.memory.recall (session.outcome text)⟩) :=
    session.pad.calculate_typed h
  simp only [evaluate, if_neg hne, hcalculate, follow, calculation?]
  cases session.outcome text with
  | ok x =>
    simp only [saveIfPossible_snd]
    rfl
  | error fault => rfl

/-- A line is answered, the session follows it, and its calculation is saved if it has one. -/
theorem handle_eq (session : Session) (now : ℕ) (line : String) (store : σ) :
    session.handle now line store =
      (session.answer store (.ofLine line), session.follow (.ofLine line),
        (session.calculation? now (.ofLine line)).toList.foldl keep store) := by
  unfold handle Input.ofLine
  split
  · next name htrim =>
    rw [htrim]
    simp only [follow, ← session.perform_snd _ store]
    rfl
  · next rest hname =>
    cases htrim : Text.trim line.toList with
    | nil => rfl
    | cons c rest =>
      have htext : String.ofList (c :: rest) = Text.trimmed line := by rw [Text.trimmed, htrim]
      have hblank : Text.isEmpty (Text.trimmed line) = false :=
        Text.isEmpty_trimmed (by rw [htrim]; exact List.cons_ne_nil c rest)
      -- The match runs over the trimmed line, so its cases for commands have to be excluded again.
      split
      · next hnil => exact nomatch hnil
      · next name hcons => exact absurd (htrim.trans hcons) (hname name)
      · rw [htext]
        exact session.evaluate_eq now hblank store

end Session

end DeskCalculator
