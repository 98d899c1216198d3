import DeskCalculator.Proofs.Keypad.Fields
import Mathlib.Data.List.DropRight

/-!
The form through any number of entries. What was done before it was last cleared leaves no trace;
since then every group is kept, the settlement on show is that of the last attempt to find one, and
the message stands there just when the last attempt was refused. A refused attempt may leave the
settlement of an earlier one on show.
-/
namespace DeskCalculator.Keypad

open Split

inductive Entry where
  | group (group : Split.Group Float)
  | clear
  | calculate (total people : String)
deriving Repr, DecidableEq

abbrev Outcome := Except (Split.Fault Float) (Settlement Float)

inductive Event where
  | grouped (group : Split.Group Float)
  | cleared
  | attempted (outcome : Outcome)

namespace Event

def isCleared : Event → Bool
  | cleared => true
  | grouped _ | attempted _ => false

def group? : Event → Option (Split.Group Float)
  | grouped group => some group
  | cleared | attempted _ => none

def outcome? : Event → Option Outcome
  | attempted outcome => some outcome
  | grouped _ | cleared => none

end Event

/-- The events behind the last clearing, or all of them if there was none. -/
def sinceCleared (events : List Event) : List Event := events.rtakeWhile fun event => !event.isCleared

def lastSettlement? (outcomes : List Outcome) : Option (Settlement Float) :=
  (outcomes.filterMap Except.toOption).getLast?

theorem lastSettlement?_append_ok (outcomes : List Outcome) (settlement : Settlement Float) :
    lastSettlement? (outcomes ++ [.ok settlement]) = some settlement := by
  rw [lastSettlement?, List.filterMap_append]
  exact List.getLast?_concat

theorem lastSettlement?_append_error (outcomes : List Outcome) (fault : Split.Fault Float) :
    lastSettlement? (outcomes ++ [.error fault]) = lastSettlement? outcomes := by
  rw [lastSettlement?, List.filterMap_append]
  exact congrArg List.getLast? (List.append_nil _)

section

variable (event : Event)

theorem sinceCleared_append_of_isCleared (h : event.isCleared = true) (events : List Event) :
    sinceCleared (events ++ [event]) = [] :=
  List.rtakeWhile_concat_neg _ _ _ (by simp [h])

theorem sinceCleared_append (h : event.isCleared = false) (events : List Event) :
    sinceCleared (events ++ [event]) = sinceCleared events ++ [event] :=
  List.rtakeWhile_concat_pos _ _ _ (by simp [h])

end

namespace SplitForm

def enter (form : SplitForm) : Entry → SplitForm
  | .group group => form.addGroup group
  | .clear => form.clear
  | .calculate total people => (form.calculate total people).2

def event (form : SplitForm) : Entry → Event
  | .group group => .grouped group
  | .clear => .cleared
  | .calculate total people => .attempted (form.calculate total people).1

def enterAll (form : SplitForm) (entries : List Entry) : SplitForm := entries.foldl enter form

def events (form : SplitForm) : List Entry → List Event
  | [] => []
  | entry :: rest => form.event entry :: (form.enter entry).events rest

/-- What a form shows after events. -/
structure Shows (form : SplitForm) (rounding : Rounding) (events : List Event) : Prop where
  rounding_eq : form.rounding = rounding
  groups_eq : form.groups = (sinceCleared events).filterMap Event.group?
  display_eq : form.display =
    (lastSettlement? ((sinceCleared events).filterMap Event.outcome?)).map Display.ofSettlement
  refused_iff : form.refused = true ↔
    ∃ fault, ((sinceCleared events).filterMap Event.outcome?).getLast? = some (.error fault)

variable {form : SplitForm} {rounding : Rounding} {events : List Event}

namespace Shows

/-- A further group leaves what is shown as it is. -/
theorem addGroup (h : form.Shows rounding events) (group : Split.Group Float) :
    (form.addGroup group).Shows rounding (events ++ [.grouped group]) := by
  have hevents := sinceCleared_append (.grouped group) rfl events
  have houtcomes : (sinceCleared (events ++ [.grouped group])).filterMap Event.outcome? =
      (sinceCleared events).filterMap Event.outcome? := by
    rw [hevents, List.filterMap_append]
    exact List.append_nil _
  refine ⟨h.rounding_eq, ?_, ?_, ?_⟩
  · rw [hevents, List.filterMap_append, ← h.groups_eq]
    rfl
  · rw [houtcomes]
    exact h.display_eq
  · rw [houtcomes]
    exact h.refused_iff

/-- A cleared form shows neither a settlement nor a message. -/
theorem clear (h : form.Shows rounding events) :
    form.clear.Shows rounding (events ++ [.cleared]) := by
  have hevents := sinceCleared_append_of_isCleared .cleared rfl events
  refine ⟨h.rounding_eq, ?_, ?_, ?_⟩
  · rw [hevents]
    rfl
  · rw [hevents]
    rfl
  · rw [hevents]
    constructor
    · intro hrefused
      exact nomatch hrefused
    · rintro ⟨fault, hlast⟩
      exact nomatch hlast

/-- An attempt that finds a settlement replaces what is shown, one that is refused only adds the
message. -/
theorem calculate (h : form.Shows rounding events) (total people : String) :
    (form.calculate total people).2.Shows rounding
      (events ++ [.attempted (form.calculate total people).1]) := by
  rw [calculate_eq]
  generalize form.outcome total people = outcome
  have hevents := sinceCleared_append (.attempted outcome) rfl events
  have hgroups : (sinceCleared (events ++ [.attempted outcome])).filterMap Event.group? =
      form.groups := by
    rw [hevents, List.filterMap_append, h.groups_eq]
    exact List.append_nil _
  have houtcomes : (sinceCleared (events ++ [.attempted outcome])).filterMap Event.outcome? =
      (sinceCleared events).filterMap Event.outcome? ++ [outcome] := by
    rw [hevents, List.filterMap_append]
    rfl
  cases outcome with
  | ok settlement =>
    refine ⟨h.rounding_eq, hgroups.symm, ?_, ?_⟩
    · rw [houtcomes, lastSettlement?_append_ok]
      rfl
    · rw [houtcomes, List.getLast?_concat]
      constructor
      · intro hrefused
        exact nomatch hrefused
      · rintro ⟨fault, hlast⟩
        exact nomatch hlast
  | error fault =>
    refine ⟨h.rounding_eq, hgroups.symm, ?_, ?_⟩
    · rw [houtcomes, lastSettlement?_append_error]
      exact h.display_eq
    · rw [houtcomes, List.getLast?_concat]
      exact ⟨fun _ => ⟨fault, rfl⟩, fun _ => rfl⟩

theorem enter (h : form.Shows rounding events) (entry : Entry) :
    (form.enter entry).Shows rounding (events ++ [form.event entry]) := by
  cases entry with
  | group group => exact h.addGroup group
  | clear => exact h.clear
  | calculate total people => exact h.calculate total people

theorem enterAll (h : form.Shows rounding events) (entries : List Entry) :
    (form.enterAll entries).Shows rounding (events ++ form.events entries) := by
  induction entries generalizing form events with
  | nil =>
    rw [SplitForm.events, List.append_nil]
    exact h
  | cons entry rest ih =>
    have hrest := ih (h.enter entry)
    rwa [List.append_assoc] at hrest

end Shows

theorem shows_new (rounding : Rounding) : ({ rounding } : SplitForm).Shows rounding [] where
  rounding_eq := rfl
  groups_eq := rfl
  display_eq := rfl
  refused_iff := by
    constructor
    · intro hrefused
      exact nomatch hrefused
    · rintro ⟨fault, hlast⟩
      exact nomatch hlast

theorem isSome_message_iff (form : SplitForm) : form.message.isSome = true ↔ form.refused = true := by
  unfold message
  cases form.refused with
  | true => exact ⟨fun _ => rfl, fun _ => rfl⟩
  | false => exact Iff.rfl

/-- Whatever is entered, the form keeps the groups since it was last cleared, shows the settlement
of the last attempt since then that has found one, and bears the message just when the last attempt
since then was refused. A further attempt changes neither groups nor rounding, and if it is refused
it leaves the settlement on show as well. -/
theorem shows_last_settlement (rounding : Rounding) (entries : List Entry) :
    let start : SplitForm := { rounding }
    let form := start.enterAll entries
    let recent := sinceCleared (start.events entries)
    let outcomes := recent.filterMap Event.outcome?
    form.rounding = rounding ∧
      form.groups = recent.filterMap Event.group? ∧
      form.display = (lastSettlement? outcomes).map Display.ofSettlement ∧
      (form.message.isSome = true ↔ ∃ fault, outcomes.getLast? = some (.error fault)) ∧
      ∀ total people, let (outcome, next) := form.calculate total people
        next.groups = form.groups ∧ next.rounding = form.rounding ∧
        ∀ fault, outcome = .error fault →
          next.display = form.display ∧ next.message = some askForNumbers := by
  intro start form recent outcomes
  have hshows : form.Shows rounding (start.events entries) := (shows_new rounding).enterAll entries
  refine ⟨hshows.rounding_eq, hshows.groups_eq, hshows.display_eq, ?_, ?_⟩
  · rw [isSome_message_iff]
    exact hshows.refused_iff
  · intro total people
    rw [calculate_eq]
    cases form.outcome total people with
    | ok settlement => exact ⟨rfl, rfl, nofun⟩
    | error fault => exact ⟨rfl, rfl, fun _ _ => ⟨rfl, rfl⟩⟩

/-- A group that is forgotten, a bill that is settled, and one for nobody. -/
theorem shows_last_settlement_beside_message :
    let start : SplitForm := { rounding := .truncate }
    let form := start.enterAll [.group ⟨1, 1.5⟩, .clear, .calculate "1000yen" "3"]
    let (outcome, next) := form.calculate "1000" "0"
    outcome = .error .peopleNotPositive ∧ next.groups = [] ∧
      next.display = some ⟨"333", "1", []⟩ ∧ next.message = some askForNumbers := by
  intro start form
  have hdisplay : form.display = some ⟨"333", "1", []⟩ := by decide +kernel
  have hgroups : form.groups = [] := by decide +kernel
  have hrefused : (form.calculate "1000" "0").1 = .error .peopleNotPositive := by
    decide +kernel
  obtain ⟨-, -, -, -, hnext⟩ := shows_last_settlement .truncate
    [.group ⟨1, 1.5⟩, .clear, .calculate "1000yen" "3"]
  obtain ⟨hkept, -, hshown⟩ := hnext "1000" "0"
  obtain ⟨hsame, hmessage⟩ := hshown _ hrefused
  exact ⟨hrefused, hkept.trans hgroups, hsame.trans hdisplay, hmessage⟩

end SplitForm

end DeskCalculator.Keypad
