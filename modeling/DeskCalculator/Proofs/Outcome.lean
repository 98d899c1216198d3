import Mathlib.Data.Nat.Notation

/-!
Calculations that may fail. A sequence of two succeeds if both do, the second from the result of the
first, and fails if either does.
-/
namespace DeskCalculator

variable {ε α β : Type} {x : Except ε α} {next : α → Except ε β}

theorem bind_eq_ok_iff {b : β} : x >>= next = .ok b ↔ ∃ a, x = .ok a ∧ next a = .ok b := by
  constructor
  · intro h
    cases x with
    | error e => exact nomatch h
    | ok a => exact ⟨a, rfl, h⟩
  · intro h
    obtain ⟨a, rfl, hnext⟩ := h
    exact hnext

theorem bind_eq_error_iff {e : ε} :
    x >>= next = .error e ↔ x = .error e ∨ ∃ a, x = .ok a ∧ next a = .error e := by
  constructor
  · intro h
    cases x with
    | error failure => exact .inl (congrArg Except.error (Except.error.inj h))
    | ok a => exact .inr ⟨a, rfl, h⟩
  · intro h
    rcases h with rfl | ⟨a, rfl, hnext⟩
    · rfl
    · exact hnext

def failure? : Except ε α → Option ε
  | .ok _ => none
  | .error e => some e

theorem failure?_eq_some_iff {e : ε} : failure? x = some e ↔ x = .error e := by
  cases x with
  | ok a => simp [failure?]
  | error failure => simp [failure?]

/-- The first failure counts, and the second calculation matters only if the first one succeeds. -/
theorem failure?_bind {e : Option ε} (h : ∀ a, failure? (next a) = e) :
    failure? (x >>= next) = (failure? x).or e := by
  cases x with
  | ok a => exact h a
  | error failure => rfl

@[simp] theorem failure?_bind_pure (f : α → β) :
    failure? (x >>= fun a => pure (f a)) = failure? x := by
  cases x <;> rfl

theorem mapError_eq_ok_iff {δ : Type} {describe : ε → δ} {a : α} :
    x.mapError describe = .ok a ↔ x = .ok a := by
  cases x with
  | ok b => exact ⟨fun h => congrArg Except.ok (Except.ok.inj h),
      fun h => congrArg Except.ok (Except.ok.inj h)⟩
  | error e => exact ⟨fun h => (nomatch h), fun h => (nomatch h)⟩

/-- Calculations with the same outcome, failures being told apart by `describe` only, go on with the
same outcome. -/
theorem mapError_bind_congr {δ : Type} {describe : ε → δ} {y : Except ε α}
    {other : α → Except ε β} (h : x.mapError describe = y.mapError describe)
    (hnext : ∀ a, (next a).mapError describe = (other a).mapError describe) :
    (x >>= next).mapError describe = (y >>= other).mapError describe := by
  cases x with
  | ok a =>
    obtain rfl := mapError_eq_ok_iff.mp h.symm
    exact hnext a
  | error e =>
    cases y with
    | ok b => exact nomatch h
    | error failure => exact congrArg Except.error (Except.error.inj h)

theorem toOption_eq_some_iff {a : α} : x.toOption = some a ↔ x = .ok a := by
  cases x with
  | error e => simp [Except.toOption]
  | ok b => simp [Except.toOption]

end DeskCalculator
