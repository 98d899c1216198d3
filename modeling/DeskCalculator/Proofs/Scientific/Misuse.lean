import DeskCalculator.Proofs.Scientific.Answer
import Mathlib.Tactic.SplitIfs

/-!
Misused names. Whether a name is used as it may be depends neither on the mode nor on the previous
result: the inverse flag gives a function name another meaning, but the same number of arguments.
Evaluation stops at the first misused name from the left, and no value on the way can stop it
earlier. What is malformed about a text is therefore a property of the text.
-/
namespace DeskCalculator.Scientific

open Expression Reading

def IsValueName (name : String) : Prop := name = answerName ∨ (constant? name).isSome

instance (name : String) : Decidable (IsValueName name) := inferInstanceAs (Decidable (_ ∨ _))

def IsFunctionName (name : String) : Prop := name ∈ bindings.map Binding.name

def arity? (name : String) : Option Nat := (bindings.find? (·.name == name)).map (·.direct.arity)

end DeskCalculator.Scientific

namespace DeskCalculator.Expression

open Scientific

/-- What is wrong with the use of a name, if anything is: the name is unknown, a function is not
called, something else is called, or the number of arguments is not that of the function. -/
def Use.fault? (use : Use) : Option Fault :=
  match use.arguments, arity? use.name with
  | none, takes? =>
    if IsValueName use.name then none
    else if takes?.isSome then some (.functionAsSymbol use.name use.span)
    else some (.unknownSymbol use.name use.span)
  | some _, none =>
    if IsValueName use.name then some (.notAFunction use.name use.span)
    else some (.unknownFunction use.name use.span)
  | some found, some takes =>
    if found = takes then none else some (.wrongArity use.name takes found use.span)

theorem Use.kind_of_fault? {use : Use} {fault : Fault} (h : use.fault? = some fault) :
    fault.kind = .malformed := by
  unfold fault? at h
  split at h <;> split_ifs at h <;> obtain rfl := Option.some.inj h <;> rfl

end DeskCalculator.Expression

namespace DeskCalculator.Scientific

open Expression Reading

/-- A name means what its binding says, under the inverse flag of the mode. -/
theorem function?_cases (name : String) :
    (¬IsFunctionName name ∧ arity? name = none ∧ ∀ mode, function? name mode = none) ∨
      ∃ binding ∈ bindings, binding.name = name ∧ arity? name = some binding.direct.arity ∧
        ∀ mode : Mode, function? name mode = some (binding.builtin mode.inverse) := by
  unfold arity? function?
  cases hfound : bindings.find? (·.name == name) with
  | none =>
    left
    refine ⟨?_, rfl, fun _ => rfl⟩
    intro hname
    obtain ⟨binding, hmem, hbinding⟩ := List.mem_map.mp hname
    exact List.find?_eq_none.mp hfound binding hmem (beq_iff_eq.mpr hbinding)
  | some binding =>
    right
    have hname : binding.name = name := by simpa using List.find?_some hfound
    exact ⟨binding, List.mem_of_find?_eq_some hfound, hname, rfl, fun _ => rfl⟩

/-- Both meanings of a function name take the same number of arguments. -/
theorem map_arity_function? (name : String) (mode : Mode) :
    (function? name mode).map Builtin.arity = arity? name := by
  have hsame : ∀ b ∈ bindings, ∀ inverse, (b.builtin inverse).arity = b.direct.arity := by decide
  rcases function?_cases name with ⟨-, harity, hfunction⟩ | ⟨binding, hmem, -, harity, hfunction⟩
  · rw [hfunction, harity, Option.map_none]
  · rw [hfunction, harity, Option.map_some, hsame binding hmem]

theorem isSome_function? (name : String) (mode : Mode) :
    (function? name mode).isSome = (arity? name).isSome := by
  rw [← map_arity_function? name mode, Option.isSome_map]

/-- A symbol fails as its use as a name says. -/
theorem failure?_symbolValue (mode : Mode) (ans : Float) (name : String) (span : Span) :
    failure? (symbolValue mode ans name span) = Use.fault? ⟨name, span, none⟩ := by
  unfold symbolValue Use.fault?
  simp only [isSome_function?]
  by_cases hans : name = answerName
  · have hvalue : IsValueName name := .inl hans
    rw [if_pos hans, if_pos hvalue, failure?]
  · cases hconstant : constant? name with
    | some x =>
      have hvalue : IsValueName name := .inr (by simp [hconstant])
      simp [hans, hvalue, failure?]
    | none =>
      have hvalue : ¬IsValueName name := by simp [IsValueName, hans, hconstant]
      by_cases harity : (arity? name).isSome <;> simp [hans, hvalue, harity, failure?]

theorem failure?_callee (mode : Mode) (name : String) (span : Span) (count : Nat) :
    failure? (callee mode name span count) = Use.fault? ⟨name, span, some count⟩ := by
  have harity := map_arity_function? name mode
  unfold callee Use.fault?
  cases hfunction : function? name mode with
  | none =>
    rw [hfunction] at harity
    simp only [← harity, Option.map_none]
    by_cases hvalue : IsValueName name
    · have hnot : name = answerName ∨ (constant? name).isSome := hvalue
      rw [if_pos hnot, if_pos hvalue, failure?]
    · have hunknown : ¬(name = answerName ∨ (constant? name).isSome) := hvalue
      rw [if_neg hunknown, if_neg hvalue, failure?]
  | some builtin =>
    rw [hfunction] at harity
    simp only [← harity, Option.map_some]
    by_cases hcount : count = builtin.arity
    · rw [if_pos hcount, if_pos hcount, failure?]
    · rw [if_neg hcount, if_neg hcount, failure?]

mutual

/-- The evaluation of a tree fails at its first misused name and nowhere else. -/
theorem failure?_value (mode : Mode) (ans : Float) : ∀ tree : Tree,
    failure? (value mode ans tree) = tree.uses.findSome? Use.fault?
  | .number x => rfl
  | .symbol name span => by
    simp only [value, failure?_symbolValue, Tree.uses, List.findSome?_singleton]
  | .signed sign body => by
    simp only [value, Tree.uses]
    rw [failure?_bind_pure, failure?_value mode ans body]
  | .sum sign left right => by
    simp only [value, Tree.uses, List.findSome?_append]
    rw [failure?_bind fun _ => failure?_bind_pure _,
      failure?_value mode ans left, failure?_value mode ans right]
  | .product scale left right => by
    simp only [value, Tree.uses, List.findSome?_append]
    rw [failure?_bind fun _ => failure?_bind_pure _,
      failure?_value mode ans left, failure?_value mode ans right]
  | .power base exponent => by
    simp only [value, Tree.uses, List.findSome?_append]
    rw [failure?_bind fun _ => failure?_bind_pure _,
      failure?_value mode ans base, failure?_value mode ans exponent]
  | .call name span arguments => by
    simp only [value, Tree.uses, List.findSome?_cons]
    rw [failure?_bind fun _ => failure?_bind_pure _,
      failure?_callee, failure?_values mode ans arguments]
    cases Use.fault? ⟨name, span, some arguments.length⟩ <;> rfl

theorem failure?_values (mode : Mode) (ans : Float) : ∀ trees : List Tree,
    failure? (values mode ans trees) = (Tree.usesOfAll trees).findSome? Use.fault?
  | [] => rfl
  | tree :: rest => by
    simp only [values, Tree.usesOfAll, List.findSome?_append]
    rw [failure?_bind fun _ => failure?_bind_pure _,
      failure?_value mode ans tree, failure?_values mode ans rest]

end

/-- What is malformed about a text: it is no expression, or it misuses a name. -/
def malformation? (text : String) : Option Fault :=
  match parse (normalize text) with
  | .ok tree => tree.uses.findSome? Use.fault?
  | .error fault => some fault

theorem kind_of_parse_error {normalized : String} {fault : Fault}
    (h : parse normalized = .error fault) : fault.kind = .malformed := by
  unfold parse at h
  split_ifs at h
  · obtain rfl := Except.error.inj h
    rfl
  · cases hread : Tree.ofText normalized with
    | ok tree =>
      rw [hread] at h
      exact nomatch h
    | error complaint =>
      rw [hread] at h
      obtain rfl := Except.error.inj h
      rfl

theorem kind_of_malformation? {text : String} {fault : Fault}
    (h : malformation? text = some fault) : fault.kind = .malformed := by
  unfold malformation? at h
  cases hparse : parse (normalize text) with
  | ok tree =>
    rw [hparse] at h
    obtain ⟨use, -, hfault⟩ := List.exists_of_findSome?_eq_some h
    exact Use.kind_of_fault? hfault
  | error failure =>
    rw [hparse] at h
    obtain rfl := Option.some.inj h
    exact kind_of_parse_error hparse

/-- What is malformed is refused in every mode. -/
theorem evaluate_of_malformation? {text : String} {fault : Fault}
    (h : malformation? text = some fault) (mode : Mode) (ans : Float) :
    evaluate text mode ans = .error fault := by
  unfold malformation? at h
  cases hparse : parse (normalize text) with
  | ok tree =>
    rw [hparse] at h
    have hvalue : value mode ans tree = .error fault :=
      failure?_eq_some_iff.mp ((failure?_value mode ans tree).trans h)
    rw [evaluate_of_parse_eq_ok hparse, hvalue]
    rfl
  | error failure =>
    rw [hparse] at h
    obtain rfl := Option.some.inj h
    exact evaluate_of_parse_eq_error hparse mode ans

theorem kind_of_checkFinite_error {x : Float} {fault : Fault} (h : checkFinite x = .error fault) :
    fault.kind = .arithmetic := by
  unfold checkFinite at h
  split_ifs at h
  all_goals
    obtain rfl := Except.error.inj h
    rfl

/-- A text about which nothing is malformed has a value in every mode, finite or not. -/
theorem exists_value_of_malformation? {text : String} (h : malformation? text = none) (mode : Mode)
    (ans : Float) : ∃ x, evaluate text mode ans = checkFinite x := by
  unfold malformation? at h
  cases hparse : parse (normalize text) with
  | error failure => simp [hparse] at h
  | ok tree =>
    rw [hparse] at h
    have hnone := (failure?_value mode ans tree).trans h
    cases hvalue : value mode ans tree with
    | error failure => simp [hvalue, failure?] at hnone
    | ok x =>
      refine ⟨x, ?_⟩
      rw [evaluate_of_parse_eq_ok hparse, hvalue]
      rfl

/-- Whether a text is malformed, with which message and at which place, depends on nothing but the
text. The mode and the previous result, and what is computed on the way, only decide between a value
and a failure of the arithmetic. -/
theorem malformed_in_every_mode_or_none (text : String) :
    (∃ failure : Failure, failure.kind = .malformed ∧
      ∀ mode ans, (evaluate text mode ans).mapError Fault.failure = .error failure) ∨
    ∀ mode ans, (∃ x, evaluate text mode ans = .ok x) ∨
      ∃ fault, evaluate text mode ans = .error fault ∧ fault.kind = .arithmetic := by
  cases h : malformation? text with
  | some fault =>
    refine .inl ⟨fault.failure, kind_of_malformation? h, fun mode ans => ?_⟩
    rw [evaluate_of_malformation? h mode ans]
    rfl
  | none =>
    refine .inr fun mode ans => ?_
    obtain ⟨x, hx⟩ := exists_value_of_malformation? h mode ans
    cases hfinite : checkFinite x with
    | ok y => exact .inl ⟨y, hx.trans hfinite⟩
    | error fault => exact .inr ⟨fault, hx.trans hfinite, kind_of_checkFinite_error hfinite⟩

end DeskCalculator.Scientific
