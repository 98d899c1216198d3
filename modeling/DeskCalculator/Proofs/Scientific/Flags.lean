import DeskCalculator.Proofs.Expression.Operations
import DeskCalculator.Proofs.Scientific.Misuse

/-!
How far the flags of a mode reach. A mode enters an evaluation only through the functions that it
gives to the operations of the expression, and in no other way. The unit of angles changes these
functions for the three trigonometric names alone, and the inverse flag for every name but the
factorial and for the power operator. A text without such operations has the same outcome whatever
the flag is.
-/
namespace DeskCalculator.Scientific

open Expression Reading

def Performs (text : String) (operation : Operation) : Prop :=
  operation ∈ operationsOf (tokensOf Token (normalize text).toList)

instance (text : String) (operation : Operation) : Decidable (Performs text operation) :=
  inferInstanceAs (Decidable (_ ∈ _))

def builtin? (mode : Mode) : Operation → Option Builtin
  | .power => some (powerBuiltin mode)
  | .call name => function? name mode

/-- The function that an operation computes, if it means one. -/
def meaning? (mode : Mode) (operation : Operation) : Option (List Float → Float) :=
  (builtin? mode operation).map fun builtin => builtin.apply mode.unit

theorem meaning?_call (mode : Mode) (name : String) :
    meaning? mode (.call name) = (function? name mode).map fun builtin => builtin.apply mode.unit :=
  rfl

section

variable {mode other : Mode}

theorem symbolValue_eq (ans : Float) (name : String) (span : Span) :
    symbolValue mode ans name span = symbolValue other ans name span := by
  unfold symbolValue
  simp only [isSome_function?]

/-- A name with the same meaning in two modes takes the same arguments to the same value. -/
theorem call_eq_of_meaning {name : String}
    (h : meaning? mode (.call name) = meaning? other (.call name)) (span : Span) (count : ℕ)
    (arguments : Except Fault (List Float)) :
    (do let builtin ← callee mode name span count
        let xs ← arguments
        return builtin.apply mode.unit xs) =
      (do let builtin ← callee other name span count
          let xs ← arguments
          return builtin.apply other.unit xs : Except Fault Float) := by
  have harity : (function? name mode).map Builtin.arity =
      (function? name other).map Builtin.arity := by
    rw [map_arity_function?, map_arity_function?]
  rw [meaning?_call, meaning?_call] at h
  unfold callee
  cases hhere : function? name mode with
  | none =>
    rw [hhere, Option.map_none, eq_comm, Option.map_eq_none_iff] at harity
    rw [harity]
    by_cases hvalue : name = answerName ∨ (constant? name).isSome
    · simp only [if_pos hvalue]
      rfl
    · simp only [if_neg hvalue]
      rfl
  | some builtin =>
    rw [hhere, Option.map_some, eq_comm, Option.map_eq_some_iff] at harity
    obtain ⟨there, hthere, harity⟩ := harity
    rw [hhere, hthere, Option.map_some, Option.map_some, Option.some.injEq] at h
    simp only [hthere, harity]
    by_cases hcount : count = builtin.arity
    · rw [if_pos hcount, if_pos hcount]
      change (arguments >>= fun xs => .ok (builtin.apply mode.unit xs)) =
        arguments >>= fun xs => .ok (there.apply other.unit xs)
      rw [h]
    · rw [if_neg hcount, if_neg hcount]
      rfl

mutual

/-- Two modes that give the same functions to the operations of a tree give the same value to it. -/
theorem value_eq_of_meaning (ans : Float) : ∀ tree : Tree,
    (∀ operation ∈ tree.operations, meaning? mode operation = meaning? other operation) →
    value mode ans tree = value other ans tree
  | .number x, _ => rfl
  | .symbol name span, _ => symbolValue_eq ans name span
  | .signed sign body, h => by
    simp only [value, value_eq_of_meaning ans body h]
  | .sum sign left right, h => by
    obtain ⟨hleft, hright⟩ := List.forall_mem_append.mp h
    simp only [value, value_eq_of_meaning ans left hleft, value_eq_of_meaning ans right hright]
  | .product scale left right, h => by
    obtain ⟨hleft, hright⟩ := List.forall_mem_append.mp h
    simp only [value, value_eq_of_meaning ans left hleft, value_eq_of_meaning ans right hright]
  | .power base exponent, h => by
    obtain ⟨hbase, hrest⟩ := List.forall_mem_append.mp h
    obtain ⟨hpower, hexponent⟩ := List.forall_mem_cons.mp hrest
    have hsame : (powerBuiltin mode).apply mode.unit = (powerBuiltin other).apply other.unit :=
      Option.some.inj hpower
    simp only [value, value_eq_of_meaning ans base hbase,
      value_eq_of_meaning ans exponent hexponent, hsame]
  | .call name span arguments, h => by
    obtain ⟨hcall, harguments⟩ := List.forall_mem_cons.mp h
    simp only [value, values_eq_of_meaning ans arguments harguments]
    exact call_eq_of_meaning hcall span _ _

theorem values_eq_of_meaning (ans : Float) : ∀ trees : List Tree,
    (∀ operation ∈ Tree.operationsOfAll trees,
      meaning? mode operation = meaning? other operation) →
    values mode ans trees = values other ans trees
  | [], _ => rfl
  | tree :: rest, h => by
    obtain ⟨htree, hrest⟩ := List.forall_mem_append.mp h
    simp only [values, value_eq_of_meaning ans tree htree, values_eq_of_meaning ans rest hrest]

end

/-- A text has the same outcome in two modes that give the same functions to its operations. -/
theorem evaluate_eq_of_meaning {text : String}
    (h : ∀ operation, Performs text operation → meaning? mode operation = meaning? other operation)
    (ans : Float) : evaluate text mode ans = evaluate text other ans := by
  cases hparse : parse (normalize text) with
  | error fault =>
    rw [evaluate_of_parse_eq_error hparse, evaluate_of_parse_eq_error hparse]
  | ok tree =>
    have hsame : ∀ operation ∈ tree.operations,
        meaning? mode operation = meaning? other operation := by
      intro operation hmem
      rw [(isSum_of_parse hparse).operations_eq, map_token_scan] at hmem
      exact h operation hmem
    rw [evaluate_of_parse_eq_ok hparse, evaluate_of_parse_eq_ok hparse,
      value_eq_of_meaning ans tree hsame]

end

def Builtin.isAngular : Builtin → Bool
  | sine | cosine | tangent | arcsine | arccosine | arctangent => true
  | _ => false

theorem Builtin.apply_eq_of_not_isAngular {builtin : Builtin} (h : builtin.isAngular = false)
    (unit other : AngleUnit) : builtin.apply unit = builtin.apply other := by
  funext arguments
  cases builtin with
  | sine | cosine | tangent | arcsine | arccosine | arctangent => exact nomatch h
  | _ => rcases arguments with _ | ⟨x, _ | ⟨y, _ | ⟨z, rest⟩⟩⟩ <;> rfl

/-- Only the trigonometric names mean something else in another unit of angles. -/
theorem meaning?_call_eq_of_unit {name : String} (h : name ∉ ["sin", "cos", "tan"])
    (inverse : Bool) (unit other : AngleUnit) :
    meaning? ⟨unit, inverse⟩ (.call name) = meaning? ⟨other, inverse⟩ (.call name) := by
  rw [meaning?_call, meaning?_call]
  rcases function?_cases name with ⟨-, -, hnone⟩ | ⟨binding, hmem, rfl, -, hfunction⟩
  · rw [hnone, hnone, Option.map_none, Option.map_none]
  · have hplain : ∀ binding ∈ bindings, binding.name ∉ ["sin", "cos", "tan"] →
        ∀ inverse, (binding.builtin inverse).isAngular = false := by decide
    rw [hfunction, hfunction, Option.map_some, Option.map_some,
      Builtin.apply_eq_of_not_isAngular (hplain binding hmem h inverse) unit other]

theorem meaning?_power_eq_of_unit (inverse : Bool) (unit other : AngleUnit) :
    meaning? ⟨unit, inverse⟩ .power = meaning? ⟨other, inverse⟩ .power := by
  have hplain : (powerBuiltin ⟨unit, inverse⟩).isAngular = false := by
    cases inverse <;> rfl
  exact congrArg some (Builtin.apply_eq_of_not_isAngular hplain unit other)

/-- The factorial has no other meaning under the inverse flag, nor has a name without meaning. -/
theorem meaning?_call_eq_of_inverse {name : String} (h : IsFunctionName name → name = "fact")
    (unit : AngleUnit) (inverse other : Bool) :
    meaning? ⟨unit, inverse⟩ (.call name) = meaning? ⟨unit, other⟩ (.call name) := by
  rw [meaning?_call, meaning?_call]
  rcases function?_cases name with ⟨-, -, hnone⟩ | ⟨binding, hmem, rfl, -, hfunction⟩
  · rw [hnone, hnone]
  · have hsame : ∀ binding ∈ bindings, binding.name = "fact" →
        ∀ inverse other, binding.builtin inverse = binding.builtin other := by decide
    rw [hfunction, hfunction, hsame binding hmem (h (List.mem_map_of_mem hmem)) inverse other]

/-- A text that calls no trigonometric function has the same outcome in degrees and in radians, and
one without powers that calls no function but the factorial has the same outcome under the inverse
flag as without it. -/
theorem flags_reach_only_their_operations (text : String) (ans : Float) :
    ((∀ name ∈ ["sin", "cos", "tan"], ¬Performs text (.call name)) →
      ∀ inverse, evaluate text ⟨.degrees, inverse⟩ ans = evaluate text ⟨.radians, inverse⟩ ans) ∧
    (¬Performs text .power →
      (∀ name, Performs text (.call name) → IsFunctionName name → name = "fact") →
      ∀ unit, evaluate text ⟨unit, false⟩ ans = evaluate text ⟨unit, true⟩ ans) := by
  constructor
  · intro hcalls inverse
    refine evaluate_eq_of_meaning ?_ ans
    intro operation hperforms
    cases operation with
    | power => exact meaning?_power_eq_of_unit inverse .degrees .radians
    | call name =>
      have hname : name ∉ ["sin", "cos", "tan"] := fun hmem => hcalls name hmem hperforms
      exact meaning?_call_eq_of_unit hname inverse .degrees .radians
  · intro hpower hcalls unit
    refine evaluate_eq_of_meaning ?_ ans
    intro operation hperforms
    cases operation with
    | power => exact absurd hperforms hpower
    | call name => exact meaning?_call_eq_of_inverse (hcalls name hperforms) unit false true

/-- A power of a function value, and a factorial beside a function name that is not called. -/
theorem flags_reach_only_their_operations_of_two :
    (∀ name ∈ ["sin", "cos", "tan"], ¬Performs "ln(Ans)^2" (.call name)) ∧
      evaluate "ln(Ans)^2" ⟨.degrees, true⟩ 7.0 = evaluate "ln(Ans)^2" ⟨.radians, true⟩ 7.0 ∧
      ¬Performs "fact(4)*sin" .power ∧
      (∀ name, Performs "fact(4)*sin" (.call name) → IsFunctionName name → name = "fact") ∧
      evaluate "fact(4)*sin" ⟨.radians, false⟩ 7.0 =
        evaluate "fact(4)*sin" ⟨.radians, true⟩ 7.0 := by
  have hroot : ∀ name ∈ ["sin", "cos", "tan"], ¬Performs "ln(Ans)^2" (.call name) := by
    decide +kernel
  have hpower : ¬Performs "fact(4)*sin" .power := by decide +kernel
  have honly : operationsOf (tokensOf Token (normalize "fact(4)*sin").toList) =
      [.call "fact"] := by
    decide +kernel
  have hcalls : ∀ name, Performs "fact(4)*sin" (.call name) → IsFunctionName name →
      name = "fact" := by
    intro name hperforms _
    rw [Performs, honly, List.mem_singleton] at hperforms
    exact Operation.call.inj hperforms
  exact ⟨hroot, (flags_reach_only_their_operations "ln(Ans)^2" 7.0).1 hroot true, hpower, hcalls,
    (flags_reach_only_their_operations "fact(4)*sin" 7.0).2 hpower hcalls .radians⟩

end DeskCalculator.Scientific
