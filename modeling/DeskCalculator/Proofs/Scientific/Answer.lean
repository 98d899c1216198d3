import DeskCalculator.Proofs.Expression.Recognition
import DeskCalculator.Proofs.Expression.Uses
import DeskCalculator.Proofs.Outcome
import DeskCalculator.Proofs.Reading.Scanning
import DeskCalculator.Scientific.Evaluation

/-!
The previous result in an evaluation. It enters by its name alone, so a text that does not mention
this name has the same outcome whatever the previous result is.
-/
namespace DeskCalculator.Scientific

open Expression Reading

def Mentions (text name : String) : Prop :=
  .identifier name ∈ tokensOf Token (normalize text).toList

instance (text name : String) : Decidable (Mentions text name) :=
  inferInstanceAs (Decidable (_ ∈ _))

theorem evaluate_of_parse_eq_ok {text : String} {tree : Tree}
    (h : parse (normalize text) = .ok tree) (mode : Mode) (ans : Float) :
    evaluate text mode ans = value mode ans tree >>= checkFinite := by
  rw [evaluate, h]
  rfl

theorem evaluate_of_parse_eq_error {text : String} {fault : Fault}
    (h : parse (normalize text) = .error fault) (mode : Mode) (ans : Float) :
    evaluate text mode ans = .error fault := by
  rw [evaluate, h]
  rfl

theorem isSum_of_parse {normalized : String} {tree : Tree} (h : parse normalized = .ok tree) :
    IsSum (scan Token normalized) tree := by
  unfold parse at h
  split at h
  · exact nomatch h
  · exact (recognizes.read_eq_ok_iff _ _ _).mp (mapError_eq_ok_iff.mp h)

theorem mentions_of_mem_uses {text : String} {tree : Tree} (h : parse (normalize text) = .ok tree)
    {use : Use} (huse : use ∈ tree.uses) : Mentions text use.name :=
  List.mem_map_of_mem (f := Lexeme.token) ((isSum_of_parse h).mem_of_mem_uses huse)

section

variable (mode : Mode) {ans other : Float}

mutual

/-- The previous result does not matter where it is not used. -/
theorem value_eq_of_unused : ∀ tree : Tree, (∀ use ∈ tree.uses, use.name ≠ answerName) →
    value mode ans tree = value mode other tree
  | .number x, _ => rfl
  | .symbol name span, h => by
    have hname : name ≠ answerName := h ⟨name, span, none⟩ (List.mem_singleton_self _)
    simp only [value, symbolValue, if_neg hname]
  | .signed sign body, h => by
    simp only [value, value_eq_of_unused body h]
  | .sum sign left right, h => by
    obtain ⟨hleft, hright⟩ := List.forall_mem_append.mp h
    simp only [value, value_eq_of_unused left hleft, value_eq_of_unused right hright]
  | .product scale left right, h => by
    obtain ⟨hleft, hright⟩ := List.forall_mem_append.mp h
    simp only [value, value_eq_of_unused left hleft, value_eq_of_unused right hright]
  | .power base exponent, h => by
    obtain ⟨hbase, hexponent⟩ := List.forall_mem_append.mp h
    simp only [value, value_eq_of_unused base hbase, value_eq_of_unused exponent hexponent]
  | .call name span arguments, h => by
    have harguments := (List.forall_mem_cons.mp h).2
    simp only [value, values_eq_of_unused arguments harguments]

theorem values_eq_of_unused : ∀ trees : List Tree,
    (∀ use ∈ Tree.usesOfAll trees, use.name ≠ answerName) →
    values mode ans trees = values mode other trees
  | [], _ => rfl
  | tree :: rest, h => by
    obtain ⟨htree, hrest⟩ := List.forall_mem_append.mp h
    simp only [values, value_eq_of_unused tree htree, values_eq_of_unused rest hrest]

end

end

/-- The previous result matters only to texts that mention it. -/
theorem evaluate_eq_of_not_mentions {text : String} (h : ¬Mentions text answerName) (mode : Mode)
    (ans other : Float) : evaluate text mode ans = evaluate text mode other := by
  cases hparse : parse (normalize text) with
  | error fault =>
    rw [evaluate_of_parse_eq_error hparse, evaluate_of_parse_eq_error hparse]
  | ok tree =>
    have hunused : ∀ use ∈ tree.uses, use.name ≠ answerName := by
      intro use huse hname
      exact h (hname ▸ mentions_of_mem_uses hparse huse)
    have hvalue : value mode ans tree = value mode other tree :=
      value_eq_of_unused mode tree hunused
    rw [evaluate_of_parse_eq_ok hparse, evaluate_of_parse_eq_ok hparse, hvalue]

end DeskCalculator.Scientific
