import DeskCalculator.Proofs.Expression.Inlining
import DeskCalculator.Proofs.Expression.Recognition
import DeskCalculator.Proofs.Outcome
import DeskCalculator.Scientific.Evaluation

/-!
Calculating on with the previous result. An expression that uses the previous result has the same
outcome when that result is written out as the expression that it came from, in brackets. Outcomes
are compared without the places that failures point at, since writing something out moves what
stands behind it.
-/
namespace DeskCalculator.Scientific

open Expression Reading

def Fault.summary (fault : Fault) : FailureKind × String := (fault.kind, fault.message)

def Agree (x y : Except Fault Float) : Prop := x.mapError Fault.summary = y.mapError Fault.summary

theorem symbolValue_agree (mode : Mode) (ans : Float) (name : String) (span other : Span) :
    Agree (symbolValue mode ans name span) (symbolValue mode ans name other) := by
  unfold symbolValue
  by_cases hans : name = answerName
  · rw [if_pos hans, if_pos hans]
    rfl
  · rw [if_neg hans, if_neg hans]
    cases constant? name with
    | some x => rfl
    | none => cases (function? name mode).isSome <;> rfl

/-- Where a call stands does not matter for what it means. -/
theorem callee_agree (mode : Mode) (name : String) (span other : Span) (count : Nat) :
    (callee mode name span count).mapError Fault.summary =
      (callee mode name other count).mapError Fault.summary := by
  unfold callee
  cases function? name mode with
  | none =>
    by_cases hvalue : name = answerName ∨ (constant? name).isSome
    · simp only [if_pos hvalue]
      rfl
    · simp only [if_neg hvalue]
      rfl
  | some builtin =>
    by_cases hcount : count = builtin.arity
    · simp only [if_pos hcount]
    · simp only [if_neg hcount]
      rfl

section

variable {expand : String → Option (List Token)} {mode : Mode} {ans other : Float}

/-- Whether names mean, with one previous result, what is written for them with another one. -/
structure Means (expand : String → Option (List Token)) (mode : Mode) (ans other : Float) :
    Prop where
  kept : ∀ name span, expand name = none →
    Agree (symbolValue mode other name span) (symbolValue mode ans name span)
  expanded : ∀ name span lexemes tree, expand name = some (lexemes.map Lexeme.token) →
    IsSum lexemes tree → Agree (value mode other tree) (symbolValue mode ans name span)

mutual

/-- A tree in which symbols are written out as what they mean has the same value. -/
theorem value_inlined (hmeans : Means expand mode ans other) : ∀ {tree tree' : Tree},
    tree.Inlines expand tree' → Agree (value mode other tree') (value mode ans tree)
  | _, _, .number x => rfl
  | _, _, @Tree.Inlines.symbol _ name hname span span' =>
    (symbolValue_agree mode other name span' span).trans (hmeans.kept name span hname)
  | _, _, .expanded hname span h => hmeans.expanded _ span _ _ hname h
  | _, _, .signed sign h =>
    mapError_bind_congr (value_inlined hmeans h) fun _ => rfl
  | _, _, .sum sign hleft hright =>
    mapError_bind_congr (value_inlined hmeans hleft) fun _ =>
      mapError_bind_congr (value_inlined hmeans hright) fun _ => rfl
  | _, _, .product scale hleft hright =>
    mapError_bind_congr (value_inlined hmeans hleft) fun _ =>
      mapError_bind_congr (value_inlined hmeans hright) fun _ => rfl
  | _, _, .power hbase hexponent =>
    mapError_bind_congr (value_inlined hmeans hbase) fun _ =>
      mapError_bind_congr (value_inlined hmeans hexponent) fun _ => rfl
  | _, _, .call name span span' h => by
    simp only [value, h.length_eq]
    exact mapError_bind_congr (callee_agree mode name span' span _) fun _ =>
      mapError_bind_congr (values_inlined hmeans h) fun _ => rfl

theorem values_inlined (hmeans : Means expand mode ans other) : ∀ {trees trees' : List Tree},
    Tree.InlinesAll expand trees trees' →
    (values mode other trees').mapError Fault.summary =
      (values mode ans trees).mapError Fault.summary
  | _, _, .nil => rfl
  | _, _, .cons h hrest =>
    mapError_bind_congr (value_inlined hmeans h) fun _ =>
      mapError_bind_congr (values_inlined hmeans hrest) fun _ => rfl

end

end

/-- Where the tokens of an expression stand does not matter to its value. -/
theorem value_relocated (mode : Mode) (ans : Float) {lexemes other : List (Lexeme Token)}
    {tree tree' : Tree} (h : IsSum lexemes tree) (h' : IsSum other tree')
    (hother : other.map Lexeme.token = lexemes.map Lexeme.token) :
    Agree (value mode ans tree') (value mode ans tree) := by
  have hmeans : Means (fun _ => none) mode ans ans :=
    ⟨fun _ _ _ => rfl, fun _ _ _ _ hname => nomatch hname⟩
  obtain ⟨moved, hmoved, hinlines⟩ := h.relocated hother
  obtain rfl := recognizes.unique h' hmoved
  exact value_inlined hmeans hinlines

def answerAs (expression : List Token) (name : String) : Option (List Token) :=
  if name = answerName then some expression else none

/-- Tokens with an expression in brackets for the previous result, except where it is called. -/
def inlineAnswer (expression : List Token) : List Token → List Token :=
  inline (answerAs expression)

section

variable {mode : Mode} {ans x : Float} {lexemes : List (Lexeme Token)} {tree : Tree}

theorem expands_answerAs (h : IsSum lexemes tree) :
    Expands (answerAs (lexemes.map Lexeme.token)) := by
  intro name other hname
  obtain ⟨-, htokens⟩ := Option.ite_none_right_eq_some.mp hname
  obtain ⟨moved, hmoved, -⟩ := h.relocated (Option.some.inj htokens).symm
  exact ⟨moved, hmoved⟩

/-- An expression in brackets means the previous result that it came to. -/
theorem means_answerAs (h : IsSum lexemes tree) (hvalue : value mode ans tree = .ok x) :
    Means (answerAs (lexemes.map Lexeme.token)) mode x ans where
  kept name span hname := by
    have hother : name ≠ answerName := by
      rintro rfl
      simp [answerAs] at hname
    unfold symbolValue
    rw [if_neg hother, if_neg hother]
    rfl
  expanded name span other moved hname hmoved := by
    obtain ⟨rfl, htokens⟩ := Option.ite_none_right_eq_some.mp hname
    have hagree := value_relocated mode ans h hmoved (Option.some.inj htokens).symm
    rwa [hvalue] at hagree

end

/-- Calculating on with a result is calculating with the expression that it came from, in brackets:
where the previous result is written out, what was an expression is still one, and it comes to the
same value, or fails with the same kind and message. -/
theorem chaining_eq_inlining (mode : Mode) (ans x : Float) (first second inlined :
    List (Lexeme Token)) (firstLength secondLength length : Nat) (firstTree secondTree : Tree)
    (hfirst : Tree.ofLexemes firstLength first = .ok firstTree)
    (hvalue : value mode ans firstTree = .ok x)
    (hsecond : Tree.ofLexemes secondLength second = .ok secondTree)
    (hinlined : inlined.map Lexeme.token =
      inlineAnswer (first.map Lexeme.token) (second.map Lexeme.token)) :
    ∃ tree, Tree.ofLexemes length inlined = .ok tree ∧
      Agree (value mode ans tree) (value mode x secondTree) ∧
      Agree (value mode ans tree >>= checkFinite) (value mode x secondTree >>= checkFinite) := by
  have hread : ∀ length lexemes tree, Tree.ofLexemes length lexemes = .ok tree ↔
      IsSum lexemes tree := recognizes.read_eq_ok_iff
  rw [hread] at hfirst hsecond
  obtain ⟨tree, htree, hinlines⟩ := hsecond.inlined (expands_answerAs hfirst) hinlined
  have hagree := value_inlined (means_answerAs hfirst hvalue) hinlines
  exact ⟨tree, (hread length inlined tree).mpr htree, hagree,
    mapError_bind_congr hagree fun _ => rfl⟩

/-- A difference that is zero, used as the previous result of a product. -/
theorem chaining_eq_inlining_difference :
    let first := Tree.sum .minus (.symbol "E" ⟨0, 1⟩) (.symbol "E" ⟨2, 3⟩)
    let second := Tree.product .times (.symbol "PI" ⟨0, 2⟩) (.symbol answerName ⟨3, 6⟩)
    Tree.ofText "E-E" = .ok first ∧ value {} 7.0 first = .ok 0.0 ∧
      Tree.ofText "PI*Ans" = .ok second ∧ value {} 0.0 second = .ok 0.0 ∧
      ∃ tree, Tree.ofText "PI*(E-E)" = .ok tree ∧
        Agree (value {} 7.0 tree) (value {} 0.0 second) ∧
        Agree (value {} 7.0 tree >>= checkFinite) (value {} 0.0 second >>= checkFinite) := by
  intro first second
  have hfirst : Tree.ofText "E-E" = .ok first := by
    have hscan : scan Token "E-E" =
        [⟨.identifier "E", 0, 1⟩, ⟨.minus, 1, 2⟩, ⟨.identifier "E", 2, 3⟩] := by
      decide +kernel
    rw [Tree.ofText, hscan]
    rfl
  have hvalue : value {} 7.0 first = .ok 0.0 := toOption_eq_some_iff.mp (by decide +kernel)
  have hsecond : Tree.ofText "PI*Ans" = .ok second := by
    have hscan : scan Token "PI*Ans" =
        [⟨.identifier "PI", 0, 2⟩, ⟨.star, 2, 3⟩, ⟨.identifier answerName, 3, 6⟩] := by
      decide +kernel
    rw [Tree.ofText, hscan]
    rfl
  have hresult : value {} 0.0 second = .ok 0.0 := toOption_eq_some_iff.mp (by decide +kernel)
  have hinlined : (scan Token "PI*(E-E)").map Lexeme.token =
      inlineAnswer ((scan Token "E-E").map Lexeme.token)
        ((scan Token "PI*Ans").map Lexeme.token) := by
    decide +kernel
  exact ⟨hfirst, hvalue, hsecond, hresult,
    chaining_eq_inlining {} 7.0 0.0 (scan Token "E-E") (scan Token "PI*Ans")
      (scan Token "PI*(E-E)") 3 6 8 first second hfirst hvalue hsecond hinlined⟩

end DeskCalculator.Scientific
