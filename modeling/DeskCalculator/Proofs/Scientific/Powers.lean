import DeskCalculator.Proofs.Scientific.Chaining

/-!
The two ways to write a power: with the operator between brackets, or as a call with two arguments.
The name and the operator stand for the same builtin in every mode, the power or, under the inverse
flag, the root. So both forms are expressions with the same outcome, for every base and exponent.
-/
namespace DeskCalculator.Scientific

open Expression Reading

def powerCall (base exponent : List Token) : List Token :=
  .identifier "pow" :: .leftParen :: (base ++ .comma :: (exponent ++ [.rightParen]))

def powerInfix (base exponent : List Token) : List Token :=
  .leftParen :: (base ++ .rightParen :: .power :: .leftParen :: (exponent ++ [.rightParen]))

theorem callee_pow (mode : Mode) (span : Span) :
    callee mode "pow" span 2 = .ok (powerBuiltin mode) := by
  obtain ⟨unit, inverse⟩ := mode
  cases inverse <;> rfl

/-- Calling the name of the power is raising to it. -/
theorem value_pow_call (mode : Mode) (ans : Float) (span : Span) (base exponent : Tree) :
    value mode ans (.call "pow" span [base, exponent]) =
      value mode ans (.power base exponent) := by
  have hcallee : callee mode "pow" span [base, exponent].length = .ok (powerBuiltin mode) :=
    callee_pow mode span
  simp only [value, values, hcallee]
  cases value mode ans base with
  | error fault => rfl
  | ok x =>
    cases value mode ans exponent with
    | error fault => rfl
    | ok y => rfl

theorem value_power_of_ok {mode : Mode} {ans x y : Float} {base exponent : Tree}
    (hbase : value mode ans base = .ok x) (hexponent : value mode ans exponent = .ok y) :
    value mode ans (.power base exponent) =
      .ok (if mode.inverse then x.pow (1.0 / y) else x.pow y) := by
  simp only [value, hbase, hexponent]
  obtain ⟨unit, inverse⟩ := mode
  cases inverse <;> rfl

section

variable {base exponent : List (Lexeme Token)} {baseTree exponentTree : Tree}

theorem exists_isSum_of_powerCall (hbase : IsSum base baseTree)
    (hexponent : IsSum exponent exponentTree) :
    ∃ lexemes : List (Lexeme Token),
      lexemes.map Lexeme.token =
        powerCall (base.map Lexeme.token) (exponent.map Lexeme.token) ∧
      IsSum lexemes (.call "pow" ⟨0, 0⟩ [baseTree, exponentTree]) := by
  have harguments : IsArguments (base ++ ⟨.comma, 0, 0⟩ :: exponent) [baseTree, exponentTree] :=
    .comma ⟨0, 0⟩ (.sum hbase) hexponent
  have hcall : IsAtom _ (.call "pow" ⟨0, 0⟩ [baseTree, exponentTree]) :=
    .call "pow" ⟨0, 0⟩ ⟨0, 0⟩ ⟨0, 0⟩ harguments
  exact ⟨_, by simp [powerCall], .product (.signed (.power (.atom hcall)))⟩

theorem exists_isSum_of_powerInfix (hbase : IsSum base baseTree)
    (hexponent : IsSum exponent exponentTree) :
    ∃ lexemes : List (Lexeme Token),
      lexemes.map Lexeme.token =
        powerInfix (base.map Lexeme.token) (exponent.map Lexeme.token) ∧
      IsSum lexemes (.power baseTree exponentTree) := by
  have hraised : IsSigned _ exponentTree :=
    .power (.atom (.group ⟨0, 0⟩ ⟨0, 0⟩ hexponent))
  have hpower : IsPower _ (.power baseTree exponentTree) :=
    .power ⟨0, 0⟩ (.group ⟨0, 0⟩ ⟨0, 0⟩ hbase) hraised
  exact ⟨_, by simp [powerInfix], .product (.signed (.power hpower))⟩

end

/-- A power has the same outcome as a call and with the operator: the same value, or a failure of
the same kind and with the same message. Under the inverse flag both are the root. -/
theorem power_call_agrees_infix (mode : Mode) (ans : Float)
    (base exponent called raised : List (Lexeme Token))
    (baseLength exponentLength calledLength raisedLength : ℕ) (baseTree exponentTree : Tree)
    (hbase : Tree.ofLexemes baseLength base = .ok baseTree)
    (hexponent : Tree.ofLexemes exponentLength exponent = .ok exponentTree)
    (hcalled : called.map Lexeme.token =
      powerCall (base.map Lexeme.token) (exponent.map Lexeme.token))
    (hraised : raised.map Lexeme.token =
      powerInfix (base.map Lexeme.token) (exponent.map Lexeme.token)) :
    ∃ call power, Tree.ofLexemes calledLength called = .ok call ∧
      Tree.ofLexemes raisedLength raised = .ok power ∧
      Agree (value mode ans call) (value mode ans power) ∧
      Agree (value mode ans call >>= checkFinite) (value mode ans power >>= checkFinite) ∧
      ∀ x y, value mode ans baseTree = .ok x → value mode ans exponentTree = .ok y →
        value mode ans call = .ok (if mode.inverse then x.pow (1.0 / y) else x.pow y) ∧
        value mode ans power = .ok (if mode.inverse then x.pow (1.0 / y) else x.pow y) := by
  have hread : ∀ length lexemes tree, Tree.ofLexemes length lexemes = .ok tree ↔
      IsSum lexemes tree := recognizes.read_eq_ok_iff
  rw [hread] at hbase hexponent
  obtain ⟨callLexemes, hcallTokens, hcallSum⟩ := exists_isSum_of_powerCall hbase hexponent
  obtain ⟨powerLexemes, hpowerTokens, hpowerSum⟩ := exists_isSum_of_powerInfix hbase hexponent
  have hcalledTokens := hcalled.trans hcallTokens.symm
  have hraisedTokens := hraised.trans hpowerTokens.symm
  obtain ⟨call, hcall, -⟩ := hcallSum.relocated hcalledTokens
  obtain ⟨power, hpower, -⟩ := hpowerSum.relocated hraisedTokens
  have hcallValue :
      Agree (value mode ans call) (value mode ans (.power baseTree exponentTree)) := by
    rw [← value_pow_call mode ans ⟨0, 0⟩]
    exact value_relocated mode ans hcallSum hcall hcalledTokens
  have hpowerValue : Agree (value mode ans power) (value mode ans (.power baseTree exponentTree)) :=
    value_relocated mode ans hpowerSum hpower hraisedTokens
  have hagree : Agree (value mode ans call) (value mode ans power) :=
    hcallValue.trans hpowerValue.symm
  refine ⟨call, power, (hread _ _ _).mpr hcall, (hread _ _ _).mpr hpower, hagree,
    mapError_bind_congr hagree fun _ => rfl, ?_⟩
  intro x y hx hy
  rw [value_power_of_ok hx hy] at hcallValue hpowerValue
  exact ⟨mapError_eq_ok_iff.mp hcallValue, mapError_eq_ok_iff.mp hpowerValue⟩

/-- A difference as the exponent of a root, since the mode is inverse. -/
theorem power_call_agrees_infix_of_difference :
    let mode : Mode := ⟨.radians, true⟩
    let exponent := Tree.sum .minus (.symbol "PI" ⟨0, 2⟩) (.symbol "E" ⟨3, 4⟩)
    Tree.ofText "Ans" = .ok (.symbol answerName ⟨0, 3⟩) ∧ Tree.ofText "PI-E" = .ok exponent ∧
      ∃ call power, Tree.ofText "pow(Ans, PI-E)" = .ok call ∧
        Tree.ofText "(Ans)**(PI-E)" = .ok power ∧
        Agree (value mode 7.0 call) (value mode 7.0 power) ∧
        Agree (value mode 7.0 call >>= checkFinite) (value mode 7.0 power >>= checkFinite) ∧
        ∀ x y, value mode 7.0 (.symbol answerName ⟨0, 3⟩) = .ok x →
          value mode 7.0 exponent = .ok y →
          value mode 7.0 call = .ok (x.pow (1.0 / y)) ∧
          value mode 7.0 power = .ok (x.pow (1.0 / y)) := by
  intro mode exponent
  have hbase : Tree.ofText "Ans" = .ok (.symbol answerName ⟨0, 3⟩) := by
    have hscan : scan Token "Ans" = [⟨.identifier answerName, 0, 3⟩] := by decide +kernel
    rw [Tree.ofText, hscan]
    rfl
  have hexponent : Tree.ofText "PI-E" = .ok exponent := by
    have hscan : scan Token "PI-E" =
        [⟨.identifier "PI", 0, 2⟩, ⟨.minus, 2, 3⟩, ⟨.identifier "E", 3, 4⟩] := by
      decide +kernel
    rw [Tree.ofText, hscan]
    rfl
  have hcalled : (scan Token "pow(Ans, PI-E)").map Lexeme.token =
      powerCall ((scan Token "Ans").map Lexeme.token) ((scan Token "PI-E").map Lexeme.token) := by
    decide +kernel
  have hraised : (scan Token "(Ans)**(PI-E)").map Lexeme.token =
      powerInfix ((scan Token "Ans").map Lexeme.token) ((scan Token "PI-E").map Lexeme.token) := by
    decide +kernel
  exact ⟨hbase, hexponent,
    power_call_agrees_infix mode 7.0 (scan Token "Ans") (scan Token "PI-E")
      (scan Token "pow(Ans, PI-E)") (scan Token "(Ans)**(PI-E)") 3 4 14 13 _ exponent hbase
      hexponent hcalled hraised⟩

end DeskCalculator.Scientific
