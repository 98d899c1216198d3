import DeskCalculator.Proofs.CommandLine.Independence
import DeskCalculator.Proofs.Expression.Margins
import DeskCalculator.Proofs.Expression.Neighbours
import DeskCalculator.Proofs.Scientific.Chaining
import DeskCalculator.Proofs.Scientific.Misuse
import DeskCalculator.Proofs.Scientific.Retyping

/-!
An expression given to a command and the same one typed into a session. The command takes it as it
is, the session trims it first. Separators on both sides make no difference to the outcome; any
other white space there is an invalid token for the command, while the session never sees it.
-/
namespace DeskCalculator

open History Keypad Scientific Storage

namespace Scientific

open Expression Reading

def SameKind (x y : Except Fault Float) : Prop := x.mapError Fault.kind = y.mapError Fault.kind

/-- The same message belongs to the same kind. -/
theorem Agree.sameKind {x y : Except Fault Float} (h : Agree x y) : SameKind x y := by
  cases x with
  | ok a =>
    obtain rfl := mapError_eq_ok_iff.mp h.symm
    rfl
  | error fault =>
    cases y with
    | ok b => exact nomatch h
    | error other =>
      have hsummary : fault.summary = other.summary := Except.error.inj h
      exact congrArg Except.error (congrArg Prod.fst hsummary)

theorem SameKind.exists_error {x : Except Fault Float} {other : Fault}
    (h : SameKind x (.error other)) : ∃ fault, x = .error fault ∧ fault.kind = other.kind := by
  cases x with
  | ok a => exact nomatch h
  | error fault => exact ⟨fault, rfl, Except.error.inj h⟩

section

variable {text other : String}

/-- A text with the tokens of an expression is one, and has its value. -/
theorem exists_parse_of_tokens {tree : Tree} (hempty : Text.isEmpty other = false)
    (htokens : tokensOf Token other.toList = tokensOf Token text.toList)
    (hparse : parse text = .ok tree) :
    ∃ tree', parse other = .ok tree' ∧
      ∀ mode ans, Agree (value mode ans tree') (value mode ans tree) := by
  have hsum : IsSum (scan Token text) tree := isSum_of_parse hparse
  obtain ⟨tree', hother, -⟩ := hsum.relocated htokens
  exact ⟨tree', parse_of_isSum hempty hother,
    fun mode ans => value_relocated mode ans hsum hother htokens⟩

/-- Only the tokens of two texts matter to their outcomes, except for the places that failures point
at. -/
theorem evaluate_sameKind_of_tokens (htext : Text.isEmpty text = false)
    (hother : Text.isEmpty other = false)
    (htokens : tokensOf Token (normalize other).toList = tokensOf Token (normalize text).toList)
    (mode : Mode) (ans : Float) : SameKind (evaluate other mode ans) (evaluate text mode ans) := by
  rw [← isEmpty_normalize] at htext hother
  cases hparse : parse (normalize text) with
  | ok tree =>
    obtain ⟨tree', hparse', hagree⟩ := exists_parse_of_tokens hother htokens hparse
    rw [evaluate_of_parse_eq_ok hparse, evaluate_of_parse_eq_ok hparse']
    have hchecked : Agree (value mode ans tree' >>= checkFinite)
        (value mode ans tree >>= checkFinite) :=
      mapError_bind_congr (hagree mode ans) fun _ => rfl
    exact hchecked.sameKind
  | error fault =>
    cases hparse' : parse (normalize other) with
    | ok tree' =>
      obtain ⟨tree, htree, -⟩ := exists_parse_of_tokens htext htokens.symm hparse'
      exact nomatch hparse.symm.trans htree
    | error fault' =>
      rw [evaluate_of_parse_eq_error hparse, evaluate_of_parse_eq_error hparse']
      exact congrArg Except.error
        ((kind_of_parse_error hparse').trans (kind_of_parse_error hparse).symm)

end

section

variable {line : String}

/-- Separators around an expression make no difference to its outcome. -/
theorem evaluate_trimmed (hline : Text.isEmpty line = false)
    (hmargins : ∀ c ∈ Text.margins line.toList, Text.isSeparator c = true) (mode : Mode)
    (ans : Float) : SameKind (evaluate line mode ans) (evaluate (Text.trimmed line) mode ans) := by
  have htrimmed : Text.isEmpty (Text.trimmed line) = false :=
    Text.isEmpty_trimmed (Text.trim_ne_nil hline)
  refine evaluate_sameKind_of_tokens htrimmed hline ?_ mode ans
  rw [toList_normalize, toList_normalize, Text.trimmed, String.toList_ofList]
  exact tokensOf_normalizeChars_trim hmargins

/-- Other white space around an expression is malformed. -/
theorem evaluate_of_margin {c : Char} (hc : c ∈ Text.margins line.toList)
    (hseparator : Text.isSeparator c = false) (mode : Mode) (ans : Float) :
    ∃ fault, evaluate line mode ans = .error fault ∧ fault.kind = .malformed := by
  have hblank : Text.isBlank c = true := Text.isBlank_of_mem_margins hc
  cases hparse : parse (normalize line) with
  | error fault =>
    exact ⟨fault, evaluate_of_parse_eq_error hparse mode ans, kind_of_parse_error hparse⟩
  | ok tree =>
    obtain ⟨front, behind, hline, hmargins⟩ := Text.exists_margins line.toList
    have hmem : c ∈ (normalize line).toList := by
      rw [toList_normalize]
      refine mem_normalizeChars ?_ (by rintro rfl; exact nomatch hblank)
        (by rintro rfl; exact nomatch hblank)
      rw [hline]
      rcases (hmargins c).mp hc with hfront | hbehind
      · exact List.mem_append_left _ hfront
      · exact List.mem_append_right _ (List.mem_append_right _ hbehind)
    rcases Token.isRuledBy.forall_mem_of_valid Token.isAlphabet (isSum_of_parse hparse).valid c hmem
      with hblank' | hword
    · exact nomatch hseparator.symm.trans hblank'
    · exact nomatch hblank.symm.trans (Token.not_isBlank_of_isWordPart hword)

end

end Scientific

namespace CommandLine.EvalRequest

variable {request : EvalRequest} {settings : Settings}

theorem outcome_of_ok {x : Float} (h : request.evaluate settings.unit = .ok x) :
    request.outcome settings = ⟨0, Number.plain x ++ "\n", []⟩ := by
  unfold outcome
  rw [h]
  simp [success]

theorem outcome_of_error {fault : Fault} (h : request.evaluate settings.unit = .error fault) :
    request.outcome settings = ⟨fault.kind.exitCode, "",
      fault.failure.report inputName (Expression.normalize request.text)⟩ := by
  unfold outcome
  rw [h]
  rfl

/-- Without options an expression is evaluated in the configured unit of angles. -/
theorem evaluate_text (line : String) (unit : AngleUnit) :
    EvalRequest.evaluate { text := line } unit = Scientific.evaluate line { unit := unit } 0.0 := by
  simp only [EvalRequest.evaluate, EvalRequest.unitOr, Option.getD_none]

end CommandLine.EvalRequest

/-- A line that is not blank and does not begin with a colon is evaluated without the white space
around it. -/
theorem Session.handle_expression {σ : Type} [Store σ] (session : Session) (now : ℕ) {line : String}
    (hline : Text.isEmpty line = false) (hcolon : (Text.trim line.toList).head? ≠ some ':')
    (store : σ) :
    let outcome := session.outcome (Text.trimmed line)
    (session.handle now line store).1 = .print (verdict outcome) ∧
      (session.handle now line store).2.1.pad.memory.ans =
        outcome.toOption.getD session.pad.memory.ans := by
  have hinput : Input.ofLine line = .expression (Text.trimmed line) := by
    unfold Input.ofLine
    split
    · next hnil => exact absurd hnil (Text.trim_ne_nil hline)
    · next name hcons => exact absurd (congrArg List.head? hcons) hcolon
    · rfl
  simp only [handle_eq, hinput, answer, follow, Memory.recall, and_self]

/-- A new session evaluates in the configured unit of angles, and has no previous result. -/
theorem CommandLine.newSession_outcome (settings : Settings) (text : String) :
    (newSession settings).outcome text = evaluate text { unit := settings.unit } 0.0 := by
  simp only [Session.outcome, Session.mode, newSession, Session.start, ScientificPad.ofMode]

open CommandLine in
/-- A command that evaluates an expression in the configured unit of angles, and a new session in
this unit to which the expression is given as a line. If there are only separators around the
expression, both give the same value, which the session keeps for the next line, or fail with the
same kind of failure. If there is other white space, the command refuses the expression as malformed,
and the session answers for what is left of it. -/
theorem command_agrees_with_session {invocation : Invocation} {surroundings : Surroundings}
    {files : Files} {settings : Settings} {path line : String}
    (haction : invocation.action = some (.eval { text := line }))
    (hprepare : (invocation.prepare surroundings files).1 = .ok (settings, path))
    (hline : Text.isEmpty line = false) (hcolon : (Text.trim line.toList).head? ≠ some ':')
    {σ : Type} [Store σ] (now : ℕ) (store : σ) :
    let handled := (newSession settings).handle now line store
    ∃ outcome, (invocation.run surroundings files).1 = .ok outcome ∧
      ((∀ c ∈ Text.margins line.toList, Text.isSeparator c = true) →
        (∃ x, outcome = ⟨0, Number.plain x ++ "\n", []⟩ ∧
          handled.1 = .print ("= " ++ Number.plain x) ∧ handled.2.1.pad.memory.ans = x) ∨
        ∃ fault other : Fault, fault.kind = other.kind ∧
          outcome = ⟨fault.kind.exitCode, "",
            fault.failure.report inputName (Expression.normalize line)⟩ ∧
          handled.1 = .print ("Error: " ++ other.failure.text)) ∧
      ((∃ c ∈ Text.margins line.toList, Text.isSeparator c = false) →
        ∃ fault : Fault, fault.kind = .malformed ∧
          outcome = ⟨2, "", fault.failure.report inputName (Expression.normalize line)⟩ ∧
          handled.1 = .print (Session.verdict
            (evaluate (Text.trimmed line) { unit := settings.unit } 0.0))) := by
  intro handled
  obtain ⟨hstep, hans⟩ := (newSession settings).handle_expression now hline hcolon store
  rw [newSession_outcome] at hstep hans
  have hrun : (invocation.run surroundings files).1 =
      .ok (EvalRequest.outcome { text := line } settings) := by
    rw [invocation.run_fst_of_eval surroundings files haction, hprepare, Except.map]
  have hevaluate := EvalRequest.evaluate_text line settings.unit
  refine ⟨EvalRequest.outcome { text := line } settings, hrun, fun hmargins => ?_,
    fun hmargins => ?_⟩
  · have hkind := evaluate_trimmed hline hmargins { unit := settings.unit } 0.0
    cases hvalue : evaluate (Text.trimmed line) { unit := settings.unit } 0.0 with
    | ok x =>
      rw [hvalue] at hkind hstep hans
      have hcommand := hevaluate.trans (mapError_eq_ok_iff.mp hkind)
      exact .inl ⟨x, EvalRequest.outcome_of_ok hcommand, hstep, hans⟩
    | error other =>
      rw [hvalue] at hkind hstep
      obtain ⟨fault, hfault, hsame⟩ := hkind.exists_error
      have hcommand := EvalRequest.outcome_of_error (hevaluate.trans hfault)
      exact .inr ⟨fault, other, hsame, hcommand, hstep⟩
  · obtain ⟨c, hc, hseparator⟩ := hmargins
    obtain ⟨fault, hfault, hkind⟩ := evaluate_of_margin hc hseparator { unit := settings.unit } 0.0
    have hcommand := EvalRequest.outcome_of_error (hevaluate.trans hfault)
    rw [hkind] at hcommand
    exact ⟨fault, hkind, hcommand, hstep⟩

open CommandLine in
/-- An expression between a tab and a space. -/
theorem command_agrees_with_session_of_tab :
    let invocation : Invocation := { action := some (.eval { text := "\t1+2 " }) }
    let surroundings : Surroundings := ⟨"config/config.toml", "data/history.json", fun _ => 9, ""⟩
    let handled := (newSession {}).handle 9 "\t1+2 " ({} : MemoryStore)
    (invocation.prepare surroundings {}).1 = .ok ({}, "data/history.json") ∧
      Text.isEmpty "\t1+2 " = false ∧ (Text.trim "\t1+2 ".toList).head? ≠ some ':' ∧
      (∀ c ∈ Text.margins "\t1+2 ".toList, Text.isSeparator c = true) ∧
      (invocation.run surroundings {}).1 = .ok ⟨0, "3\n", []⟩ ∧
      handled.1 = .print "= 3" ∧ handled.2.1.pad.memory.ans = 3.0 := by
  intro invocation surroundings handled
  have hprepare : (invocation.prepare surroundings {}).1 = .ok ({}, "data/history.json") :=
    toOption_eq_some_iff.mp (by decide +kernel)
  have hline : Text.isEmpty "\t1+2 " = false := rfl
  have hcolon : (Text.trim "\t1+2 ".toList).head? ≠ some ':' := by decide
  have hmargins : ∀ c ∈ Text.margins "\t1+2 ".toList, Text.isSeparator c = true :=
    List.all_eq_true.mp rfl
  have hstep : handled.1 = .print "= 3" := by decide +kernel
  obtain ⟨outcome, hrun, hagree, -⟩ :=
    command_agrees_with_session rfl hprepare hline hcolon 9 ({} : MemoryStore)
  refine ⟨hprepare, hline, hcolon, hmargins, ?_, hstep, by decide +kernel⟩
  rcases hagree hmargins with ⟨x, hcommand, hsession, -⟩ | ⟨fault, other, -, -, hsession⟩
  · have hvalue : Number.plain x = "3" :=
      (String.append_right_inj "= ").mp (Step.print.inj (hsession.symm.trans hstep))
    rw [hrun, hcommand, hvalue]
    rfl
  · have htext : "Error: " ++ other.failure.text = "= 3" :=
      Step.print.inj (hsession.symm.trans hstep)
    have hfirst := congrArg (fun text => text.toList.head?) htext
    exact absurd hfirst (by simp)

open CommandLine in
/-- An unbreakable space in front of an expression, which the command refuses and the session trims
away. -/
theorem command_refuses_unbreakable_space :
    let line := "\u00a02+2"
    let invocation : Invocation := { action := some (.eval { text := line }) }
    let surroundings : Surroundings := ⟨"config/config.toml", "data/history.json", fun _ => 9, ""⟩
    Text.isEmpty line = false ∧ (Text.trim line.toList).head? ≠ some ':' ∧
      (invocation.prepare surroundings {}).1 = .ok ({}, "data/history.json") ∧
      ((invocation.run surroundings {}).1.toOption.map fun outcome =>
        (outcome.exitCode, outcome.output)) = some (FailureKind.malformed.exitCode, "") ∧
      ((newSession {}).handle 9 line ({} : MemoryStore)).1 = .print "= 4" := by
  intro line invocation surroundings
  exact ⟨by decide, by decide, toOption_eq_some_iff.mp (by decide +kernel), by decide +kernel,
    by decide +kernel⟩

end DeskCalculator
