import DeskCalculator.Proofs.Session.Lines

/-!
A session evaluates its expressions one after the other. As long as no line changes the mode or
clears the calculator, all that an expression depends on is the previous result, and all that is
saved are the values found; the calculator with its input line and its result line adds nothing.
-/
namespace DeskCalculator.Session

open History Scientific

/-- Inputs that neither change the mode, nor clear the calculator, nor end the session. -/
def Input.isPlain : Input → Bool
  | .blank | .expression _ => true
  | .command .history | .command .help | .command (.unknown _) => true
  | .command _ => false

/-- The previous result after a line: the value of its expression if it has one, or else the one
before. -/
def nextAns (mode : Mode) (ans : Float) (line : String) : Float :=
  match Input.ofLine line with
  | .expression text => (Scientific.evaluate text mode ans).toOption.getD ans
  | _ => ans

def calculationOf (mode : Mode) (ans : Float) (now : ℕ) (line : String) :
    Option (ℕ × String × String) :=
  match Input.ofLine line with
  | .expression text =>
    (Scientific.evaluate text mode ans).toOption.map fun x => (now, text, Number.plain x)
  | _ => none

/-- The calculations of lines, each with the time of its line. -/
def calculations (mode : Mode) (ans : Float) : List (ℕ × String) → List (ℕ × String × String)
  | [] => []
  | (now, line) :: rest =>
    (calculationOf mode ans now line).toList ++ calculations mode (nextAns mode ans line) rest

section

variable {σ : Type} [Store σ]

def run (session : Session) (store : σ) : List (ℕ × String) → Session × σ
  | [] => (session, store)
  | (now, line) :: rest =>
    let (_, session, store) := session.handle now line store
    session.run store rest

theorem run_cons (session : Session) (store : σ) (now : ℕ) (line : String)
    (rest : List (ℕ × String)) :
    session.run store ((now, line) :: rest) =
      (session.follow (.ofLine line)).run
        ((session.calculation? now (.ofLine line)).toList.foldl keep store) rest := by
  simp only [run, handle_eq]

end

theorem follow_of_isPlain (session : Session) {input : Input} (h : input.isPlain = true)
    (hexpression : ∀ text, input ≠ .expression text) : session.follow input = session := by
  cases input with
  | blank => rfl
  | expression text => exact absurd rfl (hexpression text)
  | command command =>
    cases command with
    | history | help | unknown name => rfl
    | unit unit | inverse | clear | quit => exact nomatch h

/-- A plain line changes the previous result at most. -/
theorem memory_follow (session : Session) {line : String}
    (h : (Input.ofLine line).isPlain = true) :
    (session.follow (.ofLine line)).pad.memory =
      ⟨session.mode, nextAns session.mode session.pad.memory.ans line⟩ := by
  unfold nextAns
  split
  · next text hline =>
    rw [hline]
    rfl
  · next hexpression => rw [session.follow_of_isPlain h hexpression]; rfl

theorem calculation?_ofLine (session : Session) (now : ℕ) (line : String) :
    session.calculation? now (.ofLine line) =
      calculationOf session.mode session.pad.memory.ans now line := by
  unfold calculationOf
  cases Input.ofLine line <;> rfl

theorem Input.eq_trimmed_of_ofLine {line text : String} (h : Input.ofLine line = .expression text) :
    text = Text.trimmed line := by
  unfold Input.ofLine at h
  split at h
  · exact nomatch h
  · exact nomatch h
  · exact (Input.expression.inj h).symm

section

variable {σ : Type} [Store σ]

/-- What a session remembers after plain lines, and what it has saved. -/
theorem run_eq_fold (session : Session) (store : σ) (lines : List (ℕ × String))
    (hplain : ∀ entry ∈ lines, (Input.ofLine entry.2).isPlain = true) :
    (session.run store lines).1.pad.memory =
        ⟨session.mode,
          (lines.map Prod.snd).foldl (nextAns session.mode) session.pad.memory.ans⟩ ∧
      (session.run store lines).2 =
        (calculations session.mode session.pad.memory.ans lines).foldl keep store := by
  induction lines generalizing session store with
  | nil => exact ⟨rfl, rfl⟩
  | cons entry rest ih =>
    obtain ⟨now, line⟩ := entry
    obtain ⟨hline, hrest⟩ := List.forall_mem_cons.mp hplain
    have hmemory : (session.follow (.ofLine line)).pad.memory =
        ⟨session.mode, nextAns session.mode session.pad.memory.ans line⟩ :=
      session.memory_follow hline
    have hmode : (session.follow (.ofLine line)).mode = session.mode := by
      rw [mode, hmemory]
    obtain ⟨hfinal, hkept⟩ := ih (session.follow (.ofLine line))
      ((session.calculation? now (.ofLine line)).toList.foldl keep store) hrest
    -- A plain line keeps the mode, so the rest is a fold of the same evaluator from the new result.
    rw [hmode, hmemory] at hfinal hkept
    rw [run_cons, List.map_cons, List.foldl_cons]
    refine ⟨hfinal, hkept.trans ?_⟩
    rw [calculations, List.foldl_append, calculation?_ofLine]

/-- A session is the fold of the evaluator over its lines. After any plain lines the previous result
is what the evaluator has made of them, and the store has received the expressions that have a
value, each with its value and in order. An expression that comes next is evaluated with that
previous result, and its outcome is printed; any other plain line leaves the session as it is. -/
theorem session_is_fold (unit : AngleUnit) (limit : ℕ) (store : σ) (lines : List (ℕ × String))
    (hplain : ∀ entry ∈ lines, (Input.ofLine entry.2).isPlain = true) :
    let mode : Mode := { unit }
    let ans := (lines.map Prod.snd).foldl (nextAns mode) 0.0
    let (session, kept) := (start unit limit).run store lines
    session.pad.memory = ⟨mode, ans⟩ ∧
      kept = (calculations mode 0.0 lines).foldl
        (fun store entry => (Store.save entry.1 entry.2.1 entry.2.2 store).2) store ∧
      ∀ now line, (Input.ofLine line).isPlain = true →
        (∀ text, Input.ofLine line = .expression text →
          text = Text.trimmed line ∧
          (session.handle now line kept).1 =
            .print (verdict (Scientific.evaluate text mode ans))) ∧
        ((∀ text, Input.ofLine line ≠ .expression text) →
          (session.handle now line kept).2.1 = session) := by
  obtain ⟨hmemory, hkept⟩ := run_eq_fold (start unit limit) store lines hplain
  refine ⟨hmemory, hkept, fun now line hline => ⟨fun text htext => ?_, fun hexpression => ?_⟩⟩
  · refine ⟨Input.eq_trimmed_of_ofLine htext, ?_⟩
    rw [handle_eq, htext]
    unfold answer outcome Session.mode
    rw [hmemory]
    rfl
  · rw [handle_eq]
    exact follow_of_isPlain _ hline hexpression

end

/-- A value, a blank line, a use of the value, a failure and a listing, each half a second after the
one before. -/
theorem session_is_fold_over_failure :
    let lines := [(0, " 2+3\t"), (500, ""), (1000, "Ans*2"), (1500, "1/0"), (2000, ":history")]
    let (session, kept) := (start .degrees 10).run ({} : MemoryStore) lines
    (∀ entry ∈ lines, (Input.ofLine entry.2).isPlain = true) ∧
      session.pad.memory = ⟨{ unit := .degrees }, 10.0⟩ ∧
      kept = ⟨[⟨1, "2+3", "5", 0⟩, ⟨2, "Ans*2", "10", 1000⟩]⟩ ∧
      (session.handle 2500 " Ans " kept).1 = .print "= 10" := by
  intro lines
  have hplain : ∀ entry ∈ lines, (Input.ofLine entry.2).isPlain = true := by decide
  obtain ⟨hmemory, hkept, hnext⟩ :=
    session_is_fold .degrees 10 ({} : MemoryStore) lines hplain
  have hstep := ((hnext 2500 " Ans " (by decide)).1 "Ans" (by decide)).2
  exact ⟨hplain, hmemory.trans (by decide +kernel), hkept.trans (by decide +kernel),
    hstep.trans (by decide +kernel)⟩

end DeskCalculator.Session
