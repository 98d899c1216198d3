import DeskCalculator.CommandLine.Execution
import DeskCalculator.Proofs.Outcome
import DeskCalculator.Proofs.Session.Lines
import DeskCalculator.Proofs.Storage.Agreement

/-!
Results do not depend on what has been saved. An evaluation is determined by the command line and
the settings, whatever is found at the path of the history and whether or not anything can be saved
there; and a session goes the same way with any store, until it is asked for a listing.
-/
namespace DeskCalculator

open History Scientific Storage

/-- Settings are loaded alike from files that agree on the way to the settings. -/
theorem Settings.load_fst_eq {hidden : Place} {files other : Files}
    (h : Files.AgreesExcept hidden files other) {explicit : Option String} {defaultPath : String}
    (hway : hidden ∉ wayTo (explicit.getD defaultPath)) :
    (Settings.load explicit defaultPath files).1 = (Settings.load explicit defaultPath other).1 := by
  have hfrom : ∀ path, hidden ∉ wayTo path → loadFrom path files = loadFrom path other := by
    intro path hpath
    unfold loadFrom
    rw [h.readText?_eq hpath]
  cases explicit with
  | some path =>
    have hway : hidden ∉ wayTo path := hway
    simp only [load, h.exists?_eq hway, hfrom path hway]
  | none =>
    have hway : hidden ∉ wayTo defaultPath := hway
    have hwritten := h.writeText_snd_eq hway (Settings.text {})
    simp only [load, saveTo_default, h.exists?_eq hway]
    split_ifs
    · exact hfrom defaultPath hway
    · revert hwritten
      generalize files.writeText defaultPath (Settings.text {}) = mine
      generalize other.writeText defaultPath (Settings.text {}) = theirs
      obtain ⟨after, written⟩ := mine
      obtain ⟨later, found⟩ := theirs
      rintro rfl
      cases written <;> rfl

namespace CommandLine

def EvalRequest.outcome (request : EvalRequest) (settings : Settings) : Outcome :=
  match request.evaluate settings.unit with
  | .ok x => success [Number.plain x]
  | .error fault => failed fault.failure (Expression.normalize request.text)

theorem runEval_fst (settings : Settings) (now : ℕ) (request : EvalRequest) (store : FileStore) :
    (runEval settings now request store).1 = request.outcome settings := by
  unfold runEval EvalRequest.outcome
  cases request.evaluate settings.unit <;> rfl

theorem runAction_eval (settings : Settings) (surroundings : Surroundings) (request : EvalRequest)
    (store : FileStore) :
    runAction settings surroundings (.eval request) store =
      (.ok (runEval settings (surroundings.clock 0) request store).1,
        (runEval settings (surroundings.clock 0) request store).2) := by
  rw [runAction]

namespace Invocation

variable (invocation : Invocation) (surroundings : Surroundings) (files : Files)

theorem prepare_fst :
    (invocation.prepare surroundings files).1 =
      ((Settings.load invocation.config surroundings.configPath files).1.mapError
        Trouble.settings).map fun settings =>
          (settings, (invocation.history <|> settings.historyPath).getD surroundings.historyPath) := by
  unfold prepare
  rcases Settings.load invocation.config surroundings.configPath files with ⟨loaded, after⟩
  cases loaded <;> rfl

/-- How an evaluation ends is determined by the settings. -/
theorem run_fst_of_eval {request : EvalRequest} (haction : invocation.action = some (.eval request)) :
    (invocation.run surroundings files).1 =
      (invocation.prepare surroundings files).1.map fun loaded => request.outcome loaded.1 := by
  unfold run actionOrListing
  rw [haction]
  rcases invocation.prepare surroundings files with ⟨loaded, after⟩
  cases loaded with
  | error trouble => rfl
  | ok loaded =>
    simp only [Option.getD_some, runAction_eval, runEval_fst]
    rfl

end Invocation

end CommandLine

namespace Session

/-- What a session shows for lines that are handled one after the other: for each what happens, and
then the prompt and the mode. -/
def responses {σ : Type} [Store σ] (session : Session) (store : σ) :
    List (ℕ × String) → List (Step × String × Mode)
  | [] => []
  | (now, line) :: rest =>
    let (step, next, after) := session.handle now line store
    (step, next.prompt, next.mode) :: next.responses after rest

theorem responses_cons {σ : Type} [Store σ] (session : Session) (store : σ) (now : ℕ)
    (line : String) (rest : List (ℕ × String)) :
    session.responses store ((now, line) :: rest) =
      (session.answer store (.ofLine line), (session.follow (.ofLine line)).prompt,
        (session.follow (.ofLine line)).mode) ::
      (session.follow (.ofLine line)).responses
        ((session.calculation? now (.ofLine line)).toList.foldl keep store) rest := by
  simp only [responses, handle_eq]

section

variable {σ τ : Type} [Store σ] [Store τ]

theorem answer_eq (session : Session) (store : σ) (other : τ) {input : Input}
    (h : input ≠ .command .history) : session.answer store input = session.answer other input := by
  cases input with
  | blank | expression text => rfl
  | command command =>
    cases command with
    | history => exact absurd rfl h
    | unit unit | inverse | clear | help | quit | unknown name => rfl

/-- Without listings a session shows the same with any store and at any time. -/
theorem responses_eq (session : Session) (store : σ) (other : τ) {lines later : List (ℕ × String)}
    (hlines : lines.map Prod.snd = later.map Prod.snd)
    (hlisting : ∀ entry ∈ lines, Input.ofLine entry.2 ≠ .command .history) :
    session.responses store lines = session.responses other later := by
  induction lines generalizing session store other later with
  | nil =>
    obtain rfl : later = [] := List.map_eq_nil_iff.mp hlines.symm
    rfl
  | cons entry rest ih =>
    obtain ⟨now, line⟩ := entry
    obtain ⟨⟨time, _⟩, others, rfl, rfl, hrest⟩ := List.map_eq_cons_iff.mp hlines.symm
    obtain ⟨hline, hothers⟩ := List.forall_mem_cons.mp hlisting
    rw [responses_cons, responses_cons, session.answer_eq store other hline]
    exact congrArg (List.cons _) (ih _ _ _ hrest.symm hothers)

end

end Session

open CommandLine in
/-- Calculations do not depend on what has been saved, nor on whether anything can be. An evaluation
ends with the same exit code, output and report on any files from which the same settings are
loaded; in particular on files that differ only in what is at the path of the history, unless the
way to the settings passes it. A session that is not asked for a listing shows the same with any two
stores. -/
theorem calculation_ignores_history :
    (∀ (invocation : Invocation) (surroundings : Surroundings) (request : EvalRequest)
      (files other : Files), invocation.action = some (.eval request) →
      (invocation.prepare surroundings files).1 = (invocation.prepare surroundings other).1 →
      (invocation.run surroundings files).1 = (invocation.run surroundings other).1) ∧
    (∀ (invocation : Invocation) (surroundings : Surroundings) (request : EvalRequest)
      (files other prepared : Files) (settings : Settings) (path : String),
      invocation.action = some (.eval request) →
      invocation.prepare surroundings files = (.ok (settings, path), prepared) →
      placeOf path ∉ wayTo (invocation.config.getD surroundings.configPath) →
      Files.AgreesExcept (placeOf path) files other →
      (invocation.run surroundings files).1 = (invocation.run surroundings other).1) ∧
    ∀ (σ τ : Type) [Store σ] [Store τ] (session : Session) (store : σ) (other : τ)
      (lines later : List (ℕ × String)),
      lines.map Prod.snd = later.map Prod.snd →
      (∀ entry ∈ lines, Session.Input.ofLine entry.2 ≠ .command .history) →
      session.responses store lines = session.responses other later := by
  refine ⟨?_, ?_, ?_⟩
  · intro invocation surroundings request files other haction hsettings
    rw [invocation.run_fst_of_eval surroundings files haction,
      invocation.run_fst_of_eval surroundings other haction, hsettings]
  · intro invocation surroundings request files other prepared settings path haction _ hway hagree
    have hload := Settings.load_fst_eq hagree hway
    rw [invocation.run_fst_of_eval surroundings files haction,
      invocation.run_fst_of_eval surroundings other haction, invocation.prepare_fst,
      invocation.prepare_fst, hload]
  · intro σ τ _ _ session store other lines later hlines hlisting
    exact session.responses_eq store other hlines hlisting

open CommandLine in
/-- The history named by the settings is malformed, or there is a folder in its place, or there is
nothing; and a session keeps its history in memory, or in a file that cannot be read. -/
theorem calculation_ignores_history_out_of_order :
    let history := Place.here.child "h.json"
    let absent := Files.put {} (Place.here.child "c.toml")
      (.file "[history]\npath = \"h.json\"\n".toUTF8)
    let files := absent.put history (.file "oops".toUTF8)
    let other := files.put history .folder
    let invocation : Invocation :=
      { config := some "c.toml", action := some (.eval { text := "1/3" }) }
    let surroundings : Surroundings := ⟨"config.toml", "history.json", fun _ => 0, ""⟩
    invocation.prepare surroundings files =
        (.ok ({ historyPath := some "h.json" }, "h.json"), files) ∧
      placeOf "h.json" ∉ wayTo "c.toml" ∧ Files.AgreesExcept history files other ∧
      (invocation.run surroundings absent).1 = .ok ⟨0, "0.3333333333\n", []⟩ ∧
      (invocation.run surroundings files).1 = .ok ⟨0, "0.3333333333\n", []⟩ ∧
      (invocation.run surroundings other).1 = .ok ⟨0, "0.3333333333\n", []⟩ ∧
      (Session.start .degrees 10).responses (⟨"h.json", other⟩ : FileStore)
          [(1, "1+1"), (2, ":inv")] =
        [(.print "= 2", "DEG> ", {}),
          (.print "inverse on\n= 2", "DEG INV> ", { inverse := true })] := by
  intro history absent files other invocation surroundings
  have hprepare : invocation.prepare surroundings files =
      (.ok ({ historyPath := some "h.json" }, "h.json"), files) :=
    Prod.ext (toOption_eq_some_iff.mp (by decide +kernel)) (by decide +kernel)
  have hway : placeOf "h.json" ∉ wayTo "c.toml" := by decide
  have hagree : Files.AgreesExcept history files other :=
    ⟨fun _ hne => (Files.get?_put_of_ne files hne .folder).symm, fun _ _ => rfl⟩
  have hrun : (invocation.run surroundings files).1 = .ok ⟨0, "0.3333333333\n", []⟩ :=
    toOption_eq_some_iff.mp (by decide +kernel)
  have habsent : (invocation.prepare surroundings absent).1 =
      (invocation.prepare surroundings files).1 :=
    (toOption_eq_some_iff.mp (by decide +kernel)).trans (congrArg Prod.fst hprepare).symm
  obtain ⟨hsettings, heval, hsession⟩ := calculation_ignores_history
  have hnothing := hsettings invocation surroundings { text := "1/3" } absent files rfl habsent
  have hother := heval invocation surroundings { text := "1/3" } files other files _ "h.json" rfl
    hprepare hway hagree
  have hshown := hsession MemoryStore FileStore (.start .degrees 10) {} ⟨"h.json", other⟩
    [(5, "1+1"), (6, ":inv")] [(1, "1+1"), (2, ":inv")] rfl (by decide)
  exact ⟨hprepare, hway, hagree, hnothing.trans hrun, hrun, hother.symm.trans hrun,
    hshown.symm.trans (by decide +kernel)⟩

end DeskCalculator
