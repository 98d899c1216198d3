import DeskCalculator.Proofs.CommandLine.Independence
import DeskCalculator.Proofs.History.Persistence

/-!
What a command line leaves in the history. Only evaluations and sessions that may save anything
write to the file, and they add one record for each expression that has a value: nothing for what
fails, for commands, or for the values that are computed again when the mode changes.
-/
namespace DeskCalculator

open History Scientific Storage

namespace Session

def untilQuit (lines : List (ℕ × String)) : List (ℕ × String) :=
  lines.takeWhile fun entry => Input.ofLine entry.2 != .command .quit

def savings (session : Session) : List (ℕ × String) → List (ℕ × String × String)
  | [] => []
  | (now, line) :: rest =>
    (session.calculation? now (.ofLine line)).toList ++ (session.follow (.ofLine line)).savings rest

/-- What is saved is saved at the time of some line. -/
theorem exists_of_mem_savings {session : Session} {lines : List (ℕ × String)}
    {calculation : ℕ × String × String} (h : calculation ∈ session.savings lines) :
    ∃ entry ∈ lines, entry.1 = calculation.1 := by
  induction lines generalizing session with
  | nil => exact absurd h List.not_mem_nil
  | cons entry rest ih =>
    obtain ⟨now, line⟩ := entry
    rcases List.mem_append.mp h with hhere | hlater
    · refine ⟨(now, line), List.mem_cons_self .., ?_⟩
      rw [Option.mem_toList] at hhere
      cases hinput : Input.ofLine line with
      | blank | command command =>
        rw [hinput] at hhere
        exact nomatch hhere
      | expression text =>
        rw [hinput] at hhere
        obtain ⟨x, -, rfl⟩ := Option.map_eq_some_iff.mp hhere
        rfl
    · obtain ⟨other, hmem, htime⟩ := ih hlater
      exact ⟨other, List.mem_cons_of_mem _ hmem, htime⟩

variable {σ : Type} [Store σ]

theorem printRefreshed_ne_quit (session : Session) (status : String) :
    session.printRefreshed status ≠ .quit := by
  unfold printRefreshed
  split_ifs <;> exact Step.noConfusion

/-- Only the commands for it end a session. -/
theorem answer_eq_quit_iff (session : Session) (store : σ) (input : Input) :
    session.answer store input = .quit ↔ input = .command .quit := by
  cases input with
  | blank | expression text => simp [answer]
  | command command =>
    cases command with
    | unit unit | inverse =>
      simp only [answer, perform, Input.command.injEq, reduceCtorEq, iff_false]
      exact printRefreshed_ne_quit _ _
    | history =>
      simp only [answer, perform]
      cases Store.listRecent session.recentLimit store <;> simp
    | clear | help | quit | unknown name => simp [answer, perform]

end Session

namespace CommandLine

section

variable {σ : Type} [Store σ]

/-- A session saves the calculations of its lines until it quits. -/
theorem converse_snd (session : Session) (store : σ) (lines : List (ℕ × String)) :
    (converse session store lines).2 =
      (session.savings (Session.untilQuit lines)).foldl keep store := by
  induction lines generalizing session store with
  | nil => rfl
  | cons entry rest ih =>
    obtain ⟨now, line⟩ := entry
    simp only [converse, Session.handle_eq, Session.answer_eq_quit_iff]
    by_cases hquit : Session.Input.ofLine line = .command .quit
    · have hlines : Session.untilQuit ((now, line) :: rest) = [] :=
        List.takeWhile_cons_of_neg (by simp [hquit])
      rw [if_pos hquit, hlines, hquit]
      rfl
    · have hlines : Session.untilQuit ((now, line) :: rest) = (now, line) :: Session.untilQuit rest :=
        List.takeWhile_cons_of_pos (by simpa using hquit)
      rw [if_neg hquit, hlines, Session.savings, List.foldl_append]
      exact ih _ _

end

def Action.saves : Action → Bool
  | .eval request => request.save
  | .session save => save
  | .hex _ | .split _ | .history _ => false

/-- The calculations that an action saves, each with its time: the expressions that have a value. -/
def Action.savings (settings : Settings) (clock : ℕ → ℕ) (input : String) :
    Action → List (ℕ × String × String)
  | .eval request =>
    if request.save then
      (request.evaluate settings.unit).toOption.toList.map fun x =>
        (clock 0, request.text, Number.plain x)
    else []
  | .session true => (newSession settings).savings (Session.untilQuit (timedLines clock input))
  | .session false | .hex _ | .split _ | .history _ => []

theorem Action.savings_eq_nil {action : Action} (h : action.saves = false) (settings : Settings)
    (clock : ℕ → ℕ) (input : String) : action.savings settings clock input = [] := by
  cases action with
  | eval request => exact if_neg (ne_true_of_eq_false h)
  | session save =>
    obtain rfl : save = false := h
    rfl
  | hex text | split request | history limit => rfl

/-- Every time at which something is saved has been read from the clock. -/
theorem Action.exists_clock_of_mem_savings {action : Action} {settings : Settings} {clock : ℕ → ℕ}
    {input : String} {calculation : ℕ × String × String}
    (h : calculation ∈ action.savings settings clock input) : ∃ n, clock n = calculation.1 := by
  cases action with
  | eval request =>
    simp only [savings, List.mem_ite_nil_right] at h
    obtain ⟨x, -, rfl⟩ := List.mem_map.mp h.2
    exact ⟨0, rfl⟩
  | session save =>
    cases save with
    | true =>
      obtain ⟨entry, hmem, htime⟩ := Session.exists_of_mem_savings h
      have hline : entry ∈ timedLines clock input := (List.takeWhile_sublist _).mem hmem
      obtain ⟨n, _, rfl⟩ := List.mem_mapIdx.mp hline
      exact ⟨n, htime⟩
    | false => exact absurd h List.not_mem_nil
  | hex text | split request | history limit => exact absurd h List.not_mem_nil

/-- All that an action does to a store is to save its calculations. -/
theorem runAction_snd (settings : Settings) (surroundings : Surroundings) (action : Action)
    (store : FileStore) :
    (runAction settings surroundings action store).2 =
      (action.savings settings surroundings.clock surroundings.input).foldl keep store := by
  cases action with
  | eval request =>
    simp only [runAction_eval, runEval, Action.savings, saveIfPossible_snd]
    cases request.evaluate settings.unit <;> cases request.save <;> rfl
  | session save =>
    cases save with
    | true => exact converse_snd (newSession settings) store _
    | false => rfl
  | hex text | split request | history limit => rfl

/-- A command that fails prints nothing. -/
theorem output_of_runAction {settings : Settings} {surroundings : Surroundings} {action : Action}
    {store : FileStore} {outcome : Outcome}
    (h : (runAction settings surroundings action store).1 = .ok outcome) :
    outcome.exitCode = 0 ∨ outcome.output = "" := by
  cases action with
  | eval request =>
    rw [runAction_eval] at h
    have hend : (runEval settings (surroundings.clock 0) request store).1 = outcome := Except.ok.inj h
    unfold runEval at hend
    cases hvalue : request.evaluate settings.unit with
    | ok x =>
      rw [hvalue] at hend
      exact .inl (hend ▸ rfl)
    | error fault =>
      rw [hvalue] at hend
      exact .inr (hend ▸ rfl)
  | hex text =>
    obtain rfl := Except.ok.inj h
    unfold runHex
    cases Hex.evaluate text with
    | ok n => exact .inl rfl
    | error fault => exact .inr rfl
  | split request =>
    obtain rfl := Except.ok.inj h
    unfold runSplit
    cases (request.bill settings.rounding).settle with
    | ok settlement => exact .inl rfl
    | error fault => exact .inr rfl
  | history limit =>
    have hlisting : runHistory settings limit store = .ok outcome := h
    unfold runHistory at hlisting
    split at hlisting
    · obtain rfl := Except.ok.inj hlisting
      exact .inl rfl
    · exact nomatch hlisting
  | session save =>
    cases save with
    | true | false =>
      obtain rfl := Except.ok.inj h
      exact .inl rfl

theorem Invocation.prepare_snd (invocation : Invocation) (surroundings : Surroundings)
    (files : Files) :
    (invocation.prepare surroundings files).2 =
      (Settings.load invocation.config surroundings.configPath files).2 := by
  unfold prepare
  rcases Settings.load invocation.config surroundings.configPath files with ⟨loaded, after⟩
  cases loaded <;> rfl

/-- Loading the settings leaves the files as they are, or writes the default settings to their
file. -/
theorem Invocation.prepare_snd_cases (invocation : Invocation) (surroundings : Surroundings)
    (files : Files) :
    (invocation.prepare surroundings files).2 = files ∨
      (invocation.prepare surroundings files).2 =
        (files.writeText (invocation.config.getD surroundings.configPath) (Settings.text {})).1 := by
  rw [prepare_snd]
  cases invocation.config with
  | some path => exact .inl rfl
  | none =>
    simp only [Settings.load, Settings.saveTo_default, Option.getD_none]
    split_ifs
    · exact .inl rfl
    · right
      rcases files.writeText surroundings.configPath (Settings.text {}) with ⟨after, written⟩
      cases written <;> rfl

section

variable {invocation : Invocation} {surroundings : Surroundings} {files prepared : Files}
  {loaded : Except Trouble (Settings × String)}

theorem fileAt?_prepare (hprepare : invocation.prepare surroundings files = (loaded, prepared))
    {place : Place} (h : place ≠ placeOf (invocation.config.getD surroundings.configPath)) :
    prepared.fileAt? place = files.fileAt? place := by
  obtain rfl := congrArg Prod.snd hprepare
  rcases invocation.prepare_snd_cases surroundings files with hsame | hwritten
  · exact congrArg (Files.fileAt? · place) hsame
  · exact (congrArg (Files.fileAt? · place) hwritten).trans (Files.fileAt?_writeText h _)

theorem bytes?_prepare (hprepare : invocation.prepare surroundings files = (loaded, prepared))
    {path : String} {content : ByteArray}
    (h : placeOf path ≠ placeOf (invocation.config.getD surroundings.configPath))
    (hbytes : files.bytes? path = some content) : prepared.bytes? path = some content := by
  obtain rfl := congrArg Prod.snd hprepare
  rcases invocation.prepare_snd_cases surroundings files with hsame | hwritten
  · exact (congrArg (Files.bytes? · path) hsame).trans hbytes
  · exact (congrArg (Files.bytes? · path) hwritten).trans (Files.bytes?_writeText h hbytes _)

/-- Once the settings are loaded, what is asked for is done with the files that are there then. -/
theorem run_of_prepare {settings : Settings} {path : String}
    (hprepare : invocation.prepare surroundings files = (.ok (settings, path), prepared)) :
    invocation.run surroundings files =
      ((runAction settings surroundings invocation.actionOrListing ⟨path, prepared⟩).1,
        (runAction settings surroundings invocation.actionOrListing ⟨path, prepared⟩).2.files) := by
  unfold Invocation.run
  rw [hprepare]

end

end CommandLine

namespace History.FileStore

/-- A file that can be read and written takes calculations one after the other. -/
theorem load_foldl_keep {store : FileStore} {records : List Record} (hload : store.load = .ok records)
    (hwritable : store.files.isWritable store.path = true)
    {calculations : List (ℕ × String × String)}
    (hnow : ∀ calculation ∈ calculations, calculation.1 < numberBound)
    (hids : nextId records + calculations.length ≤ numberBound) :
    (calculations.foldl keep store).path = store.path ∧
      ∃ new, (calculations.foldl keep store).load = .ok (records ++ new) ∧
        new.map (fun r => (r.createdAt, r.formula, r.result)) = calculations := by
  induction calculations generalizing store records with
  | nil => exact ⟨rfl, [], by rw [List.append_nil]; exact hload, rfl⟩
  | cons calculation rest ih =>
    obtain ⟨now, formula, result⟩ := calculation
    obtain ⟨hfirst, hrest⟩ := List.forall_mem_cons.mp hnow
    rw [List.length_cons] at hids
    -- After a save the file can be read and written as before, which is all that the rest needs.
    obtain ⟨after, hsave, hpath, hagain, hafter⟩ :=
      save_of_writable hload hwritable (by omega) hfirst formula result
    have hkeep : keep store (now, formula, result) = after := congrArg Prod.snd hsave
    rw [← hpath] at hagain
    obtain ⟨hend, new, hnew, hmap⟩ :=
      ih hafter hagain hrest (by rw [nextId_append_newRecord]; omega)
    rw [List.foldl_cons, hkeep]
    refine ⟨hend.trans hpath, newRecord now formula result records :: new, ?_, ?_⟩
    · rw [hnew, List.append_assoc, List.singleton_append]
    · exact congrArg (List.cons _) hmap

end History.FileStore

open CommandLine in
/-- What a command line does to the history, once the settings are loaded. If it is neither an
evaluation nor a session that may save, or if no expression has a value, the file is byte for byte
what it was, and a missing file is still missing. Otherwise, if the file can be read and written and
the new ids are still numbers of a file, it holds the records that it held, followed by one record
for each expression that has a value, in the order of the input. Those are the records of the file
to which the path leads at the start; only where there is no file at all, there are none. A command
that fails has printed nothing. -/
theorem run_saves_values (invocation : Invocation) (surroundings : Surroundings) (files : Files)
    {settings : Settings} {path : String} {prepared : Files}
    (hprepare : invocation.prepare surroundings files = (.ok (settings, path), prepared))
    (hapart : placeOf path ≠ placeOf (invocation.config.getD surroundings.configPath)) :
    let action := invocation.actionOrListing
    let savings := action.savings settings surroundings.clock surroundings.input
    let after := (invocation.run surroundings files).2
    (action.saves = false ∨ savings = [] →
      after.fileAt? (placeOf path) = files.fileAt? (placeOf path) ∧
      ∀ content, files.bytes? path = some content → after.bytes? path = some content) ∧
    (action.saves = true → ∀ old, FileStore.load ⟨path, prepared⟩ = .ok old →
      prepared.isWritable path = true → (∀ n, surroundings.clock n < numberBound) →
      nextId old + savings.length ≤ numberBound →
      (∃ new, FileStore.load ⟨path, after⟩ = .ok (old ++ new) ∧
        new.map (fun r => (r.createdAt, r.formula, r.result)) = savings) ∧
      (∀ content, files.bytes? path = some content → FileStore.load ⟨path, files⟩ = .ok old) ∧
      (files.fileAt? (placeOf path) = none → old = [])) ∧
    ∀ outcome, (invocation.run surroundings files).1 = .ok outcome →
      outcome.exitCode ∈ [2, 3, 4] → outcome.output = "" := by
  -- Default settings may have been written, but to another place than that of the history.
  have hplace := fileAt?_prepare hprepare hapart
  have hbytes : ∀ content, files.bytes? path = some content →
      prepared.bytes? path = some content := fun _ => bytes?_prepare hprepare hapart
  rw [run_of_prepare hprepare]
  refine ⟨fun h => ?_, fun _ old hload hwritable hnow hids => ⟨?_, ?_, ?_⟩, ?_⟩
  · have hnil : invocation.actionOrListing.savings settings surroundings.clock
        surroundings.input = [] :=
      h.elim (fun hsaves => Action.savings_eq_nil hsaves _ _ _) id
    rw [runAction_snd, hnil]
    exact ⟨hplace, hbytes⟩
  · rw [runAction_snd]
    have htimes : ∀ calculation ∈ invocation.actionOrListing.savings settings surroundings.clock
        surroundings.input, calculation.1 < numberBound := by
      intro calculation hmem
      obtain ⟨n, htime⟩ := Action.exists_clock_of_mem_savings hmem
      exact htime ▸ hnow n
    obtain ⟨hpath, new, hnew, hmap⟩ := FileStore.load_foldl_keep hload hwritable htimes hids
    rw [← FileStore.reopen_eq_self hpath] at hnew
    exact ⟨new, hnew, hmap⟩
  · intro content h
    rw [FileStore.load_eq_of_bytes? h (hbytes content h), hload]
  · intro hnone
    exact FileStore.eq_nil_of_fileAt? (hplace.trans hnone) hload
  · intro outcome hresult hcode
    rcases output_of_runAction hresult with hzero | hsilent
    · rw [hzero] at hcode
      exact absurd hcode (by decide)
    · exact hsilent

open CommandLine in
/-- A session that begins with one saved calculation and no settings, under a clock that moves on by
half a second: an expression, a change of the mode that evaluates it again, its value used once
more, a failure, and what comes after the end. -/
theorem run_saves_values_of_session :
    let files := (Files.put {} (Place.here.child "data") .folder).put
      ((Place.here.child "data").child "history.json")
      (.file (encode [⟨7, "1/4", "0.25", 3⟩]).toUTF8)
    let invocation : Invocation := { action := some (.session true) }
    let surroundings : Surroundings :=
      ⟨"config/config.toml", "data/history.json", fun n => min (9 + 500 * n) 9000,
        "1+1\n:rad\nAns*3\n1/0\n:q\n5\n"⟩
    let prepared := (invocation.prepare surroundings files).2
    invocation.prepare surroundings files = (.ok ({}, "data/history.json"), prepared) ∧
      placeOf "data/history.json" ≠ placeOf "config/config.toml" ∧
      FileStore.load ⟨"data/history.json", prepared⟩ = .ok [⟨7, "1/4", "0.25", 3⟩] ∧
      prepared.isWritable "data/history.json" = true ∧
      ∃ new, FileStore.load ⟨"data/history.json", (invocation.run surroundings files).2⟩ =
          .ok ([⟨7, "1/4", "0.25", 3⟩] ++ new) ∧
        new.map (fun r => (r.createdAt, r.formula, r.result)) =
          [(9, "1+1", "2"), (1009, "Ans*3", "6")] := by
  intro files invocation surroundings prepared
  have hprepare : invocation.prepare surroundings files =
      (.ok ({}, "data/history.json"), prepared) :=
    Prod.ext (toOption_eq_some_iff.mp (by decide +kernel)) rfl
  have hapart : placeOf "data/history.json" ≠ placeOf "config/config.toml" := by decide
  have hload : FileStore.load ⟨"data/history.json", prepared⟩ = .ok [⟨7, "1/4", "0.25", 3⟩] :=
    toOption_eq_some_iff.mp (by decide +kernel)
  have hwritable : prepared.isWritable "data/history.json" = true := by decide +kernel
  have hsavings : invocation.actionOrListing.savings {} surroundings.clock surroundings.input =
      [(9, "1+1", "2"), (1009, "Ans*3", "6")] := by decide +kernel
  have hids : nextId [⟨7, "1/4", "0.25", 3⟩] + (invocation.actionOrListing.savings {}
      surroundings.clock surroundings.input).length ≤ numberBound := by
    rw [hsavings]
    decide
  have hnow : ∀ n, surroundings.clock n < numberBound :=
    fun n => (min_le_right (9 + 500 * n) 9000).trans_lt (by decide)
  obtain ⟨-, hsaves, -⟩ := run_saves_values invocation surroundings files hprepare hapart
  obtain ⟨⟨new, hnew, hmap⟩, -, -⟩ := hsaves rfl _ hload hwritable hnow hids
  exact ⟨hprepare, hapart, hload, hwritable, new, hnew, hmap.trans hsavings⟩

end DeskCalculator
