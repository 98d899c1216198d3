import DeskCalculator.Proofs.History.Saving
import DeskCalculator.Proofs.Storage.Writing

/-!
A history kept in a file is as good as one kept in memory. The file store knows nothing but its
path, so it may be opened anew at any time; what it answers from its file is what a store in memory
answers that has been asked the same from the start.
-/
namespace DeskCalculator.History

open Storage

theorem nextId_nil : nextId [] = 1 := rfl

/-- Each new record takes the next id. -/
theorem nextId_append_newRecord (now : ℕ) (formula result : String) (records : List Record) :
    nextId (records ++ [newRecord now formula result records]) = nextId records + 1 := by
  have hid : (newRecord now formula result records).id = nextId records := rfl
  have hmax : nextId (records ++ [newRecord now formula result records]) =
      max ((records.map Record.id).foldl max 0) (nextId records) + 1 := by
    rw [← hid]
    unfold nextId
    rw [List.map_append, List.foldl_append]
    rfl
  rw [hmax]
  unfold nextId
  omega

/-- A file that can be read and written takes the next record behind the others, and can be read and
written again. -/
theorem FileStore.save_of_writable {store : FileStore} {records : List Record} {now : ℕ}
    (hload : store.load = .ok records) (hwritable : store.files.isWritable store.path = true)
    (hid : nextId records < numberBound) (hnow : now < numberBound) (formula result : String) :
    ∃ after, FileStore.save now formula result store =
        (.ok (newRecord now formula result records), after) ∧
      after.path = store.path ∧ after.files.isWritable store.path = true ∧
      after.load = .ok (records ++ [newRecord now formula result records]) := by
  rcases save_cases now formula result store with
    ⟨fault, herror, -⟩ | ⟨found, files, written, hfound, hwrite, hsave⟩
  · exact nomatch hload.symm.trans herror
  · obtain rfl := Except.ok.inj (hload.symm.trans hfound)
    have hagain := Files.isWritable_writeText hwritable
      (encode (records ++ [newRecord now formula result records]))
    obtain ⟨_, _, -, -, -, -, hwrote⟩ := Files.writeText_of_isWritable hwritable
      (encode (records ++ [newRecord now formula result records]))
    obtain rfl : written = true := congrArg Prod.snd (hwrite.symm.trans hwrote)
    rw [hwrite] at hagain
    exact ⟨_, hsave, rfl, hagain,
      load_of_saved hload rfl hnow hid (Files.bytes?_of_writeText hwrite)⟩

/-- A save that succeeds has put the next record behind the others. -/
theorem FileStore.load_of_save {store after : FileStore} {records : List Record} {record : Record}
    {now : ℕ} {formula result : String} (hload : store.load = .ok records)
    (hid : nextId records < numberBound) (hnow : now < numberBound)
    (hsave : FileStore.save now formula result store = (.ok record, after)) :
    record = newRecord now formula result records ∧ after.path = store.path ∧
      after.load = .ok (records ++ [record]) := by
  rcases save_cases now formula result store with
    ⟨fault, -, hfailed⟩ | ⟨found, files, written, hfound, hwrite, hended⟩
  · exact nomatch congrArg Prod.fst (hfailed.symm.trans hsave)
  · obtain rfl := Except.ok.inj (hload.symm.trans hfound)
    obtain ⟨houtcome, rfl⟩ := Prod.mk.inj (hended.symm.trans hsave)
    cases written with
    | false => exact nomatch houtcome
    | true =>
      obtain rfl := Except.ok.inj houtcome
      exact ⟨rfl, rfl, load_of_saved hload rfl hnow hid (Files.bytes?_of_writeText hwrite)⟩

namespace FileStore

variable {path : String} {files other : Files} {records : List Record}

/-- What is loaded depends on the bytes of the file. -/
theorem load_eq_of_bytes? {content : ByteArray} (h : files.bytes? path = some content)
    (hother : other.bytes? path = some content) : load ⟨path, files⟩ = load ⟨path, other⟩ := by
  unfold load
  rw [Files.exists?_of_bytes? h, Files.exists?_of_bytes? hother, Files.readText?_of_bytes? h,
    Files.readText?_of_bytes? hother]

/-- Nothing is loaded where there is no file. -/
theorem eq_nil_of_fileAt? (h : files.fileAt? (placeOf path) = none)
    (hload : load ⟨path, files⟩ = .ok records) : records = [] := by
  have hread : files.readText? path = none := by
    unfold Files.readText?
    cases hlocate : files.locate? path with
    | none => rfl
    | some place =>
      rw [Files.placeOf_of_locate? hlocate] at h
      rw [Option.bind_eq_bind, Option.bind_some]
      cases hget : files.get? place with
      | none => rfl
      | some entry =>
        cases entry with
        | folder => rfl
        | file content =>
          rw [Files.fileAt?_eq_some_iff.mpr hget] at h
          exact nomatch h
  unfold load at hload
  split_ifs at hload with hmissing
  · exact (Except.ok.inj hload).symm
  · simp only [hread] at hload
    exact nomatch hload

end FileStore

inductive Query where
  | save (formula result : String)
  | list (limit : ℕ)
deriving Repr, DecidableEq

def Query.isSave : Query → Bool
  | save _ _ => true
  | list _ => false

inductive Reply where
  | saved (outcome : Except StoreFault Record)
  | listed (outcome : Except StoreFault (List Record))

/-- A query, the time when it is made, and whether the store is opened anew for it. -/
structure Call where
  query : Query
  now : ℕ
  reopens : Bool := false
deriving Repr, DecidableEq

def Call.isSave (call : Call) : Bool := call.query.isSave

section

variable {σ : Type} [Store σ]

def reply (now : ℕ) (store : σ) : Query → Reply × σ
  | .save formula result =>
    let (outcome, after) := Store.save now formula result store
    (.saved outcome, after)
  | .list limit => (.listed (Store.listRecent limit store), store)

def replies (reopen : σ → σ) (store : σ) : List Call → List Reply
  | [] => []
  | call :: rest =>
    let (answer, after) := reply call.now (if call.reopens then reopen store else store) call.query
    answer :: replies reopen after rest

theorem replies_cons (reopen : σ → σ) (store : σ) (call : Call) (rest : List Call) :
    replies reopen store (call :: rest) =
      (reply call.now (if call.reopens then reopen store else store) call.query).1 ::
        replies reopen
          (reply call.now (if call.reopens then reopen store else store) call.query).2 rest := rfl

end

/-- A store for the file at a path, opened when the files are those that an earlier store left. -/
def FileStore.reopen (path : String) (store : FileStore) : FileStore := ⟨path, store.files⟩

theorem FileStore.reopen_eq_self {path : String} {store : FileStore} (h : store.path = path) :
    store.reopen path = store := by
  rw [reopen, ← h]

/-- A store for the file at a path that holds what a store in memory holds. -/
structure Holds (path : String) (file : FileStore) (memory : MemoryStore) : Prop where
  path_eq : file.path = path
  load_eq : file.load = .ok memory.records

structure Mirrors (path : String) (file : FileStore) (memory : MemoryStore) : Prop
    extends Holds path file memory where
  isWritable : file.files.isWritable path = true

/-- Each save in memory uses up a number. -/
theorem nextId_reply (now : ℕ) (memory : MemoryStore) (query : Query) :
    nextId (reply now memory query).2.records =
      nextId memory.records + if query.isSave then 1 else 0 := by
  cases query with
  | save formula result => exact nextId_append_newRecord now formula result memory.records
  | list limit => rfl

/-- The calls that follow a first one have the numbers that it leaves. -/
theorem nextId_call {memory : MemoryStore} {call : Call} {rest : List Call}
    (hids : nextId memory.records + (call :: rest).countP Call.isSave ≤ numberBound) :
    (call.query.isSave = true → nextId memory.records < numberBound) ∧
      nextId (reply call.now memory call.query).2.records + rest.countP Call.isSave ≤
        numberBound := by
  have huse := nextId_reply call.now memory call.query
  have hcount : (call :: rest).countP Call.isSave =
      rest.countP Call.isSave + if call.query.isSave then 1 else 0 := List.countP_cons
  rw [hcount] at hids
  refine ⟨fun hsave => ?_, by omega⟩
  rw [if_pos hsave] at hids
  omega

section

variable {path : String} {file : FileStore} {memory : MemoryStore} {call : Call}
  {rest : List Call}

namespace Holds

/-- Only the files outlive a run, and the path is the same, so opening the file anew is no step at
all. -/
theorem reopen_eq (h : Holds path file memory) (reopens : Bool) :
    (if reopens then file.reopen path else file) = file := by
  rw [FileStore.reopen_eq_self h.path_eq, ite_self]

/-- Unless a save fails, both stores reply alike to a query and hold the same records again. -/
theorem reply_eq (h : Holds path file memory) {now : ℕ} (hnow : now < numberBound) (query : Query)
    (hid : query.isSave = true → nextId memory.records < numberBound)
    (hsaved : ∀ fault, (reply now file query).1 ≠ .saved (.error fault)) :
    (reply now file query).1 = (reply now memory query).1 ∧
      Holds path (reply now file query).2 (reply now memory query).2 := by
  cases query with
  | save formula result =>
    obtain ⟨outcome, after, hsave⟩ : ∃ outcome after,
        FileStore.save now formula result file = (outcome, after) := ⟨_, _, rfl⟩
    have hreply : reply now file (.save formula result) = (.saved outcome, after) :=
      congrArg (fun (outcome, after) => (Reply.saved outcome, after)) hsave
    rw [hreply] at hsaved ⊢
    cases outcome with
    | error fault => exact absurd rfl (hsaved fault)
    | ok record =>
      obtain ⟨rfl, hpath, hload⟩ := FileStore.load_of_save h.load_eq (hid rfl) hnow hsave
      exact ⟨rfl, hpath.trans h.path_eq, hload⟩
  | list limit =>
    have hlist : Store.listRecent limit file = Store.listRecent limit memory :=
      congrArg (Except.map (mostRecent limit)) h.load_eq
    exact ⟨congrArg Reply.listed hlist, h⟩

/-- The same for a call, which leaves enough numbers for the calls behind it. -/
theorem call_eq (h : Holds path file memory) (hnow : call.now < numberBound)
    (hids : nextId memory.records + (call :: rest).countP Call.isSave ≤ numberBound)
    (hsaved : ∀ fault,
      .saved (.error fault) ∉ replies (FileStore.reopen path) file (call :: rest)) :
    let inFile := reply call.now (if call.reopens then file.reopen path else file) call.query
    let inMemory := reply call.now (if call.reopens then id memory else memory) call.query
    inFile.1 = inMemory.1 ∧ Holds path inFile.2 inMemory.2 ∧
      nextId inMemory.2.records + rest.countP Call.isSave ≤ numberBound ∧
      ∀ fault, .saved (.error fault) ∉ replies (FileStore.reopen path) inFile.2 rest := by
  obtain ⟨hid, hleft⟩ := nextId_call hids
  rw [replies_cons, h.reopen_eq] at hsaved
  rw [h.reopen_eq, id_eq, ite_self]
  obtain ⟨hreply, hnext⟩ := h.reply_eq hnow call.query hid
    fun fault heq => hsaved fault (heq ▸ List.mem_cons_self ..)
  exact ⟨hreply, hnext, hleft, fun fault hmem => hsaved fault (List.mem_cons_of_mem _ hmem)⟩

/-- Both stores reply alike to calls, as long as no save fails and there are numbers left for new
records. -/
theorem replies_eq (h : Holds path file memory) (calls : List Call)
    (hnow : ∀ call ∈ calls, call.now < numberBound)
    (hids : nextId memory.records + calls.countP Call.isSave ≤ numberBound)
    (hsaved : ∀ fault, .saved (.error fault) ∉ replies (FileStore.reopen path) file calls) :
    replies (FileStore.reopen path) file calls = replies id memory calls := by
  induction calls generalizing file memory with
  | nil => rfl
  | cons call rest ih =>
    obtain ⟨hnowcall, hnowrest⟩ := List.forall_mem_cons.mp hnow
    obtain ⟨hreply, hnext, hleft, hlater⟩ := h.call_eq hnowcall hids hsaved
    rw [replies_cons, replies_cons, hreply]
    exact congrArg (List.cons _) (ih hnext hnowrest hleft hlater)

end Holds

namespace Mirrors

/-- No save fails, and the file can be written again. -/
theorem reply_saves (h : Mirrors path file memory) {now : ℕ} (hnow : now < numberBound)
    (query : Query) (hid : query.isSave = true → nextId memory.records < numberBound) :
    (∀ fault, (reply now file query).1 ≠ .saved (.error fault)) ∧
      Mirrors path (reply now file query).2 (reply now memory query).2 := by
  cases query with
  | save formula result =>
    have hwritable : file.files.isWritable file.path = true := h.path_eq.symm ▸ h.isWritable
    obtain ⟨after, hsave, hpath, hagain, hload⟩ :=
      FileStore.save_of_writable h.load_eq hwritable (hid rfl) hnow formula result
    have hreply : reply now file (.save formula result) =
        (.saved (.ok (newRecord now formula result memory.records)), after) :=
      congrArg (fun (outcome, after) => (Reply.saved outcome, after)) hsave
    rw [hreply]
    exact ⟨nofun, ⟨hpath.trans h.path_eq, hload⟩, h.path_eq ▸ hagain⟩
  | list limit => exact ⟨nofun, h⟩

/-- Of all calls, no save fails. -/
theorem not_mem_replies (h : Mirrors path file memory) (calls : List Call)
    (hnow : ∀ call ∈ calls, call.now < numberBound)
    (hids : nextId memory.records + calls.countP Call.isSave ≤ numberBound) (fault : StoreFault) :
    .saved (.error fault) ∉ replies (FileStore.reopen path) file calls := by
  induction calls generalizing file memory with
  | nil => exact List.not_mem_nil
  | cons call rest ih =>
    obtain ⟨hnowcall, hnowrest⟩ := List.forall_mem_cons.mp hnow
    obtain ⟨hid, hleft⟩ := nextId_call hids
    obtain ⟨hsaved, hnext⟩ := h.reply_saves hnowcall call.query hid
    rw [replies_cons, h.reopen_eq, List.mem_cons, not_or]
    exact ⟨(hsaved fault).symm, ih hnext hnowrest hleft⟩

end Mirrors

end

/-- Without a file the history is empty, as it is in memory at the start. -/
theorem mirrors_of_missing {path : String} {files : Files} (hmissing : files.exists? path = false)
    (hwritable : files.isWritable path = true) : Mirrors path ⟨path, files⟩ {} := by
  refine ⟨⟨rfl, ?_⟩, hwritable⟩
  unfold FileStore.load
  rw [hmissing]
  rfl

/-- Whatever is saved and listed, in whatever order and with the file opened anew as often as one
likes, a history that begins without a file answers as one that is kept in memory. -/
theorem replies_eq_in_memory (path : String) (files : Files) (calls : List Call)
    (hmissing : files.exists? path = false) (hwritable : files.isWritable path = true)
    (hnow : ∀ call ∈ calls, call.now < numberBound)
    (hids : calls.countP Call.isSave < numberBound) :
    replies (FileStore.reopen path) ⟨path, files⟩ calls = replies id ({} : MemoryStore) calls := by
  have hstart : Mirrors path ⟨path, files⟩ {} := mirrors_of_missing hmissing hwritable
  have hnumbers : nextId [] + calls.countP Call.isSave ≤ numberBound := by
    rw [nextId_nil]
    omega
  exact hstart.replies_eq calls hnow hnumbers (hstart.not_mem_replies calls hnow hnumbers)

/-- Two calculations, one with quotes, a backslash and control characters in it, saved by separate
runs of the program and listed by a third. -/
theorem replies_eq_in_memory_across_runs :
    let calls : List Call := [⟨.save "2+\"\\\n\x01\"" "4π", 7, false⟩,
      ⟨.save "1/3" "0.3333333333", 7, true⟩, ⟨.list 1, 9, true⟩]
    Files.exists? {} "data/history.json" = false ∧ Files.isWritable {} "data/history.json" = true ∧
      (∀ call ∈ calls, call.now < numberBound) ∧
      calls.countP Call.isSave < numberBound ∧
      replies (FileStore.reopen "data/history.json") ⟨"data/history.json", {}⟩ calls =
        [.saved (.ok ⟨1, "2+\"\\\n\x01\"", "4π", 7⟩), .saved (.ok ⟨2, "1/3", "0.3333333333", 7⟩),
          .listed (.ok [⟨2, "1/3", "0.3333333333", 7⟩])] := by
  refine ⟨by decide, by decide, by decide, by decide, ?_⟩
  rw [replies_eq_in_memory _ _ _ (by decide) (by decide) (by decide) (by decide)]
  simp [replies, reply, Store.save, Store.listRecent, newRecord, nextId, mostRecent, precedes,
    List.mergeSort]

end DeskCalculator.History
