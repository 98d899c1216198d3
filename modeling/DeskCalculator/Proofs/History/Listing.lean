import DeskCalculator.Proofs.History.Persistence
import Mathlib.Data.List.Nodup
import Mathlib.Data.List.Perm.Basic

/-!
Listings show the newest records first. Records are listed by time and then by id, and a clock that
never goes back hands out times that never fall while the ids rise. Whatever is saved in a run of
calls is therefore listed before everything older, the last save first.
-/
namespace DeskCalculator.History

open Storage

def greatestId (records : List Record) : ℕ := (records.map Record.id).max?.getD 0

theorem greatestId_eq_foldl (records : List Record) :
    greatestId records = (records.map Record.id).foldl max 0 := by
  rw [List.foldl_max, Nat.zero_max]
  rfl

theorem nextId_eq (records : List Record) : nextId records = greatestId records + 1 := by
  rw [greatestId_eq_foldl]
  rfl

/-- Consecutive ids behind the greatest one end with the greatest one. -/
theorem greatestId_append {older newer : List Record} {n : ℕ}
    (h : newer.map Record.id = List.range' (greatestId older + 1) n) :
    greatestId (older ++ newer) = greatestId older + n := by
  have hfold : ∀ n greatest, (List.range' (greatest + 1) n).foldl max greatest = greatest + n := by
    intro n
    induction n with
    | zero => exact fun _ => rfl
    | succ n ih =>
      intro greatest
      rw [List.range'_succ, List.foldl_cons, Nat.max_eq_right (Nat.le_succ greatest), ih]
      omega
  rw [greatestId_eq_foldl, List.map_append, List.foldl_append, ← greatestId_eq_foldl, h, hfold]

/-- The records that the saves among calls make, with ids from `first` on. -/
def savedBy (first : ℕ) : List Call → List Record
  | [] => []
  | ⟨.save formula result, now, _⟩ :: rest =>
    ⟨first, formula, result, now⟩ :: savedBy (first + 1) rest
  | ⟨.list _, _, _⟩ :: rest => savedBy first rest

theorem map_id_savedBy (first : ℕ) (calls : List Call) :
    (savedBy first calls).map Record.id = List.range' first (calls.countP Call.isSave) := by
  fun_induction savedBy first calls with
  | case1 first => rfl
  | case2 first formula result now reopens rest ih =>
    rw [List.map_cons, ih, List.countP_cons_of_pos rfl, List.range'_succ]
  | case3 first limit now reopens rest ih =>
    rw [ih, List.countP_cons_of_neg (Bool.not_eq_true _ ▸ rfl)]

def NeverGoesBack (start : ℕ) (calls : List Call) : Prop :=
  (start :: calls.map Call.now).Pairwise (· ≤ ·)

instance (start : ℕ) (calls : List Call) : Decidable (NeverGoesBack start calls) :=
  inferInstanceAs (Decidable (List.Pairwise ..))

/-- What the calls of a run save has a new id and the time of its call. -/
theorem mem_savedBy {first : ℕ} {calls : List Call} {r : Record} (h : r ∈ savedBy first calls) :
    first ≤ r.id ∧ ∃ call ∈ calls, r.createdAt = call.now := by
  fun_induction savedBy first calls with
  | case1 first => exact absurd h List.not_mem_nil
  | case2 first formula result now reopens rest ih =>
    rcases List.mem_cons.mp h with rfl | h
    · exact ⟨Nat.le_refl _, _, List.mem_cons_self, rfl⟩
    · obtain ⟨hid, call, hcall, hnow⟩ := ih h
      exact ⟨by omega, call, List.mem_cons_of_mem _ hcall, hnow⟩
  | case3 first limit now reopens rest ih =>
    obtain ⟨hid, call, hcall, hnow⟩ := ih h
    exact ⟨hid, call, List.mem_cons_of_mem _ hcall, hnow⟩

theorem precedes_iff {a b : Record} : precedes a b = true ↔
    b.createdAt < a.createdAt ∨ a.createdAt = b.createdAt ∧ b.id ≤ a.id := by
  simp [precedes]

/-- What is saved later is listed earlier, also within one millisecond. -/
theorem pairwise_savedBy {first : ℕ} {calls : List Call}
    (hclock : (calls.map Call.now).Pairwise (· ≤ ·)) :
    (savedBy first calls).Pairwise fun a b => precedes b a = true := by
  fun_induction savedBy first calls with
  | case1 first => exact .nil
  | case2 first formula result now reopens rest ih =>
    obtain ⟨hnow, hrest⟩ := List.pairwise_cons.mp hclock
    refine .cons (fun r hr => ?_) (ih hrest)
    obtain ⟨hid, call, hcall, htime⟩ := mem_savedBy hr
    have hle : now ≤ call.now := hnow call.now (List.mem_map_of_mem hcall)
    rw [precedes_iff, htime]
    dsimp only
    omega
  | case3 first limit now reopens rest ih => exact ih (List.pairwise_cons.mp hclock).2

theorem precedes_trans (a b c : Record) (hab : precedes a b = true) (hbc : precedes b c = true) :
    precedes a c = true := by
  rw [precedes_iff] at *
  omega

theorem precedes_total (a b : Record) : (precedes a b || precedes b a) = true := by
  rw [Bool.or_eq_true, precedes_iff, precedes_iff]
  omega

theorem pairwise_mergeSort_precedes (records : List Record) :
    (records.mergeSort precedes).Pairwise fun a b => precedes a b = true :=
  List.pairwise_mergeSort precedes_trans precedes_total records

/-- Records with different ids have one order only. -/
theorem mergeSort_append {older newer : List Record}
    (hdistinct : ((older ++ newer).map Record.id).Nodup)
    (holder : ∀ a ∈ older, ∀ b ∈ newer, precedes b a = true)
    (hnewer : newer.Pairwise fun a b => precedes b a = true) :
    (older ++ newer).mergeSort precedes = newer.reverse ++ older.mergeSort precedes := by
  have hperm : (newer.reverse ++ older.mergeSort precedes).Perm (older ++ newer) :=
    (newer.reverse_perm.append (List.mergeSort_perm older precedes)).trans List.perm_append_comm
  have hmerged := List.mergeSort_perm (older ++ newer) precedes
  refine List.Perm.eq_of_pairwise (fun a b ha hb hab hba => ?_)
    (pairwise_mergeSort_precedes _) ?_ (hmerged.trans hperm.symm)
  · rw [precedes_iff] at hab hba
    exact List.inj_on_of_nodup_map hdistinct (hmerged.mem_iff.mp ha) (hperm.mem_iff.mp hb)
      (by omega)
  · refine List.pairwise_append.mpr
      ⟨List.pairwise_reverse.mpr hnewer, pairwise_mergeSort_precedes older, ?_⟩
    intro b hb a ha
    exact holder a ((List.mergeSort_perm older precedes).mem_iff.mp ha) b (List.mem_reverse.mp hb)

def Reply.saved? : Reply → Option Record
  | saved outcome => outcome.toOption
  | listed _ => none

section

variable {σ : Type} [Store σ]

def after (reopen : σ → σ) (store : σ) : List Call → σ
  | [] => store
  | call :: rest =>
    after reopen (reply call.now (if call.reopens then reopen store else store) call.query).2 rest

/-- The saves among calls give back the given records, and whatever is listed then begins with them,
the last one first, before the older ones. -/
structure ListsNewestFirst (reopen : σ → σ) (store : σ) (calls : List Call)
    (older saved : List Record) : Prop where
  saved_eq : (replies reopen store calls).filterMap Reply.saved? = saved
  listRecent_eq : ∀ limit, Store.listRecent limit (after reopen store calls) =
    .ok ((saved.reverse ++ mostRecent older.length older).take limit)

end

/-- A store in memory holds what it held before, and then what the calls have saved. -/
theorem records_after (memory : MemoryStore) (calls : List Call) :
    (after id memory calls).records =
      memory.records ++ savedBy (nextId memory.records) calls := by
  induction calls generalizing memory with
  | nil => exact (List.append_nil _).symm
  | cons call rest ih =>
    obtain ⟨query, now, reopens⟩ := call
    have hopened : (if reopens then id memory else memory) = memory := ite_self _
    simp only [after, hopened, ih]
    cases query with
    | list limit => rfl
    | save formula result =>
      simp only [reply, Store.save, nextId_append_newRecord, List.append_assoc]
      rfl

theorem saved_replies (memory : MemoryStore) (calls : List Call) :
    (replies id memory calls).filterMap Reply.saved? =
      savedBy (nextId memory.records) calls := by
  induction calls generalizing memory with
  | nil => rfl
  | cons call rest ih =>
    obtain ⟨query, now, reopens⟩ := call
    have hopened : (if reopens then id memory else memory) = memory := ite_self _
    simp only [replies_cons, hopened]
    cases query with
    | list limit => exact ih memory
    | save formula result =>
      refine congrArg (List.cons _) ((ih _).trans ?_)
      simp only [reply, Store.save, nextId_append_newRecord]

/-- Unless a save fails, a file goes on to hold the records of a store in memory. -/
theorem Holds.after {path : String} {file : FileStore} {memory : MemoryStore}
    (h : Holds path file memory) (calls : List Call)
    (hnow : ∀ call ∈ calls, call.now < numberBound)
    (hids : nextId memory.records + calls.countP Call.isSave ≤ numberBound)
    (hsaved : ∀ fault, .saved (.error fault) ∉ replies (FileStore.reopen path) file calls) :
    Holds path (History.after (FileStore.reopen path) file calls)
      (History.after id memory calls) := by
  induction calls generalizing file memory with
  | nil => exact h
  | cons call rest ih =>
    obtain ⟨hnowcall, hnowrest⟩ := List.forall_mem_cons.mp hnow
    obtain ⟨-, hnext, hleft, hlater⟩ := h.call_eq hnowcall hids hsaved
    exact ih hnext hnowrest hleft hlater

/-- A file that is there with nothing to hinder writing, or that can be written, is as good as a
store in memory. -/
theorem mirrors_of_load {path : String} {files : Files} {records : List Record}
    (hfile : (files.bytes? path).isSome = true ∧ files.hindrance? (placeOf path) = none ∨
      files.isWritable path = true)
    (hload : FileStore.load ⟨path, files⟩ = .ok records) :
    Mirrors path ⟨path, files⟩ ⟨records⟩ where
  path_eq := rfl
  load_eq := hload
  isWritable := by
    rcases hfile with ⟨hthere, hfree⟩ | hwritable
    · obtain ⟨content, hbytes⟩ := Option.isSome_iff_exists.mp hthere
      exact Files.isWritable_of_bytes? hbytes hfree
    · exact hwritable

theorem mostRecent_length (records : List Record) :
    mostRecent records.length records = records.mergeSort precedes :=
  List.take_of_length_le (List.length_mergeSort records).le

section

variable {older : List Record} {start : ℕ} {calls : List Call}

/-- New records have ids of their own. -/
theorem nodup_append_savedBy (hdistinct : (older.map Record.id).Nodup) (calls : List Call) :
    ((older ++ savedBy (greatestId older + 1) calls).map Record.id).Nodup := by
  rw [List.map_append, map_id_savedBy]
  refine hdistinct.append (List.nodup_range' ..) ?_
  intro id holder hnewer
  obtain ⟨r, hr, rfl⟩ := List.mem_map.mp holder
  have hlt := lt_nextId hr
  rw [nextId_eq] at hlt
  have hle := (List.mem_range'_1.mp hnewer).1
  omega

/-- Each save takes the id behind the greatest one so far. -/
theorem id_of_savedBy_eq_append {earlier later : List Record} {r : Record}
    (h : savedBy (greatestId older + 1) calls = earlier ++ r :: later) :
    r.id = greatestId (older ++ earlier) + 1 := by
  have hids := map_id_savedBy (greatestId older + 1) calls
  rw [h, List.map_append, List.map_cons] at hids
  obtain ⟨k, -, hearlier, hlater⟩ := List.range'_eq_append_iff.mp hids.symm
  obtain ⟨hid, -⟩ := List.range'_eq_cons_iff.mp hlater.symm
  rw [greatestId_append hearlier]
  omega

/-- Whatever has been saved in the run is listed before everything older. -/
theorem mostRecent_append_savedBy (hdistinct : (older.map Record.id).Nodup)
    (hpast : ∀ r ∈ older, r.createdAt ≤ start) (hclock : NeverGoesBack start calls) (limit : ℕ) :
    let saved := savedBy (greatestId older + 1) calls
    mostRecent limit (older ++ saved) =
      (saved.reverse ++ mostRecent older.length older).take limit := by
  intro saved
  obtain ⟨hstart, htimes⟩ := List.pairwise_cons.mp hclock
  have hbehind : ∀ a ∈ older, ∀ b ∈ saved, precedes b a = true := by
    intro a ha b hb
    have hlt := lt_nextId ha
    rw [nextId_eq] at hlt
    obtain ⟨hid, call, hcall, htime⟩ := mem_savedBy hb
    have hle := hstart call.now (List.mem_map_of_mem hcall)
    have hbefore := hpast a ha
    rw [precedes_iff]
    omega
  rw [mostRecent_length, mostRecent]
  exact congrArg (List.take limit)
    (mergeSort_append (nodup_append_savedBy hdistinct calls) hbehind (pairwise_savedBy htimes))

end

end DeskCalculator.History
