import DeskCalculator.History.Store
import DeskCalculator.Proofs.History.Codec
import DeskCalculator.Proofs.Storage.Writing

/-!
Saving into a file. Each save reads the whole history and writes it anew, so no record may be lost
on the way: what could not be read is not written over, and what is written is read as what it was.
Only a write that runs out of room loses records, since the file is emptied before it is filled.
-/
namespace DeskCalculator.History

open Storage

/-- A running maximum is an upper bound, and is the start or one of the elements. -/
theorem foldl_max_spec (ids : List ℕ) (start : ℕ) :
    start ≤ ids.foldl max start ∧ (∀ id ∈ ids, id ≤ ids.foldl max start) ∧
      (ids.foldl max start = start ∨ ids.foldl max start ∈ ids) := by
  induction ids generalizing start with
  | nil => exact ⟨Nat.le_refl _, by simp, .inl rfl⟩
  | cons id ids ih =>
    obtain ⟨hstart, hids, hmem⟩ := ih (max start id)
    rw [List.foldl_cons]
    refine ⟨by omega, List.forall_mem_cons.mpr ⟨by omega, hids⟩, ?_⟩
    rcases hmem with heq | hmem
    · rcases Nat.le_total start id with hle | hle
      · exact .inr (List.mem_cons.mpr (.inl (by omega)))
      · exact .inl (by omega)
    · exact .inr (List.mem_cons_of_mem id hmem)

/-- The id of the next record is greater than all others. -/
theorem lt_nextId {records : List Record} {r : Record} (h : r ∈ records) :
    r.id < nextId records := by
  have hle := (foldl_max_spec (records.map Record.id) 0).2.1 r.id (List.mem_map_of_mem h)
  unfold nextId
  omega

theorem nextId_lt {records : List Record} (h : ∀ r ∈ records, r.id + 1 < numberBound) :
    nextId records < numberBound := by
  unfold nextId
  rcases (foldl_max_spec (records.map Record.id) 0).2.2 with hzero | hmem
  · rw [hzero]
    decide
  · obtain ⟨r, hr, hid⟩ := List.mem_map.mp hmem
    rw [← hid]
    exact h r hr

/-- A file that is written is not blank, even without records. -/
theorem not_isEmpty_encode (records : List Record) : Text.isEmpty (encode records) = false := by
  cases records with
  | nil => rfl
  | cons first rest =>
    have htext : (encode (first :: rest)).toList =
        '[' :: ("\n".toList ++ recordText first ++ furtherText rest ++ "\n]".toList) :=
      String.toList_ofList
    unfold Text.isEmpty
    rw [htext]
    rfl

namespace FileStore

variable {store : FileStore} {records : List Record}

/-- The numbers of the records in a file fit. -/
theorem fits_of_load (h : store.load = .ok records) : ∀ r ∈ records, r.Fits := by
  have hnil : (Except.ok [] : Except StoreFault (List Record)) = .ok records →
      ∀ r ∈ records, r.Fits := by
    intro heq
    obtain rfl := Except.ok.inj heq
    simp
  unfold load at h
  split_ifs at h with hmissing
  · exact hnil h
  · split at h
    · exact nomatch h
    · split_ifs at h with hempty
      · exact hnil h
      · split at h
        · next decoded hdecode =>
          obtain rfl := Except.ok.inj h
          exact fits_of_decode? hdecode
        · exact nomatch h

/-- A file that holds the text of records is read as these records. -/
theorem load_of_bytes? (hfits : ∀ r ∈ records, r.Fits)
    (h : store.files.bytes? store.path = some (encode records).toUTF8) :
    store.load = .ok records := by
  have hexists := Files.exists?_of_bytes? h
  have htext := Files.readText?_of_bytes? h
  rw [Files.fromUTF8?_toUTF8] at htext
  unfold load
  simp only [hexists, htext, not_isEmpty_encode, decode?_encode hfits]
  rfl

/-- A save loads the records and writes them with one more. -/
theorem save_cases (now : ℕ) (formula result : String) (store : FileStore) :
    (∃ fault, store.load = .error fault ∧ save now formula result store = (.error fault, store)) ∨
    ∃ records files written, store.load = .ok records ∧
      store.files.writeText store.path
        (encode (records ++ [newRecord now formula result records])) = (files, written) ∧
      save now formula result store =
        (if written then .ok (newRecord now formula result records)
          else .error (.inaccessible store.path), { store with files }) := by
  unfold save
  cases hload : store.load with
  | error fault => exact .inl ⟨fault, rfl, rfl⟩
  | ok records =>
    obtain ⟨files, written, hwrite⟩ : ∃ files written, store.files.writeText store.path
        (encode (records ++ [newRecord now formula result records])) = (files, written) :=
      ⟨_, _, rfl⟩
    refine .inr ⟨records, files, written, rfl, hwrite, ?_⟩
    simp only [hwrite]
    cases written <;> rfl

/-- A save succeeds if its text has been written. -/
theorem save_of_written {now : ℕ} {formula result : String} (hload : store.load = .ok records)
    (hwritten : (store.files.writeText store.path
      (encode (records ++ [newRecord now formula result records]))).2 = true) :
    ∃ after, save now formula result store =
      (.ok (newRecord now formula result records), after) := by
  rcases save_cases now formula result store with
    ⟨fault, herror, -⟩ | ⟨found, files, written, hfound, hwrite, hsave⟩
  · exact nomatch hload.symm.trans herror
  · obtain rfl := Except.ok.inj (hload.symm.trans hfound)
    rw [hwrite] at hwritten
    obtain rfl : written = true := hwritten
    exact ⟨_, hsave⟩

/-- A file with the new text is read as the old records and the new one. -/
theorem load_of_saved {now : ℕ} {formula result : String} {after : FileStore}
    (hload : store.load = .ok records) (hpath : after.path = store.path) (hnow : now < numberBound)
    (hid : nextId records < numberBound)
    (hbytes : after.files.bytes? store.path =
      some (encode (records ++ [newRecord now formula result records])).toUTF8) :
    after.load = .ok (records ++ [newRecord now formula result records]) := by
  have hfits : ∀ r ∈ records ++ [newRecord now formula result records], r.Fits := by
    rw [List.forall_mem_append]
    exact ⟨fits_of_load hload, List.forall_mem_singleton.mpr ⟨hid, hnow⟩⟩
  exact load_of_bytes? hfits (hpath ▸ hbytes)

def holding (hindrances : List (Place × Hindrance)) (first : Record) : FileStore :=
  ⟨"history.json", Files.put ⟨[], hindrances⟩ (Place.here.child "history.json")
    (.file (encode [first]).toUTF8)⟩

theorem load_holding (hindrances : List (Place × Hindrance)) {first : Record} (h : first.Fits) :
    (holding hindrances first).load = .ok [first] := by
  have hlocate : Files.locate? ⟨[], hindrances⟩ "history.json" =
      some (Place.here.child "history.json") := rfl
  exact load_of_bytes? (List.forall_mem_singleton.mpr h) (Files.bytes?_put_file hlocate rfl _)

end FileStore

end DeskCalculator.History
