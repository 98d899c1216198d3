import DeskCalculator.Proofs.History.Listing
import Mathlib.Data.Prod.Lex

/-!
The records that a listing takes from a store. Records are ranked by the time of saving and then by
the id, and any of these may be repeated. A listing is the top of the ranking: as many records as it
may show, none of them behind one that is left out, and those of one rank in the order in which they
are stored. A shorter listing is the beginning of a longer one, and no listing changes what is
stored.
-/
namespace DeskCalculator.History

open Storage

def Record.rank (r : Record) : ℕ ×ₗ ℕ := toLex (r.createdAt, r.id)

theorem precedes_iff_rank_le {a b : Record} : precedes a b = true ↔ b.rank ≤ a.rank := by
  rw [precedes_iff, Record.rank, Record.rank, Prod.Lex.toLex_le_toLex]
  dsimp only
  omega

/-- Whether records of a store are a listing of up to `limit` of them. -/
structure IsTop (limit : ℕ) (records listed : List Record) : Prop where
  length_eq : listed.length = min limit records.length
  descending : listed.Pairwise fun a b => b.rank ≤ a.rank
  /-- Of the records of one rank, the first ones are listed, in stored order. -/
  stored_order : ∀ rank,
    listed.filter (fun r => r.rank = rank) <+: records.filter fun r => r.rank = rank
  exists_rest : ∃ rest, (listed ++ rest).Perm records ∧
    ∀ r ∈ listed, ∀ left ∈ rest, ¬r.rank < left.rank

section

variable (records : List Record)

/-- Sorting moves no record across another one of its rank. -/
theorem filter_rank_mergeSort (rank : ℕ ×ₗ ℕ) :
    (records.mergeSort precedes).filter (fun r => r.rank = rank) =
      records.filter fun r => r.rank = rank := by
  have hequal : (records.filter fun r => r.rank = rank).Pairwise
      fun a b => precedes a b = true := by
    apply List.pairwise_of_forall_mem_list
    intro a ha b hb
    have harank : a.rank = rank := by simpa using (List.mem_filter.mp ha).2
    have hbrank : b.rank = rank := by simpa using (List.mem_filter.mp hb).2
    rw [precedes_iff_rank_le, harank, hbrank]
  have hsub : (records.filter fun r => r.rank = rank).Sublist (records.mergeSort precedes) :=
    List.sublist_mergeSort precedes_trans precedes_total hequal List.filter_sublist
  have hkept := hsub.filter fun r => r.rank = rank
  rw [List.filter_filter] at hkept
  simp only [Bool.and_self] at hkept
  have hlength := ((List.mergeSort_perm records precedes).filter fun r => r.rank = rank).length_eq
  exact (hkept.eq_of_length hlength.symm).symm

/-- A listing is the top of the ranking. -/
theorem isTop_mostRecent (limit : ℕ) : IsTop limit records (mostRecent limit records) := by
  have hperm := List.mergeSort_perm records precedes
  have hsorted : (records.mergeSort precedes).Pairwise fun a b => b.rank ≤ a.rank :=
    (pairwise_mergeSort_precedes records).imp precedes_iff_rank_le.mp
  have hsplit := List.take_append_drop limit (records.mergeSort precedes)
  rw [← hsplit] at hsorted
  obtain ⟨hfront, -, hacross⟩ := List.pairwise_append.mp hsorted
  refine ⟨?_, hfront, ?_, (records.mergeSort precedes).drop limit, ?_, ?_⟩
  · rw [mostRecent, List.length_take, hperm.length_eq]
  · intro rank
    have hprefix := (List.take_prefix limit (records.mergeSort precedes)).filter
      fun r => r.rank = rank
    rwa [filter_rank_mergeSort] at hprefix
  · rw [mostRecent, hsplit]
    exact hperm
  · intro r hr left hleft
    exact (hacross r hr left hleft).not_gt

/-- A higher limit only shows more. -/
theorem mostRecent_prefix_of_le {short long : ℕ} (h : short ≤ long) :
    mostRecent short records <+: mostRecent long records :=
  List.take_prefix_take_left h

end

section

variable {σ : Type} [Store σ]

/-- Listings can be left out of any calls without a trace in the store. -/
theorem after_filter_isSave (store : σ) (calls : List Call) :
    after id store (calls.filter Call.isSave) = after id store calls := by
  induction calls generalizing store with
  | nil => rfl
  | cons call rest ih =>
    obtain ⟨query, now, reopens⟩ := call
    cases query with
    | save formula result =>
      rw [List.filter_cons_of_pos rfl]
      exact ih _
    | list limit =>
      have hlist : ¬Call.isSave ⟨.list limit, now, reopens⟩ = true := Bool.false_ne_true
      have hopened : (if reopens then id store else store) = store := ite_self _
      rw [List.filter_cons_of_neg hlist, after, hopened]
      exact ih store

structure ListsTop (store : σ) (records : List Record) (lower higher : ℕ) : Prop where
  exists_listed : ∃ shorter longer, Store.listRecent lower store = .ok shorter ∧
    Store.listRecent higher store = .ok longer ∧ IsTop lower records shorter ∧
    IsTop higher records longer ∧ shorter <+: longer
  unchanged : ∀ calls, after id store (calls.filter Call.isSave) = after id store calls

theorem listsTop_of_listRecent {store : σ} {records : List Record}
    (hlist : ∀ limit, Store.listRecent limit store = .ok (mostRecent limit records))
    {lower higher : ℕ} (h : lower ≤ higher) : ListsTop store records lower higher where
  exists_listed := ⟨_, _, hlist lower, hlist higher, isTop_mostRecent records lower,
    isTop_mostRecent records higher, mostRecent_prefix_of_le records h⟩
  unchanged := after_filter_isSave store

end

/-- Whatever records are stored, in memory or in a file, a listing is the top of them by time and
id, a listing with a lower limit is the beginning of it, and no listing changes the store. -/
theorem lists_top (records : List Record) {lower higher : ℕ} (h : lower ≤ higher) :
    ListsTop (⟨records⟩ : MemoryStore) records lower higher ∧
      ∀ store : FileStore, store.load = .ok records → ListsTop store records lower higher := by
  refine ⟨listsTop_of_listRecent (fun _ => rfl) h, ?_⟩
  intro store hload
  refine listsTop_of_listRecent (fun limit => ?_) h
  exact congrArg (Except.map (mostRecent limit)) hload

/-- A file with a record of another time and id between two that agree in both. -/
theorem lists_top_of_repeated :
    let records : List Record :=
      [⟨4, "2+2", "4", 5⟩, ⟨1, "8/2", "4", 9⟩, ⟨4, "6*7", "42", 5⟩, ⟨3, "1-1", "0", 5⟩]
    1 ≤ 2 ∧ ∃ files, FileStore.load ⟨"history.json", files⟩ = .ok records ∧
      ListsTop (⟨"history.json", files⟩ : FileStore) records 1 2 ∧
      IsTop 2 records [⟨1, "8/2", "4", 9⟩, ⟨4, "2+2", "4", 5⟩] := by
  intro records
  let place := Place.here.child "history.json"
  let files : Files := Files.put {} place (.file (encode records).toUTF8)
  have hfits : ∀ r ∈ records, r.Fits := by unfold Record.Fits; decide
  have hbytes : files.bytes? "history.json" = some (encode records).toUTF8 :=
    Files.bytes?_eq_some_iff.mpr
      ⟨place, by decide, Files.isFolder_put_file rfl _, Files.get?_put_self ..⟩
  have hload : FileStore.load ⟨"history.json", files⟩ = .ok records :=
    FileStore.load_of_bytes? hfits hbytes
  have hle : 1 ≤ 2 := by decide
  obtain ⟨-, hfile⟩ := lists_top records hle
  have hlists : ListsTop (⟨"history.json", files⟩ : FileStore) records 1 2 := hfile _ hload
  refine ⟨hle, files, hload, hlists, ?_⟩
  obtain ⟨shorter, longer, -, hlonger, -, htop, -⟩ := hlists.exists_listed
  have hlisted : Store.listRecent 2 (⟨"history.json", files⟩ : FileStore) =
      .ok [⟨1, "8/2", "4", 9⟩, ⟨4, "2+2", "4", 5⟩] := by
    refine (congrArg (Except.map (mostRecent 2)) hload).trans (congrArg Except.ok ?_)
    simp [records, mostRecent, precedes, List.mergeSort]
  obtain rfl := Except.ok.inj (hlisted.symm.trans hlonger)
  exact htop

end DeskCalculator.History
