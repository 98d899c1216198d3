import DeskCalculator.Proofs.Storage.Files
import Mathlib.Algebra.Order.BigOperators.Group.List
import Mathlib.Algebra.Order.Ring.Nat

/-!
Where a file can be written, and what a write leaves alone. Where nothing hinders it, whether a
write succeeds depends on the path and on what is there, not on the text, so a file that has been
written can be written again. A file elsewhere keeps its bytes, and its path still leads to it.
-/
namespace DeskCalculator.Storage

def spacedLength (names : List String) : ℕ := (names.map fun name => name.utf8ByteSize + 1).sum

/-- Joined names take no more bytes than names with a mark behind each. -/
theorem utf8ByteSize_intercalate_le (names : List String) :
    ("/".intercalate names).utf8ByteSize ≤ spacedLength names - 1 := by
  induction names with
  | nil => exact Nat.zero_le _
  | cons name rest ih =>
    cases rest with
    | nil =>
      rw [String.intercalate_singleton]
      exact Nat.le_refl _
    | cons next rest =>
      have hcons : spacedLength (name :: next :: rest) =
          name.utf8ByteSize + 1 + spacedLength (next :: rest) := List.sum_cons
      have hnext : spacedLength (next :: rest) =
          next.utf8ByteSize + 1 + spacedLength rest := List.sum_cons
      have hmark : "/".utf8ByteSize = 1 := rfl
      rw [String.intercalate_cons_cons, String.utf8ByteSize_append, String.utf8ByteSize_append,
        hcons, hmark]
      omega

theorem spacedLength_pieces (text : List Char) :
    spacedLength ((Text.pieces '/' text).map String.ofList) =
      (String.ofList text).utf8ByteSize + 1 := by
  fun_induction Text.pieces '/' text with
  | case1 => rfl
  | case2 rest ih =>
    have hcons : spacedLength (([] :: Text.pieces '/' rest).map String.ofList) =
        1 + spacedLength ((Text.pieces '/' rest).map String.ofList) := List.sum_cons
    have hmark : '/'.utf8Size = 1 := rfl
    rw [hcons, ih, String.ofList_cons, String.utf8ByteSize_append, String.utf8ByteSize_singleton,
      hmark, Nat.add_assoc]
  | case3 c rest hc piece others hpieces ih =>
    have hcons : ∀ piece, spacedLength ((piece :: others).map String.ofList) =
        (String.ofList piece).utf8ByteSize + 1 + spacedLength (others.map String.ofList) :=
      fun piece => List.sum_cons
    rw [hpieces, hcons] at ih
    rw [hcons, String.ofList_cons, String.ofList_cons, String.utf8ByteSize_append,
      String.utf8ByteSize_append]
    omega
  | case4 c rest hc hpieces ih =>
    have hlength := Text.length_pieces '/' rest
    rw [hpieces] at hlength
    exact absurd hlength (Nat.succ_ne_zero _).symm

/-- The names of a path and the marks between them make up the path. -/
theorem spacedLength_namesOf (path : String) :
    spacedLength (namesOf path) = path.utf8ByteSize + 1 := by
  have hpieces := spacedLength_pieces path.toList
  rwa [String.ofList_toList] at hpieces

/-- The folders above a path are named with fewer bytes than the path. -/
theorem utf8ByteSize_foldersAbove_le (path : String) :
    ("/".intercalate (foldersAbove path)).utf8ByteSize ≤ path.utf8ByteSize := by
  have hsublist : (foldersAbove path).Sublist (namesOf path) :=
    (List.dropLast_sublist _).trans List.filter_sublist
  have hle : spacedLength (foldersAbove path) ≤ spacedLength (namesOf path) :=
    (hsublist.map _).sum_le_sum fun _ _ => Nat.zero_le _
  have hsize := utf8ByteSize_intercalate_le (foldersAbove path)
  rw [spacedLength_namesOf] at hle
  omega

namespace Files

variable {files later : Files} {place other : Place} {path : String}

/-- Whether any text can be written at a path: the folders above it are there or can be created, no
folder stands in its place, and nothing hinders writing there. -/
def isWritable (files : Files) (path : String) : Bool :=
  match files.createAbove path with
  | (later, created) =>
    created && (later.locate? path).any fun place =>
      !later.isFolder place && (later.hindrance? place).isNone

theorem isWritable_iff : files.isWritable path = true ↔ ∃ later place,
    files.createAbove path = (later, true) ∧ later.locate? path = some place ∧
      later.isFolder place = false ∧ later.hindrance? place = none := by
  unfold isWritable
  obtain ⟨later, created, hcreate⟩ : ∃ later created, files.createAbove path = (later, created) :=
    ⟨_, _, rfl⟩
  rw [hcreate]
  constructor
  · intro h
    obtain ⟨rfl, hany⟩ := (Bool.and_eq_true _ _).mp h
    obtain ⟨place, hlocate, hfree⟩ := (Option.any_eq_true _ _).mp hany
    exact ⟨later, place, rfl, hlocate, by simpa using hfree⟩
  · rintro ⟨after, place, hpair, hlocate, hfolder, hfree⟩
    obtain ⟨rfl, rfl⟩ := Prod.mk.inj hpair
    simp [hlocate, hfolder, hfree]

/-- Where a file can be written, any text can. -/
theorem writeText_of_isWritable (h : files.isWritable path = true) (text : String) :
    ∃ later place, files.createAbove path = (later, true) ∧ later.locate? path = some place ∧
      later.isFolder place = false ∧ later.hindrance? place = none ∧
      files.writeText path text = (later.put place (.file text.toUTF8), true) := by
  obtain ⟨later, place, hcreate, hlocate, hfolder, hfree⟩ := isWritable_iff.mp h
  refine ⟨later, place, hcreate, hlocate, hfolder, hfree, ?_⟩
  unfold writeText
  simp [hcreate, hlocate, hfolder, fill, hfree]

/-- A file that has been written can be written again. -/
theorem isWritable_writeText (h : files.isWritable path = true) (text : String) :
    (files.writeText path text).1.isWritable path = true := by
  obtain ⟨later, place, hcreate, hlocate, hfolder, hfree, hwrite⟩ := writeText_of_isWritable h text
  have hlength : ("/".intercalate (foldersAbove path)).utf8ByteSize ≤ pathLimit := by
    simp only [createAbove] at hcreate
    split_ifs at hcreate with hlength
    · exact hlength
    · exact absurd (Prod.mk.inj hcreate).2 Bool.false_ne_true
  -- The folders are there now, so creating them again finds them and stops at the same place.
  have hagain := locate?_put_file hlocate hfolder text.toUTF8
  rw [hwrite]
  refine isWritable_iff.mpr ⟨_, place, ?_, hagain, isFolder_put_file hfolder _, hfree⟩
  simp only [createAbove, if_pos hlength, createFolders_of_locate? hagain]

/-- A file that is there can be written, unless something hinders it. -/
theorem isWritable_of_bytes? {content : ByteArray} (h : files.bytes? path = some content)
    (hfree : files.hindrance? (placeOf path) = none) : files.isWritable path = true := by
  obtain ⟨place, hlocate, hfolder, -⟩ := bytes?_eq_some_iff.mp h
  have husable : isUsablePath path = true := by
    unfold locate? at hlocate
    split_ifs at hlocate with husable
    exact husable
  have hlength : path.utf8ByteSize ≤ pathLimit := by
    simp only [isUsablePath, Bool.and_eq_true, decide_eq_true_eq] at husable
    exact husable.1.2
  rw [placeOf_of_locate? hlocate] at hfree
  refine isWritable_iff.mpr ⟨files, place, ?_, hlocate, hfolder, hfree⟩
  simp only [createAbove, if_pos ((utf8ByteSize_foldersAbove_le path).trans hlength),
    createFolders_of_locate? hlocate]

/-- A file that a path leads to is not changed by a write elsewhere, and the path still leads to
it. -/
theorem bytes?_writeText {apart : String} {content : ByteArray} (h : placeOf apart ≠ placeOf path)
    (hbytes : files.bytes? apart = some content) (text : String) :
    (files.writeText path text).1.bytes? apart = some content := by
  have hgrown := (createAbove_grows files path).bytes? hbytes
  rcases writeText_cases files path text with
    hwrite | ⟨place, content, written, hlocate, hfolder, -, hwrite⟩
  · rw [hwrite]
    exact hgrown
  · obtain ⟨found, hfound, hfile, hget⟩ := bytes?_eq_some_iff.mp hgrown
    have hne : found ≠ place := by
      rw [← placeOf_of_locate? hfound, ← placeOf_of_locate? hlocate]
      exact h
    rw [hwrite]
    refine bytes?_eq_some_iff.mpr ⟨found, locate?_put_file hfound hfolder _, ?_, ?_⟩
    · rw [isFolder_put_of_ne _ hne, hfile]
    · rw [get?_put_of_ne _ hne, hget]

end Files

end DeskCalculator.Storage
