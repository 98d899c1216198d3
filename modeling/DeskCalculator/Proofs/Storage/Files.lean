import DeskCalculator.Storage.Files
import Mathlib.Data.Nat.Notation
import Mathlib.Tactic.SplitIfs

/-!
What writing does to the files. On the way to a file folders are created, which adds folders where
there was nothing and changes nothing else. A write that fails there, or cannot open its file,
therefore leaves every file as it was, and the place of its path too, unless the path goes back
through `..`. A write that runs out of room leaves the front of its text where the path leads, and
one that succeeds all of it.
-/
namespace DeskCalculator.Storage

/-- The place that names lead to, whether or not there is anything on the way. -/
def placeOf (path : String) : Place := (namesOf path).foldl Place.step (startOf path)

def isMove (name : String) : Bool := name != "" && name != "."

theorem foldersAbove_eq (path : String) :
    foldersAbove path = ((namesOf path).filter isMove).dropLast := rfl

namespace Place

theorem step_of_not_isMove {name : String} (h : isMove name = false) (place : Place) :
    place.step name = place := by
  have hname : name = "" ∨ name = "." := by
    simpa [isMove, Classical.or_iff_not_imp_left] using h
  exact if_pos hname

theorem depth_step {name : String} (hmove : isMove name = true) (hback : name ≠ "..")
    (place : Place) : (place.step name).depth = place.depth + 1 := by
  have hname : ¬ (name = "" ∨ name = ".") := by
    simpa [isMove] using hmove
  unfold step
  rw [if_neg hname, if_neg hback]
  rfl

theorem depth_step_le {name : String} (hback : name ≠ "..") (place : Place) :
    (place.step name).depth ≤ place.depth + 1 := by
  cases hmove : isMove name with
  | false =>
    rw [step_of_not_isMove hmove]
    omega
  | true => exact Nat.le_of_eq (depth_step hmove hback place)

theorem depth_foldl_step {names : List String} (hback : ".." ∉ names) (place : Place) :
    (names.foldl step place).depth = place.depth + (names.filter isMove).length := by
  induction names generalizing place with
  | nil => rfl
  | cons name names ih =>
    have hrest : ".." ∉ names := fun h => hback (List.mem_cons_of_mem name h)
    have hname : name ≠ ".." := fun h => hback (h ▸ List.mem_cons_self ..)
    rw [List.foldl_cons, ih hrest]
    cases hmove : isMove name with
    | false => rw [step_of_not_isMove hmove, List.filter_cons_of_neg (by simp [hmove])]
    | true =>
      rw [depth_step hmove hname, List.filter_cons_of_pos hmove, List.length_cons]
      omega

end Place

namespace Files

variable {files later : Files} {place other : Place}

def bytes? (files : Files) (path : String) : Option ByteArray :=
  match files.locate? path with
  | none => none
  | some place =>
    match files.isFolder place, files.get? place with
    | false, some (.file content) => some content
    | _, _ => none

def fileAt? (files : Files) (place : Place) : Option ByteArray :=
  match files.get? place with
  | some (.file content) => some content
  | _ => none

/-- The later files have folders where there was nothing, and are the same elsewhere. -/
def Grows (files later : Files) : Prop :=
  ∀ place, later.get? place = files.get? place ∨
    (files.get? place = none ∧ later.get? place = some .folder)

@[simp] theorem get?_put_self (files : Files) (place : Place) (entry : Entry) :
    (files.put place entry).get? place = some entry := by
  simp [get?, put]

theorem get?_put_of_ne (files : Files) (h : other ≠ place) (entry : Entry) :
    (files.put place entry).get? other = files.get? other := by
  have hne : ¬ place = other := fun heq => h heq.symm
  unfold get? put
  rw [List.find?_cons_of_neg (by simpa using hne), List.find?_filter]
  congr 2
  funext entry
  by_cases heq : entry.1 = other
  · simp [heq, h]
  · simp [heq]

@[simp] theorem hindrance?_put (files : Files) (place other : Place) (entry : Entry) :
    (files.put place entry).hindrance? other = files.hindrance? other := rfl

theorem fileAt?_put_of_ne (files : Files) (h : other ≠ place) (entry : Entry) :
    (files.put place entry).fileAt? other = files.fileAt? other := by
  unfold fileAt?
  rw [get?_put_of_ne files h]

theorem fileAt?_eq_some_iff {content : ByteArray} :
    files.fileAt? place = some content ↔ files.get? place = some (.file content) := by
  unfold fileAt?
  cases files.get? place with
  | none => simp
  | some entry => cases entry <;> simp

theorem isFolder_iff : files.isFolder place = true ↔
    place.isAbove = true ∨ place = .root ∨ files.get? place = some .folder := by
  unfold isFolder
  simp [or_assoc]

theorem isFolder_put_of_ne (files : Files) (h : other ≠ place) (entry : Entry) :
    (files.put place entry).isFolder other = files.isFolder other := by
  unfold isFolder
  rw [get?_put_of_ne files h]

theorem isFolder_put_file (h : files.isFolder place = false) (content : ByteArray) :
    (files.put place (.file content)).isFolder place = false := by
  rw [← Bool.not_eq_true, isFolder_iff] at h ⊢
  intro hput
  rcases hput with habove | hroot | hfolder
  · exact h (.inl habove)
  · exact h (.inr (.inl hroot))
  · rw [get?_put_self] at hfolder
    exact nomatch hfolder

namespace Grows

theorem refl (files : Files) : Grows files files := fun _ => .inl rfl

theorem trans {last : Files} (h : Grows files later) (h' : Grows later last) :
    Grows files last := by
  intro place
  rcases h place with hsame | ⟨hnone, hfolder⟩
  · rw [← hsame]
    exact h' place
  · rcases h' place with hsame | ⟨hnone', -⟩
    · exact .inr ⟨hnone, hsame.trans hfolder⟩
    · rw [hfolder] at hnone'
      exact nomatch hnone'

theorem put_folder (h : files.get? place = none) : Grows files (files.put place .folder) := by
  intro other
  by_cases heq : other = place
  · rw [heq]
    exact .inr ⟨h, get?_put_self files place .folder⟩
  · exact .inl (get?_put_of_ne files heq .folder)

theorem isFolder (h : Grows files later) (hfolder : files.isFolder place = true) :
    later.isFolder place = true := by
  rw [isFolder_iff] at hfolder ⊢
  refine hfolder.imp_right (Or.imp_right fun hget => ?_)
  rcases h place with hsame | ⟨hnone, -⟩
  · rw [hsame, hget]
  · rw [hget] at hnone
    exact nomatch hnone

theorem fileAt? (h : Grows files later) (place : Place) :
    later.fileAt? place = files.fileAt? place := by
  unfold Files.fileAt?
  rcases h place with hsame | ⟨hnone, hfolder⟩
  · rw [hsame]
  · rw [hnone, hfolder]

theorem follow (h : Grows files later) {names : List String}
    (hfollow : files.follow place names = some other) : later.follow place names = some other := by
  induction names generalizing place with
  | nil => exact hfollow
  | cons name names ih =>
    rw [Files.follow] at hfollow ⊢
    split_ifs at hfollow with hfolder
    rw [if_pos (h.isFolder hfolder)]
    exact ih hfollow

theorem locate? (h : Grows files later) {path : String}
    (hlocate : files.locate? path = some place) : later.locate? path = some place := by
  unfold Files.locate? at hlocate ⊢
  split_ifs at hlocate with husable
  rw [if_pos husable]
  exact h.follow hlocate

end Grows

/-- A file has bytes at the place to which its path leads. -/
theorem bytes?_eq_some_iff {path : String} {content : ByteArray} :
    files.bytes? path = some content ↔ ∃ place, files.locate? path = some place ∧
      files.isFolder place = false ∧ files.get? place = some (.file content) := by
  unfold bytes?
  cases hlocate : files.locate? path with
  | none => simp
  | some place =>
    cases hfolder : files.isFolder place with
    | true => simp [hfolder]
    | false =>
      cases hget : files.get? place with
      | none => simp [hfolder, hget]
      | some entry => cases entry <;> simp [hfolder, hget]

/-- A file is still there, with the same bytes, when folders have been added. -/
theorem Grows.bytes? (h : Grows files later) {path : String} {content : ByteArray}
    (hbytes : files.bytes? path = some content) : later.bytes? path = some content := by
  obtain ⟨place, hlocate, hfolder, hget⟩ := bytes?_eq_some_iff.mp hbytes
  have hsame : later.get? place = files.get? place := by
    rcases h place with hsame | ⟨hnone, -⟩
    · exact hsame
    · rw [hget] at hnone
      exact nomatch hnone
  refine bytes?_eq_some_iff.mpr ⟨place, h.locate? hlocate, ?_, hsame.trans hget⟩
  unfold Files.isFolder at hfolder ⊢
  rwa [hsame]

theorem follow_eq_foldl {names : List String} (h : files.follow place names = some other) :
    names.foldl Place.step place = other := by
  induction names generalizing place with
  | nil => exact Option.some.inj h
  | cons name names ih =>
    rw [follow] at h
    split_ifs at h
    exact ih h

theorem placeOf_of_locate? {path : String} (h : files.locate? path = some place) :
    placeOf path = place := by
  unfold locate? at h
  split_ifs at h
  exact follow_eq_foldl h

/-- Names that stay in the same folder need not be followed. -/
theorem follow_filter {names : List String} (h : files.follow place names = some other) :
    files.follow place (names.filter isMove) = some other := by
  induction names generalizing place with
  | nil => exact h
  | cons name names ih =>
    rw [follow] at h
    split_ifs at h with hfolder
    cases hmove : isMove name with
    | false =>
      rw [Place.step_of_not_isMove hmove] at h
      rw [List.filter_cons_of_neg (by simp [hmove])]
      exact ih h
    | true =>
      rw [List.filter_cons_of_pos hmove, follow, if_pos hfolder]
      exact ih h

/-- Creating folders goes on behind the first name, where a folder is or has just been created, or
it ends there. -/
theorem createFolders_cons (files : Files) (place : Place) (name : String) (names : List String) :
    (∃ later, files.createFolders place (name :: names) =
        later.createFolders (place.step name) names ∧
      (later = files ∨ files.get? (place.step name) = none ∧
        later = files.put (place.step name) .folder)) ∨
    (files.createFolders place (name :: names) = (files, false) ∧
      files.isFolder (place.step name) = false) := by
  simp only [createFolders]
  split_ifs with hfolder hstop
  · exact .inl ⟨files, rfl, .inl rfl⟩
  · exact .inr ⟨rfl, by simpa using hfolder⟩
  · have hfree : files.get? (place.step name) = none := by
      rw [Bool.or_eq_true, not_or, Bool.not_eq_true, Option.isSome_eq_false_iff,
        Option.isNone_iff_eq_none] at hstop
      exact hstop.1
    exact .inl ⟨_, rfl, .inr ⟨hfree, rfl⟩⟩

/-- Creating folders only adds folders. -/
theorem createFolders_grows (files : Files) (place : Place) (names : List String) :
    Grows files (files.createFolders place names).1 := by
  induction names generalizing files place with
  | nil => exact .refl files
  | cons name names ih =>
    rcases createFolders_cons files place name names with
      ⟨later, hcreate, rfl | ⟨hfree, rfl⟩⟩ | ⟨hcreate, -⟩
    · rw [hcreate]
      exact ih later _
    · rw [hcreate]
      exact (Grows.put_folder hfree).trans (ih _ _)
    · rw [hcreate]
      exact .refl files

@[simp] theorem hindrance?_createFolders (files : Files) (place : Place) (names : List String)
    (other : Place) :
    (files.createFolders place names).1.hindrance? other = files.hindrance? other := by
  induction names generalizing files place with
  | nil => rfl
  | cons name names ih =>
    rcases createFolders_cons files place name names with
      ⟨later, hcreate, rfl | ⟨-, rfl⟩⟩ | ⟨hcreate, -⟩
    · rw [hcreate, ih]
    · rw [hcreate, ih, hindrance?_put]
    · rw [hcreate]

/-- Folders are created no deeper than there are names. -/
theorem get?_createFolders {names : List String} (hback : ".." ∉ names)
    (h : place.depth + names.length < other.depth) :
    (files.createFolders place names).1.get? other = files.get? other := by
  induction names generalizing files place with
  | nil => rfl
  | cons name names ih =>
    have hrest : ".." ∉ names := fun h => hback (List.mem_cons_of_mem name h)
    have hname : name ≠ ".." := fun h => hback (h ▸ List.mem_cons_self ..)
    have hdepth := Place.depth_step_le hname place
    rw [List.length_cons] at h
    rcases createFolders_cons files place name names with
      ⟨later, hcreate, hlater⟩ | ⟨hcreate, -⟩
    · rw [hcreate, ih hrest (by omega)]
      rcases hlater with rfl | ⟨-, rfl⟩
      · rfl
      · refine get?_put_of_ne files ?_ .folder
        intro heq
        rw [heq] at h
        omega
    · rw [hcreate]

theorem createAbove_grows (files : Files) (path : String) :
    Grows files (files.createAbove path).1 := by
  simp only [createAbove]
  split
  · exact createFolders_grows files _ _
  · exact .refl files

@[simp] theorem hindrance?_createAbove (files : Files) (path : String) (place : Place) :
    (files.createAbove path).1.hindrance? place = files.hindrance? place := by
  simp only [createAbove]
  split
  · exact hindrance?_createFolders files _ _ place
  · rfl

theorem createFolders_of_follow {names : List String} {last : String}
    (h : files.follow place (names ++ [last]) = some other) :
    files.createFolders place names = (files, true) := by
  induction names generalizing place with
  | nil => rfl
  | cons name names ih =>
    rw [List.cons_append, follow] at h
    split_ifs at h
    have hfolder : files.isFolder (place.step name) = true := by
      cases hrest : names ++ [last] with
      | nil => exact absurd hrest (by simp)
      | cons next rest =>
        rw [hrest, follow] at h
        split_ifs at h with hfolder
        exact hfolder
    simp only [createFolders, if_pos hfolder]
    exact ih h

/-- All folders above a path that leads somewhere are there. -/
theorem createFolders_of_locate? {path : String} (h : files.locate? path = some place) :
    files.createFolders (startOf path) (foldersAbove path) = (files, true) := by
  unfold locate? at h
  split_ifs at h
  have hfollow := follow_filter h
  rw [foldersAbove_eq]
  by_cases hnil : (namesOf path).filter isMove = []
  · rw [hnil]
    rfl
  · rw [← List.dropLast_concat_getLast hnil] at hfollow
    exact createFolders_of_follow hfollow

/-- Nothing has to be created above a path that leads somewhere. -/
theorem createAbove_of_locate? {path : String} (h : files.locate? path = some place) :
    (files.createAbove path).1 = files := by
  simp only [createAbove]
  split_ifs
  · rw [createFolders_of_locate? h]
  · rfl

/-- Nothing is created in place of the file itself. -/
theorem get?_createAbove {path : String} (hback : ".." ∉ namesOf path) :
    (files.createAbove path).1.get? (placeOf path) = files.get? (placeOf path) := by
  simp only [createAbove]
  split_ifs
  · rw [foldersAbove_eq]
    have hbackabove : ".." ∉ ((namesOf path).filter isMove).dropLast :=
      fun h => hback (List.mem_filter.mp (List.dropLast_subset _ h)).1
    have hdepth : (placeOf path).depth = _ := Place.depth_foldl_step hback (startOf path)
    by_cases hnil : (namesOf path).filter isMove = []
    · rw [hnil]
      rfl
    · have hpos := List.length_pos_iff.mpr hnil
      refine get?_createFolders hbackabove ?_
      rw [List.length_dropLast]
      omega
  · rfl

/-- What of a text a file holds that has been filled with it, and whether this is all. -/
inductive Fills (hindrance? : Option Hindrance) (text : String) : ByteArray → Bool → Prop
  | whole : Fills hindrance? text text.toUTF8 true
  | front {room : ℕ} (hfull : hindrance? = some (.full room)) (hroom : room < text.utf8ByteSize) :
      Fills hindrance? text (text.toUTF8.extract 0 room) false

/-- A file cannot be opened, or it is filled as far as there is room. -/
theorem fill_cases (files : Files) (place : Place) (text : String) :
    files.fill place text = (files, false) ∨
    ∃ content written, Fills (files.hindrance? place) text content written ∧
      files.fill place text = (files.put place (.file content), written) := by
  unfold fill
  cases hhindrance : files.hindrance? place with
  | none => exact .inr ⟨_, true, .whole, rfl⟩
  | some hindrance =>
    cases hindrance with
    | sealed => exact .inl rfl
    | full room =>
      by_cases hroom : text.utf8ByteSize ≤ room
      · exact .inr ⟨_, true, .whole, if_pos hroom⟩
      · exact .inr ⟨_, false, .front rfl (Nat.lt_of_not_le hroom), if_neg hroom⟩

/-- A write goes through a step that creates folders. It ends there, or it fills the file at the
place of the path. -/
theorem writeText_cases (files : Files) (path text : String) :
    files.writeText path text = ((files.createAbove path).1, false) ∨
    ∃ place content written, (files.createAbove path).1.locate? path = some place ∧
      (files.createAbove path).1.isFolder place = false ∧
      Fills (files.hindrance? place) text content written ∧
      files.writeText path text = ((files.createAbove path).1.put place (.file content), written) := by
  have hkept := hindrance?_createAbove files path
  obtain ⟨later, created, hcreate⟩ : ∃ later created, files.createAbove path = (later, created) :=
    ⟨_, _, rfl⟩
  unfold writeText
  rw [hcreate] at hkept ⊢
  cases created with
  | false => exact .inl rfl
  | true =>
    cases hlocate : later.locate? path with
    | none => exact .inl (by simp only [hlocate])
    | some place =>
      cases hfolder : later.isFolder place with
      | true => exact .inl (by simp [hlocate, hfolder])
      | false =>
        rcases fill_cases later place text with hfill | ⟨content, written, hfills, hfill⟩
        · exact .inl (by simp [hlocate, hfolder, hfill])
        · rw [hkept place] at hfills
          exact .inr ⟨place, content, written, rfl, hfolder, hfills,
            by simp [hlocate, hfolder, hfill]⟩

theorem follow_put_file {names : List String} {last : Place}
    (h : files.follow place names = some last) (hother : files.isFolder other = false)
    (content : ByteArray) :
    (files.put other (.file content)).follow place names = some last := by
  induction names generalizing place with
  | nil => exact h
  | cons name names ih =>
    rw [follow] at h ⊢
    split_ifs at h with hfolder
    have hne : place ≠ other := by
      intro heq
      rw [← heq, hfolder] at hother
      exact nomatch hother
    rw [isFolder_put_of_ne files hne, if_pos hfolder]
    exact ih h

theorem locate?_put_file {path : String} (h : files.locate? path = some place)
    (hother : files.isFolder other = false) (content : ByteArray) :
    (files.put other (.file content)).locate? path = some place := by
  unfold locate? at h ⊢
  split_ifs at h with husable
  rw [if_pos husable]
  exact follow_put_file h hother content

theorem bytes?_put_file {path : String} (hlocate : files.locate? path = some place)
    (hfolder : files.isFolder place = false) (content : ByteArray) :
    (files.put place (.file content)).bytes? path = some content :=
  bytes?_eq_some_iff.mpr ⟨place, locate?_put_file hlocate hfolder content,
    isFolder_put_file hfolder content, get?_put_self ..⟩

/-- A write that succeeds leaves the text in the file. -/
theorem bytes?_of_writeText {path text : String} (h : files.writeText path text = (later, true)) :
    later.bytes? path = some text.toUTF8 := by
  rcases writeText_cases files path text with
    hwrite | ⟨place, content, written, hlocate, hfolder, hfills, hwrite⟩
  · exact nomatch hwrite.symm.trans h
  · obtain ⟨rfl, rfl⟩ := Prod.mk.inj (hwrite.symm.trans h)
    cases hfills with
    | whole => exact bytes?_put_file hlocate hfolder _

/-- A write changes no other file. -/
theorem fileAt?_writeText {path : String} (h : other ≠ placeOf path) (text : String) :
    (files.writeText path text).1.fileAt? other = files.fileAt? other := by
  have hgrows := createAbove_grows files path
  rcases writeText_cases files path text with
    hwrite | ⟨place, content, written, hlocate, -, -, hwrite⟩
  · rw [hwrite, hgrows.fileAt?]
  · rw [placeOf_of_locate? hlocate] at h
    rw [hwrite, fileAt?_put_of_ne _ h, hgrows.fileAt?]

/-- The later files are what a write of a text leaves that did not come to its file: no file has
changed, and if there was something at the path then nothing has. -/
structure Spares (files later : Files) (path : String) : Prop where
  fileAt? : ∀ place, later.fileAt? place = files.fileAt? place
  eq : files.exists? path = true → later = files
  get? : ".." ∉ namesOf path → later.get? (placeOf path) = files.get? (placeOf path)

theorem spares_createAbove (files : Files) (path : String) :
    Spares files (files.createAbove path).1 path where
  fileAt? := (createAbove_grows files path).fileAt?
  eq hexists := by
    obtain ⟨place, hlocate, -⟩ := (Option.any_eq_true _ _).mp hexists
    exact createAbove_of_locate? hlocate
  get? := get?_createAbove

/-- A write that fails does not come to its file, or there is room for only a part of the text. -/
theorem writeText_failed {path text : String} (h : files.writeText path text = (later, false)) :
    Spares files later path ∨ ∃ room, files.hindrance? (placeOf path) = some (.full room) ∧
      room < text.utf8ByteSize ∧ later.bytes? path = some (text.toUTF8.extract 0 room) := by
  rcases writeText_cases files path text with
    hwrite | ⟨place, content, written, hlocate, hfolder, hfills, hwrite⟩
  · obtain rfl := congrArg Prod.fst (hwrite.symm.trans h)
    exact .inl (spares_createAbove files path)
  · obtain ⟨rfl, rfl⟩ := Prod.mk.inj (hwrite.symm.trans h)
    cases hfills with
    | front hfull hroom =>
      rw [placeOf_of_locate? hlocate]
      exact .inr ⟨_, hfull, hroom, bytes?_put_file hlocate hfolder _⟩

theorem fromUTF8?_toUTF8 (text : String) : String.fromUTF8? text.toUTF8 = some text :=
  dif_pos text.isValidUTF8

theorem exists?_of_bytes? {path : String} {content : ByteArray}
    (h : files.bytes? path = some content) : files.exists? path = true := by
  obtain ⟨place, hlocate, -, hget⟩ := bytes?_eq_some_iff.mp h
  unfold exists? contains
  rw [hlocate, Option.any_some, hget]
  exact Bool.or_true _

theorem readText?_of_bytes? {path : String} {content : ByteArray}
    (h : files.bytes? path = some content) :
    files.readText? path = String.fromUTF8? content := by
  obtain ⟨place, hlocate, -, hget⟩ := bytes?_eq_some_iff.mp h
  unfold readText?
  rw [hlocate, Option.bind_eq_bind, Option.bind_some, hget]
  rfl

end Files

end DeskCalculator.Storage
