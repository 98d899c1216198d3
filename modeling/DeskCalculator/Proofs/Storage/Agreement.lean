import DeskCalculator.Proofs.Storage.Files

/-!
What is found along a path depends on the places that the path passes and on no other. Files that
agree except at one place are read alike and written alike at every path that does not pass it.
-/
namespace DeskCalculator.Storage

/-- The places that names pass, the first and the last included. -/
def passed (place : Place) : List String → List Place
  | [] => [place]
  | name :: names => place :: passed (place.step name) names

def wayTo (path : String) : List Place := passed (startOf path) (namesOf path)

theorem mem_passed (place : Place) (names : List String) : place ∈ passed place names := by
  cases names with
  | nil => exact List.mem_singleton.mpr rfl
  | cons name names => exact List.mem_cons_self ..

theorem foldl_step_mem_passed (place : Place) (names : List String) :
    names.foldl Place.step place ∈ passed place names := by
  induction names generalizing place with
  | nil => exact List.mem_singleton.mpr rfl
  | cons name names ih => exact List.mem_cons_of_mem place (ih (place.step name))

theorem placeOf_mem_wayTo (path : String) : placeOf path ∈ wayTo path :=
  foldl_step_mem_passed (startOf path) (namesOf path)

theorem passed_filter_subset (place : Place) (names : List String) :
    passed place (names.filter isMove) ⊆ passed place names := by
  induction names generalizing place with
  | nil => exact List.Subset.refl _
  | cons name names ih =>
    have hrest := ih (place.step name)
    cases hmove : isMove name with
    | false =>
      rw [Place.step_of_not_isMove hmove] at hrest
      rw [List.filter_cons_of_neg (by simp [hmove]), passed, Place.step_of_not_isMove hmove]
      exact List.subset_cons_of_subset place hrest
    | true =>
      rw [List.filter_cons_of_pos hmove]
      exact List.cons_subset_cons place hrest

theorem passed_dropLast_subset (place : Place) (names : List String) :
    passed place names.dropLast ⊆ passed place names := by
  induction names generalizing place with
  | nil => exact List.Subset.refl _
  | cons name names ih =>
    cases names with
    | nil => exact List.cons_subset.mpr ⟨List.mem_cons_self .., List.nil_subset _⟩
    | cons next names => exact List.cons_subset_cons place (ih (place.step name))

/-- The folders above a file lie on the way to it. -/
theorem passed_foldersAbove_subset (path : String) :
    passed (startOf path) (foldersAbove path) ⊆ wayTo path := by
  rw [foldersAbove_eq]
  exact List.Subset.trans (passed_dropLast_subset _ _) (passed_filter_subset _ _)

namespace Files

/-- Whether a text fits into a file depends on what hinders writing there. -/
theorem fill_snd_congr {files other : Files} {place : Place}
    (h : files.hindrance? place = other.hindrance? place) (text : String) :
    (files.fill place text).2 = (other.fill place text).2 := by
  unfold fill
  rw [h]
  cases other.hindrance? place with
  | none => rfl
  | some hindrance =>
    cases hindrance with
    | sealed => rfl
    | full room => by_cases hroom : text.utf8ByteSize ≤ room <;> simp [hroom]

structure AgreesExcept (hidden : Place) (files other : Files) : Prop where
  get?_eq : ∀ place, place ≠ hidden → files.get? place = other.get? place
  hindrance?_eq : ∀ place, place ≠ hidden → files.hindrance? place = other.hindrance? place

namespace AgreesExcept

variable {hidden place : Place} {files other : Files}

theorem isFolder_eq (h : AgreesExcept hidden files other) (hne : place ≠ hidden) :
    files.isFolder place = other.isFolder place := by
  unfold isFolder
  rw [h.get?_eq place hne]

theorem put (h : AgreesExcept hidden files other) (entry : Entry) :
    AgreesExcept hidden (files.put place entry) (other.put place entry) where
  get?_eq found hfound := by
    by_cases heq : found = place
    · rw [heq, get?_put_self, get?_put_self]
    · rw [get?_put_of_ne _ heq, get?_put_of_ne _ heq, h.get?_eq found hfound]
  hindrance?_eq := h.hindrance?_eq

theorem follow_eq (h : AgreesExcept hidden files other) {names : List String}
    (hway : hidden ∉ passed place names) : files.follow place names = other.follow place names := by
  induction names generalizing place with
  | nil => rfl
  | cons name names ih =>
    have hplace : place ≠ hidden := fun heq => hway (heq ▸ mem_passed place (name :: names))
    have hrest : hidden ∉ passed (place.step name) names :=
      fun hmem => hway (List.mem_cons_of_mem place hmem)
    rw [follow, follow, h.isFolder_eq hplace, ih hrest]

theorem locate?_eq (h : AgreesExcept hidden files other) {path : String}
    (hway : hidden ∉ wayTo path) : files.locate? path = other.locate? path := by
  unfold locate?
  rw [h.follow_eq hway]

theorem ne_of_locate? {path : String} (hway : hidden ∉ wayTo path)
    (hlocate : files.locate? path = some place) : place ≠ hidden := by
  rintro rfl
  rw [← placeOf_of_locate? hlocate] at hway
  exact hway (placeOf_mem_wayTo path)

theorem exists?_eq (h : AgreesExcept hidden files other) {path : String}
    (hway : hidden ∉ wayTo path) : files.exists? path = other.exists? path := by
  unfold exists?
  rw [← h.locate?_eq hway]
  cases hlocate : files.locate? path with
  | none => rfl
  | some place =>
    have hne := ne_of_locate? hway hlocate
    rw [Option.any_some, Option.any_some, contains, contains, h.isFolder_eq hne, h.get?_eq place hne]

theorem readText?_eq (h : AgreesExcept hidden files other) {path : String}
    (hway : hidden ∉ wayTo path) : files.readText? path = other.readText? path := by
  unfold readText?
  rw [← h.locate?_eq hway]
  cases hlocate : files.locate? path with
  | none => rfl
  | some place =>
    have hget := h.get?_eq place (ne_of_locate? hway hlocate)
    simp only [Option.bind_eq_bind, Option.bind_some, hget]

/-- Creating folders goes alike on both sides. -/
theorem createFolders (h : AgreesExcept hidden files other) {names : List String}
    (hway : hidden ∉ passed place names) :
    (files.createFolders place names).2 = (other.createFolders place names).2 ∧
      AgreesExcept hidden (files.createFolders place names).1
        (other.createFolders place names).1 := by
  induction names generalizing files other place with
  | nil => exact ⟨rfl, h⟩
  | cons name names ih =>
    have hrest : hidden ∉ passed (place.step name) names :=
      fun hmem => hway (List.mem_cons_of_mem place hmem)
    have hne : place.step name ≠ hidden := fun heq => hrest (heq ▸ mem_passed _ names)
    -- What is found after a step is not hidden, so that both sides take the same branch.
    simp only [Files.createFolders, ← h.isFolder_eq hne, ← h.get?_eq _ hne]
    split_ifs
    · exact ih h hrest
    · exact ⟨rfl, h⟩
    · exact ih (h.put .folder) hrest

theorem createAbove (h : AgreesExcept hidden files other) {path : String}
    (hway : hidden ∉ wayTo path) :
    (files.createAbove path).2 = (other.createAbove path).2 ∧
      AgreesExcept hidden (files.createAbove path).1 (other.createAbove path).1 := by
  have habove : hidden ∉ passed (startOf path) (foldersAbove path) :=
    fun hmem => hway (passed_foldersAbove_subset path hmem)
  simp only [Files.createAbove]
  split_ifs
  · exact h.createFolders habove
  · exact ⟨rfl, h⟩

/-- A write succeeds on both sides or on none. -/
theorem writeText_snd_eq (h : AgreesExcept hidden files other) {path : String}
    (hway : hidden ∉ wayTo path) (text : String) :
    (files.writeText path text).2 = (other.writeText path text).2 := by
  obtain ⟨hcreated, habove⟩ := h.createAbove hway
  unfold writeText
  obtain ⟨later, created, hcreate⟩ : ∃ later created, files.createAbove path = (later, created) :=
    ⟨_, _, rfl⟩
  obtain ⟨after, found, hfound⟩ : ∃ after found, other.createAbove path = (after, found) :=
    ⟨_, _, rfl⟩
  rw [hcreate, hfound] at hcreated habove ⊢
  obtain rfl : created = found := hcreated
  cases created with
  | false => rfl
  | true =>
    have hlocate : later.locate? path = after.locate? path := habove.locate?_eq hway
    simp only [← hlocate]
    cases hplace : later.locate? path with
    | none => rfl
    | some place =>
      have hne := ne_of_locate? hway hplace
      simp only [habove.isFolder_eq hne]
      split_ifs
      · rfl
      · exact fill_snd_congr (habove.hindrance?_eq place hne) text

end AgreesExcept

end Files

end DeskCalculator.Storage
