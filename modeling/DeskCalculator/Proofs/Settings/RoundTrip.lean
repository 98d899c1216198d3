import DeskCalculator.Proofs.Storage.Writing
import DeskCalculator.Proofs.Toml.Document
import DeskCalculator.Proofs.Toml.Range
import DeskCalculator.Settings.Loading

/-!
Settings are saved and loaded again. The text of settings is read as a document with the three
sections, and this document says all that the settings hold. Only a limit above the integers of TOML
would be lost, and settings that have been loaded have none.
-/
namespace DeskCalculator.Settings

open Storage Toml

/-! ### Settings from documents -/

section Limits

variable {document : Entries} {name key : String} {place : ℕ} {value : Value}

theorem sectionNamed?_fits (h : document.Fit) (hsection : sectionNamed? document name = some value) :
    value.Fits := by
  unfold sectionNamed? at hsection
  split at hsection
  · exact Option.some.inj hsection ▸ .table Entries.Fit.nil
  · next hget =>
    split_ifs at hsection
    exact Option.some.inj hsection ▸ h.get? hget

theorem fieldOf_fits {part : Value} (h : part.Fits) (hfield : fieldOf place key part = some value) :
    value.Fits := by
  unfold fieldOf at hfield
  split at hfield
  · cases h with
    | table hentries => exact Entries.Fit.get? hentries hfield
  · cases h with
    | array hitems => exact hitems value (List.mem_of_getElem? hfield)
  · cases h with
    | tables helements =>
      obtain ⟨element, helement, rfl⟩ := Option.map_eq_some_iff.mp hfield
      exact .table (helements element (List.mem_of_getElem? helement))
  · exact nomatch hfield

theorem count?_lt {n : ℕ} (h : value.Fits) (hcount : count? value = some n) :
    n < 0x8000000000000000 := by
  unfold count? at hcount
  split at hcount
  · cases h with
    | integer hrange =>
      split_ifs at hcount
      obtain rfl := Option.some.inj hcount
      omega
  · exact nomatch hcount

/-- A limit that a document holds is one of its integers. -/
theorem recentLimit_lt {settings : Settings} (h : document.Fit)
    (hdocument : ofDocument? document = some settings) :
    settings.recentLimit < countBound := by
  obtain ⟨calculator, -, hdocument⟩ := Option.bind_eq_some_iff.mp hdocument
  obtain ⟨unit, -, hdocument⟩ := Option.bind_eq_some_iff.mp hdocument
  obtain ⟨split, -, hdocument⟩ := Option.bind_eq_some_iff.mp hdocument
  obtain ⟨rounding, -, hdocument⟩ := Option.bind_eq_some_iff.mp hdocument
  obtain ⟨history, hhistory, hdocument⟩ := Option.bind_eq_some_iff.mp hdocument
  obtain ⟨historyPath, -, hdocument⟩ := Option.bind_eq_some_iff.mp hdocument
  obtain ⟨recentLimit, hlimit, hdocument⟩ := Option.bind_eq_some_iff.mp hdocument
  obtain rfl := Option.some.inj hdocument
  cases hfield : fieldOf 1 "recent_limit" history with
  | none =>
    rw [hfield] at hlimit
    obtain rfl := Option.some.inj hlimit
    exact (by decide : History.defaultLimit < countBound)
  | some value =>
    rw [hfield] at hlimit
    exact count?_lt (fieldOf_fits (sectionNamed?_fits h hhistory) hfield) hlimit

end Limits

/-! ### Documents from settings -/

def statements (settings : Settings) : List Statement :=
  [.table [] "calculator", .entry [] "angle_unit" (.string (unitName settings.unit)),
    .table [] "warikan", .entry [] "rounding" (.string (roundingName settings.rounding)),
    .table [] "history"] ++
  (settings.historyPath.map fun path => .entry [] "path" (.string path)).toList ++
  [.entry [] "recent_limit" (.integer settings.recentLimit)]

def document (settings : Settings) : Entries :=
  [("calculator", .table .header [("angle_unit", .string (unitName settings.unit))]),
    ("warikan", .table .header [("rounding", .string (roundingName settings.rounding))]),
    ("history", .table .header
      ((settings.historyPath.map fun path => ("path", .string path)).toList ++
        [("recent_limit", .integer settings.recentLimit)]))]

theorem keyLine_append (key : String) (written rest : List Char) :
    keyLine key written ++ rest = key.toList ++ ' ' :: '=' :: ' ' :: (written ++ '\n' :: rest) := by
  rw [keyLine, List.append_assoc, List.append_assoc, List.append_assoc]
  rfl

theorem statements?_pathLine (path : Option String) (rest : List Char) :
    statements? (pathLine path ++ rest) = (statements? rest).map
      ((path.map fun path => Statement.entry [] "path" (.string path)).toList ++ ·) := by
  cases path with
  | none =>
    rw [pathLine, List.nil_append, Option.map_none]
    exact Option.map_id'.symm
  | some path =>
    rw [pathLine, keyLine_append, statements?_quote (by decide), String.ofList_toList]
    rfl

/-- The text of settings is read as the statements that it was written from. -/
theorem statements?_text (settings : Settings)
    (hlimit : settings.recentLimit < countBound) :
    statements? (dropByteOrderMark settings.text.toList) = some settings.statements := by
  have hcalculator : ∀ rest, dropByteOrderMark ("[calculator]\n".toList ++ rest) =
      '[' :: ("calculator".toList ++ ']' :: '\n' :: rest) := fun _ => rfl
  have hsplit : ∀ rest, "\n[warikan]\n".toList ++ rest =
      '\n' :: '[' :: ("warikan".toList ++ ']' :: '\n' :: rest) := fun _ => rfl
  have hhistory : ∀ rest, "\n[history]\n".toList ++ rest =
      '\n' :: '[' :: ("history".toList ++ ']' :: '\n' :: rest) := fun _ => rfl
  have hchars : settings.text.toList = _ := String.toList_ofList
  rw [hchars]
  simp only [List.append_assoc]
  have hlast : statements? (keyLine "recent_limit" (Number.decimalText settings.recentLimit)) =
      some [.entry [] "recent_limit" (.integer settings.recentLimit)] := by
    rw [← List.append_nil (keyLine _ _), keyLine_append,
      statements?_decimalText (by decide) hlimit, statements?_nil]
    rfl
  rw [hcalculator, statements?_header (by decide), keyLine_append, statements?_quote (by decide),
    hsplit, statements?_emptyLine, statements?_header (by decide), keyLine_append,
    statements?_quote (by decide), hhistory, statements?_emptyLine,
    statements?_header (by decide), statements?_pathLine, hlast, String.ofList_toList,
    String.ofList_toList]
  rfl

theorem growth_statements (settings : Settings) :
    settings.statements.foldlM Growth.add? {} = some ⟨settings.document, ["history"]⟩ := by
  obtain ⟨unit, rounding, historyPath, recentLimit⟩ := settings
  cases historyPath with
  | none => rfl
  | some path => rfl

/-- The document of settings gives them again. -/
theorem ofDocument?_document (settings : Settings) :
    ofDocument? settings.document = some settings := by
  obtain ⟨unit, rounding, historyPath, recentLimit⟩ := settings
  have hunit : choice? unitNames (.string (unitName unit)) = some unit := by cases unit <;> rfl
  have hrounding : choice? roundingNames (.string (roundingName rounding)) = some rounding := by
    cases rounding <;> rfl
  have hlimit : count? (.integer recentLimit) = some recentLimit := rfl
  have hdocument : ofDocument? (document { unit, rounding, historyPath, recentLimit }) = (do
      let unit ← choice? unitNames (.string (unitName unit))
      let rounding ← choice? roundingNames (.string (roundingName rounding))
      let recentLimit ← count? (.integer recentLimit)
      return { unit, rounding, historyPath, recentLimit }) := by
    cases historyPath with
    | none => rfl
    | some path => rfl
  rw [hdocument, hunit, hrounding, hlimit]
  rfl

/-- Settings whose limit TOML can hold are read back from their text. -/
theorem ofText?_text (settings : Settings) (hlimit : settings.recentLimit < countBound) :
    ofText? settings.text = some settings := by
  have hdocument : Toml.ofText? settings.text = some settings.document := by
    rw [Toml.ofText?, statements?_text settings hlimit, Option.bind_eq_bind, Option.bind_some,
      growth_statements]
    rfl
  rw [ofText?, hdocument]
  exact ofDocument?_document settings

/-! ### Settings in files -/

theorem ofText?_of_loadFrom {settings : Settings} {path : String} {files : Files}
    (h : loadFrom path files = .ok settings) : ∃ text, ofText? text = some settings := by
  unfold loadFrom at h
  split at h
  · exact nomatch h
  · next text _ =>
    split at h
    · next hsettings => exact ⟨text, Except.ok.inj h ▸ hsettings⟩
    · exact nomatch h

/-- A text of settings that has been written is loaded as these settings. -/
theorem loadFrom_writeText {settings : Settings} {text path : String} {files : Files}
    (hsettings : ofText? text = some settings) (hwritable : files.isWritable path = true) :
    ∃ after, files.writeText path text = (after, true) ∧ after.exists? path = true ∧
      after.readText? path = some text ∧ loadFrom path after = .ok settings := by
  obtain ⟨later, place, -, -, -, -, hwrite⟩ := Files.writeText_of_isWritable hwritable text
  have hbytes := Files.bytes?_of_writeText hwrite
  have hread := Files.readText?_of_bytes? hbytes
  rw [Files.fromUTF8?_toUTF8] at hread
  refine ⟨_, hwrite, Files.exists?_of_bytes? hbytes, hread, ?_⟩
  rw [loadFrom, hread]
  dsimp only
  rw [hsettings]

/-- Settings that have been loaded from any file can be saved wherever a file can be written, and
this file gives them again. Where the default file is missing, loading writes one, which gives the
same settings the next time and is left as it is. -/
theorem loads_what_was_saved (defaultPath : String) :
    (∀ settings source origin path files, loadFrom source origin = .ok settings →
      files.isWritable path = true → ∃ after, settings.saveTo path files = (after, true) ∧
        loadFrom path after = .ok settings ∧
        load (some path) defaultPath after = (.ok settings, after)) ∧
    (∀ files, files.exists? defaultPath = false → files.isWritable defaultPath = true →
      ∃ settings after, load none defaultPath files = (.ok settings, after) ∧
        after.readText? defaultPath = some settings.text ∧
        load none defaultPath after = (.ok settings, after)) := by
  constructor
  · intro settings source origin path files hload hwritable
    obtain ⟨text, hsettings⟩ := ofText?_of_loadFrom hload
    obtain ⟨document, hdocument, hfields⟩ := Option.bind_eq_some_iff.mp hsettings
    have hlimit := recentLimit_lt (ofText?_fit hdocument) hfields
    obtain ⟨after, hsave, hexists, -, hagain⟩ :=
      loadFrom_writeText (ofText?_text settings hlimit) hwritable
    refine ⟨after, (saveTo_of_lt hlimit path files).trans hsave, hagain, ?_⟩
    rw [load, if_pos hexists, hagain]
  · intro files hmissing hwritable
    obtain ⟨after, hsave, hexists, hread, hagain⟩ :=
      loadFrom_writeText (ofText?_text {} (by decide)) hwritable
    refine ⟨{}, after, ?_, hread, ?_⟩
    · rw [load, if_neg (by simp [hmissing]), saveTo_default, hsave]
    · rw [load, if_pos hexists, hagain]

/-- A document that gives the path only; the rest has its defaults. -/
theorem loads_path_again :
    ∃ origin after, loadFrom "calc.toml" origin = .ok { historyPath := some "kept.json" } ∧
      saveTo { historyPath := some "kept.json" } "calc.toml" {} = (after, true) ∧
      loadFrom "calc.toml" after = .ok { historyPath := some "kept.json" } := by
  have hwritable : Files.isWritable {} "calc.toml" = true := by decide +kernel
  have htext : dropByteOrderMark "[history]\npath = \"kept.json\"\n".toList =
      '[' :: ("history".toList ++ ']' :: '\n' :: (pathLine (some "kept.json") ++ [])) := by
    decide +kernel
  have hsettings : ofText? "[history]\npath = \"kept.json\"\n" =
      some { historyPath := some "kept.json" } := by
    rw [ofText?, Toml.ofText?, htext, statements?_header (by decide), statements?_pathLine,
      statements?_nil]
    rfl
  obtain ⟨origin, -, -, -, horigin⟩ := loadFrom_writeText hsettings hwritable
  obtain ⟨after, hsave, hagain, -⟩ :=
    (loads_what_was_saved "default.toml").1 _ _ _ "calc.toml" {} horigin hwritable
  exact ⟨origin, after, horigin, hsave, hagain⟩

end DeskCalculator.Settings
