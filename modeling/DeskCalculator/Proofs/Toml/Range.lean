import DeskCalculator.Toml.Document
import Mathlib.Data.Int.Notation
import Mathlib.Data.Nat.Notation
import Mathlib.Tactic.SplitIfs

/-!
The integers of a document fit in 64 bits with sign. They come from the words that spell them, and
no rule by which tables grow makes new ones.
-/
namespace DeskCalculator.Toml

inductive Value.Fits : Value → Prop
  | string (text : String) : Fits (.string text)
  | integer {n : ℤ} (h : -0x8000000000000000 ≤ n ∧ n < 0x8000000000000000) : Fits (.integer n)
  | boolean (value : Bool) : Fits (.boolean value)
  | fraction : Fits .fraction
  | date : Fits .date
  | array {items : List Value} (h : ∀ item ∈ items, Fits item) : Fits (.array items)
  | table {origin : Origin} {entries : Entries} (h : ∀ entry ∈ entries, Fits entry.2) :
    Fits (.table origin entries)
  | tables {elements : List Entries} (h : ∀ entries ∈ elements, ∀ entry ∈ entries, Fits entry.2) :
    Fits (.tables elements)

def Entries.Fit (entries : Entries) : Prop := ∀ entry ∈ entries, entry.2.Fits

variable {entries after : Entries} {key : String} {value : Value}

namespace Entries.Fit

theorem nil : Entries.Fit [] := fun _ hentry => absurd hentry List.not_mem_nil

theorem get? (h : entries.Fit) (hget : entries.get? key = some value) : value.Fits := by
  obtain ⟨entry, hfind, rfl⟩ := Option.map_eq_some_iff.mp hget
  exact h entry (List.mem_of_find?_eq_some hfind)

theorem append (h : entries.Fit) (hvalue : value.Fits) :
    Entries.Fit (entries ++ [(key, value)]) := by
  intro entry hentry
  rcases List.mem_append.mp hentry with hold | hnew
  · exact h entry hold
  · rw [List.mem_singleton.mp hnew]
    exact hvalue

theorem set (h : entries.Fit) (hvalue : value.Fits) : (entries.set key value).Fit := by
  unfold Entries.set
  split_ifs
  · intro entry hentry
    obtain ⟨old, hold, rfl⟩ := List.mem_map.mp hentry
    split_ifs
    · exact hvalue
    · exact h old hold
  · exact h.append hvalue

theorem add? (h : entries.Fit) (hvalue : value.Fits) (hadd : entries.add? key value = some after) :
    after.Fit := by
  unfold Entries.add? at hadd
  split_ifs at hadd
  exact Option.some.inj hadd ▸ h.append hvalue

/-- Integers fit in the whole table if they do where it is changed. -/
theorem descend {byDots : Bool} {change : Origin → Entries → Option Entries}
    (hchange : ∀ origin {entries after}, Fit entries → change origin entries = some after →
      Fit after)
    {keys : List String} {origin : Origin} (h : entries.Fit)
    (hdescend : Toml.descend byDots change keys origin entries = some after) : after.Fit := by
  induction keys generalizing origin entries after with
  | nil => exact hchange origin h hdescend
  | cons key keys ih =>
    rw [Toml.descend] at hdescend
    split at hdescend
    · obtain ⟨inner, hinner, hdescend⟩ := Option.bind_eq_some_iff.mp hdescend
      exact Option.some.inj hdescend ▸ h.set (.table (ih nil hinner))
    · next hget =>
      split_ifs at hdescend
      obtain ⟨inner, hinner, hdescend⟩ := Option.bind_eq_some_iff.mp hdescend
      cases h.get? hget with
      | table hold => exact Option.some.inj hdescend ▸ h.set (.table (ih hold hinner))
    · next elements hget =>
      obtain ⟨last, hlast, hdescend⟩ := Option.bind_eq_some_iff.mp hdescend
      obtain ⟨inner, hinner, hdescend⟩ := Option.bind_eq_some_iff.mp hdescend
      cases h.get? hget with
      | tables hold =>
        refine Option.some.inj hdescend ▸ h.set (.tables fun element helement => ?_)
        rcases List.mem_append.mp helement with hfront | hlast'
        · exact hold element (List.dropLast_subset _ hfront)
        · rw [List.mem_singleton.mp hlast']
          exact ih (hold last (List.mem_of_getLast? hlast)) hinner
    · exact nomatch hdescend

theorem insert? (h : entries.Fit) (hvalue : value.Fits) {keys : List String} {origin : Origin}
    (hinsert : Toml.insert? keys key value origin entries = some after) : after.Fit := by
  refine h.descend (fun origin entries after h hchange => ?_) hinsert
  split_ifs at hchange
  exact h.add? hvalue hchange

theorem openTable? (h : entries.Fit) {keys : List String}
    (hopen : Toml.openTable? keys key entries = some after) : after.Fit := by
  refine h.descend (fun _ entries after h hchange => ?_) hopen
  split at hchange
  · exact Option.some.inj hchange ▸ h.set (.table nil)
  · next hget =>
    cases h.get? hget with
    | table hinner => exact Option.some.inj hchange ▸ h.set (.table hinner)
  · exact nomatch hchange

theorem openElement? (h : entries.Fit) {keys : List String}
    (hopen : Toml.openElement? keys key entries = some after) : after.Fit := by
  refine h.descend (fun _ entries after h hchange => ?_) hopen
  split at hchange
  · refine Option.some.inj hchange ▸ h.set (.tables fun element helement => ?_)
    rw [List.mem_singleton.mp helement]
    exact nil
  · next hget =>
    cases h.get? hget with
    | tables hold =>
      refine Option.some.inj hchange ▸ h.set (.tables fun element helement => ?_)
      rcases List.mem_append.mp helement with hfront | hlast
      · exact hold element hfront
      · rw [List.mem_singleton.mp hlast]
        exact nil
  · exact nomatch hchange

end Entries.Fit

/-- What holds of a state and is kept by every step holds when all steps have been taken. -/
theorem foldlM_invariant {σ α : Type} {step : σ → α → Option σ} {holds : σ → Prop} {items : List α}
    (hstep : ∀ item ∈ items, ∀ s s', holds s → step s item = some s' → holds s') {s s' : σ}
    (h : holds s) (hfold : items.foldlM step s = some s') : holds s' := by
  induction items generalizing s with
  | nil => exact Option.some.inj hfold ▸ h
  | cons item items ih =>
    obtain ⟨hitem, hitems⟩ := List.forall_mem_cons.mp hstep
    rw [List.foldlM_cons] at hfold
    obtain ⟨next, hnext, hfold⟩ := Option.bind_eq_some_iff.mp hfold
    exact ih hitems (hitem s next h hnext) hfold

/-! ### Values -/

theorem integer?_range {word : List Char} {n : ℤ} (h : integer? word = some n) :
    -0x8000000000000000 ≤ n ∧ n < 0x8000000000000000 := by
  unfold integer? at h
  dsimp only at h
  split at h
  all_goals
    obtain ⟨m, -, h⟩ := Option.bind_eq_some_iff.mp h
    split_ifs at h with hrange
    exact Option.some.inj h ▸ hrange

theorem scalarValue?_fits {text rest : List Char} (h : scalarValue? text = some (value, rest)) :
    value.Fits := by
  obtain ⟨value, hword, hpair⟩ := Option.map_eq_some_iff.mp h
  obtain ⟨rfl, -⟩ := Prod.mk.inj hpair
  unfold ofWord? at hword
  split at hword
  · exact Option.some.inj hword ▸ .boolean true
  split at hword
  · exact Option.some.inj hword ▸ .boolean false
  split at hword
  · next hinteger => exact Option.some.inj hword ▸ .integer (integer?_range hinteger)
  split_ifs at hword
  · exact Option.some.inj hword ▸ .fraction
  · exact Option.some.inj hword ▸ .date

theorem leaf?_fits {text rest : List Char} (h : leaf? text = some (value, rest)) :
    value.Fits := by
  unfold leaf? at h
  split at h
  · obtain ⟨string, -, hpair⟩ := Option.map_eq_some_iff.mp h
    exact (Prod.mk.inj hpair).1 ▸ .string _
  · obtain ⟨string, -, hpair⟩ := Option.map_eq_some_iff.mp h
    exact (Prod.mk.inj hpair).1 ▸ .string _
  · exact scalarValue?_fits h

section Items

variable {item? : List Char → Option (Value × List Char)}
  (hitem : ∀ {text value rest}, item? text = some (value, rest) → value.Fits)
include hitem

theorem items?_fit {text rest : List Char} {values : List Value}
    (h : items? item? text = some (values, rest)) : ∀ value ∈ values, value.Fits := by
  fun_induction items? item? text generalizing values rest with
  | case1 =>
    obtain ⟨rfl, -⟩ := Prod.mk.inj (Option.some.inj h)
    exact fun _ hvalue => absurd hvalue List.not_mem_nil
  | case2 text _ ih =>
    obtain ⟨⟨first, behind⟩, hfirst, h⟩ := Option.bind_eq_some_iff.mp h
    dsimp only at h
    split at h
    · obtain ⟨rfl, -⟩ := Prod.mk.inj (Option.some.inj h)
      exact List.forall_mem_singleton.mpr (hitem hfirst)
    · split_ifs at h with hshorter
      obtain ⟨⟨others, last⟩, hothers, h⟩ := Option.bind_eq_some_iff.mp h
      obtain ⟨rfl, -⟩ := Prod.mk.inj (Option.some.inj h)
      exact List.forall_mem_cons.mpr ⟨hitem hfirst, ih _ hshorter hothers⟩
    · cases h

theorem keyValue?_fits {text rest : List Char} {key : List String × String}
    (h : keyValue? item? text = some ((key, value), rest)) : value.Fits := by
  obtain ⟨⟨key, behind⟩, -, h⟩ := Option.bind_eq_some_iff.mp h
  dsimp only at h
  split at h
  · obtain ⟨⟨value, last⟩, hvalue, h⟩ := Option.bind_eq_some_iff.mp h
    obtain ⟨hpair, -⟩ := Prod.mk.inj (Option.some.inj h)
    exact (Prod.mk.inj hpair).2 ▸ hitem hvalue
  · exact nomatch h

theorem pairs?_fit {text rest : List Char} {pairs : List ((List String × String) × Value)}
    (h : pairs? item? text = some (pairs, rest)) : ∀ pair ∈ pairs, pair.2.Fits := by
  fun_induction pairs? item? text generalizing pairs rest with
  | case1 text ih =>
    obtain ⟨⟨first, behind⟩, hfirst, h⟩ := Option.bind_eq_some_iff.mp h
    dsimp only at h
    split at h
    · obtain ⟨rfl, -⟩ := Prod.mk.inj (Option.some.inj h)
      exact List.forall_mem_singleton.mpr (keyValue?_fits hitem hfirst)
    · split_ifs at h with hshorter
      obtain ⟨⟨others, last⟩, hothers, h⟩ := Option.bind_eq_some_iff.mp h
      obtain ⟨rfl, -⟩ := Prod.mk.inj (Option.some.inj h)
      exact List.forall_mem_cons.mpr ⟨keyValue?_fits hitem hfirst, ih _ hshorter hothers⟩
    · cases h

end Items

theorem entriesOf?_fit {pairs : List ((List String × String) × Value)}
    (hpairs : ∀ pair ∈ pairs, pair.2.Fits) (h : entriesOf? pairs = some entries) : entries.Fit :=
  foldlM_invariant (fun pair hpair before _ (hbefore : before.Fit) hinsert =>
    hbefore.insert? (hpairs pair hpair) hinsert) Entries.Fit.nil h

/-- A value that is read holds only integers of 64 bits. -/
theorem value?_fits {depth : ℕ} {text rest : List Char}
    (h : value? depth text = some (value, rest)) : value.Fits := by
  induction depth generalizing text value rest with
  | zero => exact leaf?_fits h
  | succ depth ih =>
    unfold value? at h
    split at h
    · next hdepth =>
      obtain rfl := Nat.succ.inj hdepth
      obtain ⟨⟨items, behind⟩, hitems, h⟩ := Option.map_eq_some_iff.mp h
      obtain ⟨rfl, -⟩ := Prod.mk.inj h
      exact .array (items?_fit ih hitems)
    · next hdepth =>
      obtain rfl := Nat.succ.inj hdepth
      split at h
      · obtain ⟨rfl, -⟩ := Prod.mk.inj (Option.some.inj h)
        exact .table Entries.Fit.nil
      · obtain ⟨⟨pairs, behind⟩, hpairs, h⟩ := Option.bind_eq_some_iff.mp h
        obtain ⟨entries, hentries, h⟩ := Option.bind_eq_some_iff.mp h
        obtain ⟨rfl, -⟩ := Prod.mk.inj (Option.some.inj h)
        exact .table (entriesOf?_fit (pairs?_fit ih hpairs) hentries)
    · exact leaf?_fits h

/-! ### Documents -/

def Statement.Fits : Statement → Prop
  | .entry _ _ value => value.Fits
  | _ => True

theorem statement?_fits {text rest : List Char} {statement : Statement}
    (h : statement? text = some (statement, rest)) : statement.Fits := by
  unfold statement? at h
  split at h
  · obtain ⟨⟨key, behind⟩, -, h⟩ := Option.bind_eq_some_iff.mp h
    split at h
    · obtain ⟨rfl, -⟩ := Prod.mk.inj (Option.some.inj h)
      trivial
    · exact nomatch h
  · obtain ⟨⟨key, behind⟩, -, h⟩ := Option.bind_eq_some_iff.mp h
    split at h
    · obtain ⟨rfl, -⟩ := Prod.mk.inj (Option.some.inj h)
      trivial
    · exact nomatch h
  · obtain ⟨⟨⟨key, value⟩, behind⟩, hpair, h⟩ := Option.bind_eq_some_iff.mp h
    obtain ⟨rfl, -⟩ := Prod.mk.inj (Option.some.inj h)
    exact keyValue?_fits value?_fits hpair

/-- All statements of a text hold only integers of 64 bits. -/
theorem statements?_fit {text : List Char} {statements : List Statement}
    (h : statements? text = some statements) : ∀ statement ∈ statements, statement.Fits := by
  fun_induction statements? text generalizing statements with
  | case1 =>
    obtain rfl := Option.some.inj h
    exact fun _ hstatement => absurd hstatement List.not_mem_nil
  | case2 text _ rest _ _ ih => exact ih h
  | case3 => cases h
  | case4 text _ _ ih =>
    obtain ⟨⟨first, behind⟩, hfirst, h⟩ := Option.bind_eq_some_iff.mp h
    obtain ⟨rest, -, h⟩ := Option.bind_eq_some_iff.mp h
    split_ifs at h with hshorter
    obtain ⟨others, hothers, h⟩ := Option.bind_eq_some_iff.mp h
    obtain rfl := Option.some.inj h
    exact List.forall_mem_cons.mpr ⟨statement?_fits hfirst, ih _ hshorter hothers⟩

/-- A statement adds no integer to a document but its own. -/
theorem Growth.add?_fit {before after : Growth} {statement : Statement} (h : before.root.Fit)
    (hstatement : statement.Fits) (hadd : before.add? statement = some after) :
    after.root.Fit := by
  cases statement with
  | table keys key =>
    obtain ⟨root, hroot, rfl⟩ := Option.map_eq_some_iff.mp hadd
    exact h.openTable? hroot
  | element keys key =>
    obtain ⟨root, hroot, rfl⟩ := Option.map_eq_some_iff.mp hadd
    exact h.openElement? hroot
  | entry keys key value =>
    obtain ⟨root, hroot, rfl⟩ := Option.map_eq_some_iff.mp hadd
    exact h.descend (fun _ _ _ hinner hinsert => hinner.insert? hstatement hinsert) hroot

theorem ofText?_fit {text : String} {document : Entries} (h : ofText? text = some document) :
    document.Fit := by
  obtain ⟨statements, hstatements, h⟩ := Option.bind_eq_some_iff.mp h
  obtain ⟨growth, hgrowth, h⟩ := Option.bind_eq_some_iff.mp h
  obtain rfl := Option.some.inj h
  have hfit := statements?_fit hstatements
  exact foldlM_invariant (fun statement hmem before _ (hbefore : before.root.Fit) hadd =>
    Growth.add?_fit hbefore (hfit statement hmem) hadd) Entries.Fit.nil hgrowth

end DeskCalculator.Toml
