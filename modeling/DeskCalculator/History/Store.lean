import DeskCalculator.History.Codec
import DeskCalculator.Storage.Files
import DeskCalculator.Text.Blank

/-!
Stores of saved calculations: one that lives in memory, and one kept in a file. Both save with a
given time and list the most recent records. A missing or empty file is an empty history.
-/
namespace DeskCalculator.History

open Storage

inductive StoreFault where
  | inaccessible (path : String)
  | malformed (path : String)
deriving Repr, DecidableEq

/-- The words for a fault, as far as they do not come from the system. -/
def StoreFault.message : StoreFault → String
  | inaccessible path => "cannot access history file " ++ path
  | malformed path => "history file " ++ path ++ " is malformed"

class Store (σ : Type) where
  save : (now : Nat) → (formula result : String) → σ → Except StoreFault Record × σ
  listRecent : (limit : Nat) → σ → Except StoreFault (List Record)

/-- Saves, but lets a fault of the store pass without notice. -/
def saveIfPossible {σ : Type} [Store σ] (now : Nat) (formula result : String) (store : σ) :
    Option Record × σ :=
  let (outcome, store) := Store.save now formula result store
  (outcome.toOption, store)

structure MemoryStore where
  records : List Record := []
deriving Repr, DecidableEq

instance : Store MemoryStore where
  save now formula result store :=
    let record := newRecord now formula result store.records
    (.ok record, ⟨store.records ++ [record]⟩)
  listRecent limit store := .ok (mostRecent limit store.records)

structure FileStore where
  path : String
  files : Files
deriving DecidableEq

namespace FileStore

def load (store : FileStore) : Except StoreFault (List Record) :=
  if !store.files.exists? store.path then .ok []
  else
    match store.files.readText? store.path with
    | none => .error (.inaccessible store.path)
    | some text =>
      if Text.isEmpty text then .ok []
      else
        match decode? text with
        | some records => .ok records
        | none => .error (.malformed store.path)

def save (now : Nat) (formula result : String) (store : FileStore) :
    Except StoreFault Record × FileStore :=
  match store.load with
  | .error fault => (.error fault, store)
  | .ok records =>
    let record := newRecord now formula result records
    match store.files.writeText store.path (encode (records ++ [record])) with
    | (files, true) => (.ok record, { store with files })
    | (files, false) => (.error (.inaccessible store.path), { store with files })

end FileStore

instance : Store FileStore where
  save := FileStore.save
  listRecent limit store := store.load.map (mostRecent limit)

end DeskCalculator.History
