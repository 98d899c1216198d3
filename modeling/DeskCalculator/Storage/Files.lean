import DeskCalculator.Text.Pieces

/-!
The files that a command works on: a working folder with the folders above it and an absolute root,
holding files and further folders. A path is followed name by name, and each step must start from a
folder. Writing a file creates the folders above it and empties the file before it fills it, so a
write that is cut short leaves neither the old text nor the new one.
-/
namespace DeskCalculator.Storage

/-- The names from the working folder to a file or folder, the deepest first. Absolute places begin
with the name `/`. The depth comes first, so that places of different depth are told apart at
once. -/
structure Place where
  depth : Nat
  names : List String
  length_names : names.length = depth := by rfl
deriving Repr, DecidableEq

namespace Place

def here : Place := { depth := 0, names := [] }

def root : Place := { depth := 1, names := ["/"] }

def isAbove (place : Place) : Bool := place.names.all (· == "..")

def child (place : Place) (name : String) : Place where
  depth := place.depth + 1
  names := name :: place.names
  length_names := by simp [place.length_names]

def parent (place : Place) : Place :=
  if place = root then root
  else if place.isAbove then place.child ".."
  else ⟨place.depth - 1, place.names.tail, by simp [place.length_names]⟩

def step (place : Place) (name : String) : Place :=
  if name = "" ∨ name = "." then place
  else if name = ".." then place.parent
  else place.child name

end Place

inductive Entry where
  | file (content : ByteArray)
  | folder

instance : DecidableEq Entry
  | .file a, .file b =>
    @decidable_of_iff (Entry.file a = .file b) (a = b) ⟨congrArg Entry.file, Entry.file.inj⟩
      (ByteArray.instDecidableEq a b)
  | .folder, .folder => .isTrue rfl
  | .file _, .folder => .isFalse nofun
  | .folder, .file _ => .isFalse nofun

/-- What keeps a text from being written into a file. -/
inductive Hindrance where
  /-- The file cannot be opened for writing. -/
  | sealed
  /-- Only so many bytes can be written. -/
  | full (room : Nat)
deriving Repr, DecidableEq

/-- All files and folders, except for the root, the working folder and the folders above it, which
are always there, and what hinders writing at some of their places. -/
structure Files where
  entries : List (Place × Entry) := []
  hindrances : List (Place × Hindrance) := []
deriving DecidableEq

def namesOf (path : String) : List String := (Text.pieces '/' path.toList).map String.ofList

/-- The greatest length of a name, in bytes. -/
def nameLimit : Nat := 255

/-- The greatest length of a path, in bytes. -/
def pathLimit : Nat := 4095

def isUsableName (name : String) : Bool :=
  name.utf8ByteSize ≤ nameLimit && name.toList.all (· != '\x00')

def isUsablePath (path : String) : Bool :=
  path != "" && path.utf8ByteSize ≤ pathLimit && (namesOf path).all isUsableName

def startOf (path : String) : Place := if path.toList.head? = some '/' then .root else .here

def foldersAbove (path : String) : List String :=
  ((namesOf path).filter fun name => name != "" && name != ".").dropLast

namespace Files

def get? (files : Files) (place : Place) : Option Entry :=
  (files.entries.find? (·.1 == place)).map (·.2)

def put (files : Files) (place : Place) (entry : Entry) : Files :=
  { files with entries := (place, entry) :: files.entries.filter (·.1 != place) }

def hindrance? (files : Files) (place : Place) : Option Hindrance :=
  files.hindrances.lookup place

def isFolder (files : Files) (place : Place) : Bool :=
  place.isAbove || place == .root || files.get? place == some .folder

def contains (files : Files) (place : Place) : Bool :=
  files.isFolder place || (files.get? place).isSome

def follow (files : Files) (place : Place) : List String → Option Place
  | [] => some place
  | name :: names => if files.isFolder place then files.follow (place.step name) names else none

/-- The place of a path, which may still be free. -/
def locate? (files : Files) (path : String) : Option Place :=
  if isUsablePath path then files.follow (startOf path) (namesOf path) else none

def exists? (files : Files) (path : String) : Bool :=
  (files.locate? path).any files.contains

def readText? (files : Files) (path : String) : Option String := do
  match ← files.get? (← files.locate? path) with
  | .file content => String.fromUTF8? content
  | .folder => none

/-- Creates folders along names and tells whether all of them are there now. A file in the way or a
name that cannot be used ends it; what has been created stays. -/
def createFolders (files : Files) (place : Place) : List String → Files × Bool
  | [] => (files, true)
  | name :: names =>
    let next := place.step name
    if files.isFolder next then files.createFolders next names
    else if (files.get? next).isSome || !isUsableName name then (files, false)
    else (files.put next .folder).createFolders next names

def createAbove (files : Files) (path : String) : Files × Bool :=
  let names := foldersAbove path
  if ("/".intercalate names).utf8ByteSize ≤ pathLimit then
    files.createFolders (startOf path) names
  else (files, false)

/-- Empties the file at a place, or creates it, writes as much of a text as there is room for, and
tells whether this is all of it. -/
def fill (files : Files) (place : Place) (text : String) : Files × Bool :=
  match files.hindrance? place with
  | none => (files.put place (.file text.toUTF8), true)
  | some .sealed => (files, false)
  | some (.full room) =>
    if text.utf8ByteSize ≤ room then (files.put place (.file text.toUTF8), true)
    else (files.put place (.file (text.toUTF8.extract 0 room)), false)

def writeText (files : Files) (path : String) (text : String) : Files × Bool :=
  match files.createAbove path with
  | (files, false) => (files, false)
  | (files, true) =>
    match files.locate? path with
    | none => (files, false)
    | some place =>
      if files.isFolder place then (files, false) else files.fill place text

end Files

end DeskCalculator.Storage
