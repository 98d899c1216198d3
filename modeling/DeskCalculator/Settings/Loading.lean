import DeskCalculator.Settings.Basic
import DeskCalculator.Storage.Files

/-!
Loading settings from files. A file that is asked for must be there; the default one is created with
default settings when it is missing.
-/
namespace DeskCalculator.Settings

open Storage

inductive LoadFault where
  | missing
  | inaccessible
  | malformed
deriving Repr, DecidableEq

def loadFrom (path : String) (files : Files) : Except LoadFault Settings :=
  match files.readText? path with
  | none => .error .inaccessible
  | some text =>
    match ofText? text with
    | some settings => .ok settings
    | none => .error .malformed

/-- Writes settings to the file at a path and tells whether they are there now. If no document can
hold them, only the folders above the file are created. -/
def saveTo (settings : Settings) (path : String) (files : Files) : Files × Bool :=
  if settings.recentLimit < countBound then files.writeText path settings.text
  else ((files.createAbove path).1, false)

theorem saveTo_of_lt {settings : Settings} (h : settings.recentLimit < countBound) (path : String)
    (files : Files) : settings.saveTo path files = files.writeText path settings.text :=
  if_pos h

theorem saveTo_default (path : String) (files : Files) :
    saveTo {} path files = files.writeText path (text {}) :=
  saveTo_of_lt (by decide) path files

def load (explicit : Option String) (defaultPath : String) (files : Files) :
    Except LoadFault Settings × Files :=
  match explicit with
  | some path => (if files.exists? path then loadFrom path files else .error .missing, files)
  | none =>
    if files.exists? defaultPath then (loadFrom defaultPath files, files)
    else
      match saveTo {} defaultPath files with
      | (files, true) => (.ok {}, files)
      | (files, false) => (.error .inaccessible, files)

end DeskCalculator.Settings
