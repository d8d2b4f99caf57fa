import ReportTree.Disk.Basic
import ReportTree.Log
import ReportTree.Settings.Basic
import ReportTree.Toml.Document

/-!
# Loading settings

The settings of a command come from the defaults, from two files in the working directory that are
found by their names, and from files that are named to it; later ones win.

A file that is found and cannot be read as a settings file is logged and counts as empty; one that
is named must be readable.
-/

namespace ReportTree.Settings

open Toml (Table)

/-- Why a settings file is refused. -/
inductive FileError where
  | closed (path : Text) (e : Disk.OpenError)
  | malformed (path : Text)
  deriving DecidableEq

/-- The message about a refused file. -/
def FileError.message : FileError → Text
  | closed path e => "Error loading TOML from " ++ path ++ ": " ++ e.message path
  | malformed path => "Error decoding TOML from " ++ path

/-- Why loading comes to its end. -/
inductive LoadError where
  | refused (e : FileError)
  | conflict (c : Toml.Conflict)
  | notUtf8 (fault : Utf8.Fault)
  /-- A value that had to be warned of cannot be written. -/
  | unwritable
  | invalidPath (path : Text) (flaw : Path.Flaw)
  deriving DecidableEq

/-- The message of the error. -/
def LoadError.message : LoadError → Text
  | refused e => e.message
  | conflict c => c.message
  | notUtf8 fault => fault.message
  | unwritable => Numeral.longMessage
  | invalidPath path flaw => flaw.message path

/-- The table that a settings file holds. -/
def readFile (d : Disk) (path : Text) : Except LoadError Table :=
  match d.readText path with
  | .error (.closed e) => .error (.refused (.closed path e))
  | .error (.invalidPath flaw) => .error (.invalidPath path flaw)
  | .error (.notUtf8 fault) => .error (.notUtf8 fault)
  | .ok t =>
    match Toml.read t with
    | .ok table => .ok table
    | .error .malformed => .error (.refused (.malformed path))
    | .error (.conflict c) => .error (.conflict c)

/-- A settings file. One that is `named` by the user must be readable. -/
structure Source where
  path : Text
  named : Bool

/-- A file of this name holds settings of several programs. -/
def sharedName : Text := "pyproject.toml"

/-- The name of the table with the settings in a shared file. -/
def sharedTable : Text := "tool.statustree"

/-- A file of this name holds settings only. -/
def ownName : Text := "statustree.toml"

/-- The part of a file's table that holds settings, if the file has any. -/
def settingsOf? (path : Text) (t : Table) : Option Table :=
  if Path.name path = sharedName then
    let inner := table t sharedTable
    if inner.isEmpty then none else some inner
  else some t

/-- What has been loaded, and what has been logged. -/
structure Loaded where
  layer : Layer
  log : List Log.Record := []

/-- Loading that came to its end, and what had been logged. -/
structure Stopped where
  error : LoadError
  log : List Log.Record

/-- What is logged about a value that was passed over. -/
def Warning.toRecord (w : Warning) : Log.Record := { level := Log.warning, text := w.message }

/-- The records about what was passed over in a layer. -/
def Layer.records (l : Layer) : List Log.Record := l.warnings.map Warning.toRecord

/-- The table of a source, with what is logged about it. -/
def Source.read (d : Disk) (s : Source) : Except LoadError (Table × List Log.Record) :=
  match readFile d s.path with
  | .ok t => .ok (t, [])
  | .error (.refused e) =>
    if s.named then .error (.refused e)
    else .ok ([], [{ level := Log.error, text := e.message }])
  | .error e => .error e

/-- Loads one more file. -/
def Loaded.add (d : Disk) (l : Loaded) (s : Source) : Except Stopped Loaded :=
  match s.read d with
  | .error e => .error { error := e, log := l.log }
  | .ok (t, records) =>
    match settingsOf? s.path t with
    | none => .ok { l with log := l.log ++ records }
    | some inner =>
      let upper := Layer.ofTable inner (some s.path)
      if upper.warnings.any Warning.isUnwritable then
        let written := upper.warnings.takeWhile (!Warning.isUnwritable ·)
        .error { error := .unwritable, log := l.log ++ records ++ written.map Warning.toRecord }
      else .ok { layer := upper.onto l.layer, log := l.log ++ records ++ upper.records }

/-- The settings files in the directory `place` that are there. -/
def foundSources (d : Disk) (place : Text) : List Source :=
  let paths := [sharedName, ownName].map fun name => place ++ "/" ++ name
  (paths.filter d.isFile).map fun path => { path := path, named := false }

/-- Loads the settings for the directory `place`: its own files, unless they are to be ignored, then
the files at the paths `named`. -/
def load (d : Disk) (place : Text) (named : List Text) (ignoreFound : Bool) :
    Except Stopped Loaded :=
  let found := if ignoreFound then [] else foundSources d place
  let sources := found ++ named.map fun path => { path := Path.normal path, named := true }
  sources.foldlM (Loaded.add d) { layer := .defaults }

end ReportTree.Settings
