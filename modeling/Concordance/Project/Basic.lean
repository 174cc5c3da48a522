import Concordance.Lock
import Concordance.Scan.Basic
import Concordance.Settings.Document
import Concordance.Store

/-!
# Projects

An open project has its settings, its index, and the file in which the index is stored. Every change
happens while the project holds the lock of that file, and ends with storing the index.
-/

namespace Concordance

/-- An open project. The `writer` tells it from others that have the same index open. -/
structure Project where
  root : List String
  settings : Settings
  indexFile : Path
  index : ProjectIndex
  writer : Nat

/-- The settings that a project's own file gives; without a readable file, the defaults. -/
def Settings.load (d : Disk) (root : List String) : Except Settings.Fault Settings :=
  match d.read? (Settings.file ⟨"/", root⟩ usualFolder).parts with
  | some contents => ofBytes contents
  | none => .ok {}

namespace Project

/-- Why something cannot be done with a project. -/
inductive Fault where
  | lock (fault : LockFault) (file : Path)
  | undecodableRules
  | outside
  | unknownField (name : String)
  | notAList
  | unencodable
  deriving DecidableEq, Inhabited

/-- The path of a project. -/
def rootPath (root : List String) : Path := ⟨"/", root⟩

/-- The file in which the index of a project is stored unless another one is given. -/
def usualIndexFile (root : List String) (settings : Settings) : Path :=
  ((rootPath root).join (.ofString settings.indexing.folder)).join (.ofString "index.json")

/-- Opens a project with given settings, which then decide on its scope. -/
def openWith (d : Disk) (root : List String) (settings : Settings) (indexFile : Option Path)
    (writer : Nat) : Project :=
  let indexFile := indexFile.getD (usualIndexFile root settings)
  let index := ProjectIndex.load d indexFile (rootPath root).toText
  { root, settings, indexFile, index := { index with scope := settings.scope }, writer }

/-- Opens a project with its own settings. A stored index, once it has been built, keeps its scope, and
the settings take it over. -/
def openStored (d : Disk) (root : List String) (settings : Settings) (indexFile : Option Path)
    (writer : Nat) : Project :=
  let p := openWith d root settings indexFile writer
  let stored := ProjectIndex.load d p.indexFile (rootPath root).toText
  if stored.indexed.isZero then p
  else { p with index := stored, settings := { settings with scope := stored.scope } }

/-- Opens a project: with the settings given, or else with its own. -/
def ofDisk (d : Disk) (root : List String) (given : Option Settings) (indexFile : Option Path)
    (writer : Nat) : Except Settings.Fault Project :=
  match given with
  | some settings => .ok (openWith d root settings indexFile writer)
  | none => (Settings.load d root).map fun s => openStored d root s indexFile writer

/-- The scanner of a project; it also passes by the folder of the index. -/
def scanner (p : Project) (d : Disk) : Except ScanFault Scanner := do
  let indexing := p.settings.indexing
  let rules ← if indexing.respectsIgnoreFile then IgnoreRules.load d p.root else .ok (.ofText [])
  return {
    root := p.root
    scope := p.index.scope
    largestFile := indexing.largestFile
    excluded := Settings.excludedFolders ++ [indexing.folder]
    rules }

/-- The absolute form of a path that may be given from the root of the project. -/
def absolute (p : Project) (path : Path) : Path := (rootPath p.root).join path

/-- The id of the file that a path leads to. -/
def idOf (p : Project) (d : Disk) (path : Path) : Except Fault String :=
  match p.scanner d with
  | .error .undecodableRules => .error .undecodableRules
  | .ok s =>
    match s.id? d (p.absolute path).parts with
    | some id => .ok id
    | none => .error .outside

/-- The project with other files in its index. -/
def withFiles (p : Project) (files : Roster String FileEntry) : Project :=
  { p with index := { p.index with files } }

/-- Counts anew, notes the time, and stores the index. -/
def persist (p : Project) (now : Number) (d : Disk) : Project × Disk :=
  let index := { p.index.counted with indexed := now }
  ({ p with index }, (index.save d p.indexFile).1)

/-- What an operation gives: the project and the host after it, and its answer. -/
structure Reply (α : Type) where
  project : Project
  host : Host
  answer : Except Fault α

/-- Does something while the project holds the lock of its index. -/
def guarded {α : Type} (p : Project) (h : Host)
    (body : Disk → Project × Disk × Except Fault α) : Reply α :=
  let file := lockFile p.indexFile
  match h.acquire p.writer file with
  | (h, .error f) => ⟨p, h, .error (.lock f file)⟩
  | (h, .ok ()) =>
    let (project, disk, answer) := body h.disk
    ⟨project, ({ h with disk } : Host).release p.writer file, answer⟩

/-- The disk that an operation sees, once the lock was asked for. -/
def seen (p : Project) (h : Host) : Disk :=
  (h.acquire p.writer (lockFile p.indexFile)).1.disk

end Project

end Concordance
