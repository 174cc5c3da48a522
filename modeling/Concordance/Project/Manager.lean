import Concordance.Project.Query
import Concordance.Project.Update

/-!
# Managers

A project stores its index after every change, and storing may fail in two ways beside those of the
disk.

A scope has three lists, and whoever changes it may give a value that is no list for one of them, such
as a number. The value is taken over. A manager is a project that remembers which of its lists are
none; in the scope of the project they are empty. An operation that goes through such a field ends
there with a fault, and so does one that comes to storing the index.

Names of files need not be UTF-8. Those that are not are texts with characters that cannot be encoded;
which characters these are is left open (`isEncodable`). An index with such a name cannot be stored
either, and the fault comes when the draft has been opened already.

In both cases the project has changed by then. As long as all fields are lists and all characters can
be encoded a manager does what its project does.
-/

namespace Concordance

/-- The lists of a scope that are none, each with whether its value counts as true. -/
structure Misfits where
  included : Option Bool := none
  excluded : Option Bool := none
  languages : Option Bool := none
  deriving DecidableEq, Inhabited

namespace Misfits

/-- Notes of a field whether it is a list. -/
def set (x : Misfits) (value : Option Bool) : Scope.Field → Misfits
  | .included => { x with included := value }
  | .excluded => { x with excluded := value }
  | .languages => { x with languages := value }

/-- Whether judging an id goes through a field that is no list. Globs to include are looked at only if
their field counts as true, and globs to exclude only if the id is included. -/
def stopsAt (x : Misfits) (s : Scanner) (id : String) : Bool :=
  !(Path.ofString id).allParts.dropLast.any s.excluded.contains &&
    (x.included == some true ||
      x.excluded.isSome &&
        (s.scope.included.isEmpty || s.scope.included.any fun g => Glob.accepts g id))

/-- Whether a scan meets a file at which it goes through such a field. -/
def stops (x : Misfits) (s : Scanner) (d : Disk) : Bool :=
  ((d.at? s.root).elim [] (Scan.walk s.excluded.contains)).any fun way =>
    s.accepts (.ofPath ⟨"", way⟩) && !d.isFolder (s.root ++ way) &&
      (s.id? d (s.root ++ way)).any (x.stopsAt s)

end Misfits

/-- The disk once the draft of an index was opened, which leaves it empty; nothing if it cannot be
opened. -/
def Disk.openDraft? (d : Disk) (file : Path) : Option Disk :=
  match d.makeFolders file.parent.parts with
  | .error _ => none
  | .ok d => (d.write (ProjectIndex.draftOf file).parts []).toOption

/-- A project, and which of the lists in its scope are none. -/
structure Manager where
  project : Project
  misfits : Misfits := {}

namespace Manager

/-- What an operation gives: the manager and the host after it, and its answer. -/
structure Reply (α : Type) where
  manager : Manager
  host : Host
  answer : Except Project.Fault α

variable (isEncodable : Char → Bool)

/-- How storing the index of a manager on a disk fails: what disk is left, and why. The text is encoded
once the draft is open. -/
def failure? (m : Manager) (d : Disk) : Option (Disk × Project.Fault) :=
  if m.misfits != {} then some (d, .notAList)
  else if (Json.writeValue Json.indented 0 m.project.index.toJson).all isEncodable then none
  else (d.openDraft? m.project.indexFile).map fun d => (d, .unencodable)

/-- Ends what a project has done, which may have been to store its index. -/
def conclude {α : Type} (m : Manager) (h : Host) (misfits : Misfits) (stores : α → Bool)
    (r : Project.Reply α) : Reply α :=
  match r.answer with
  | .error f => ⟨{ m with project := r.project }, r.host, .error f⟩
  | .ok a =>
    let next : Manager := ⟨r.project, misfits⟩
    match if stores a then next.failure? isEncodable (m.project.seen h) else none with
    | some (disk, f) => ⟨next, { r.host with disk }, .error f⟩
    | none => ⟨next, r.host, .ok a⟩

/-- Does what a project does, unless that is cut short on the disk that it sees. -/
def unlessCut {α : Type} (m : Manager) (h : Host) (cut : Disk → Option (Except Project.Fault α))
    (r : Project.Reply α) : Project.Reply α :=
  match cut (m.project.seen h) with
  | some answer => m.project.guarded h fun d => (m.project, d, answer)
  | none => r

/-- Whether making a scanner goes through languages that are no list; the ignore rules are read
before. -/
def lacksScanner (m : Manager) (d : Disk) : Bool :=
  m.misfits.languages.isSome && (m.project.scanner d).toBool

/-- How a run is cut short. -/
def cutRun (m : Manager) (d : Disk) :
    Option (Except Project.Fault (Project.Report × List Project.Note)) :=
  if m.lacksScanner d || (m.project.scanner d).toOption.any (m.misfits.stops · d) then
    some (.error .notAList)
  else none

/-- Brings the index up to date with the disk. -/
def indexAll (m : Manager) (h : Host) (read : FileReader) (now : Number) (incremental : Bool)
    (stopAt : Option Nat) : Reply (Project.Report × List Project.Note) :=
  m.conclude isEncodable h m.misfits (fun _ => true)
    (m.unlessCut h m.cutRun (m.project.indexAll h read now incremental stopAt))

/-- Indexes one file; without a scanner there is no entry to be had. -/
def indexOne (m : Manager) (h : Host) (read : FileReader) (now : Number) (path : Path) :
    Reply (Option FileEntry) :=
  m.conclude isEncodable h m.misfits Option.isSome
    (m.unlessCut h (fun d => if m.lacksScanner d then some (.ok none) else none)
      (m.project.indexOne h read now path))

/-- Removes one file from the index; says whether it was there. -/
def removeFile (m : Manager) (h : Host) (now : Number) (path : Path) : Reply Bool :=
  m.conclude isEncodable h m.misfits id
    (m.unlessCut h (fun d => if m.lacksScanner d then some (.error .notAList) else none)
      (m.project.removeFile h now path))

/-- A change of a field of the scope: a proper one, or one to a value that is no list. -/
inductive Change where
  | proper (change : ScopeChange)
  | misfit (field : Scope.Field) (truth : Bool)
  deriving DecidableEq, Inhabited

/-- What a change does to the scope of the project. -/
def Change.inLists : Change → ScopeChange
  | .proper change => change
  | .misfit field _ => .list field (.texts [])

/-- Which lists are none after a change. -/
def Change.note (x : Misfits) : Change → Misfits
  | .proper (.list field _) => x.set none field
  | .proper _ => x
  | .misfit field truth => x.set (some truth) field

/-- Changes fields of the scope, in the index and in the settings. -/
def changeScope (m : Manager) (h : Host) (now : Number) (changes : List Change) : Reply Scope :=
  m.conclude isEncodable h (changes.foldl Change.note m.misfits) (fun _ => true)
    (m.project.changeScope h now (changes.map Change.inLists))

/-- Forgets every file. -/
def clear (m : Manager) (h : Host) (now : Number) : Reply Unit :=
  m.conclude isEncodable h m.misfits (fun _ => true) (m.project.clear h now)

/-- The symbols of one file, given by its id or by a path to it. -/
def symbolsIn (m : Manager) (d : Disk) (file : String) : Except Project.Fault (List Symbol) :=
  if !m.project.index.files.contains file && m.lacksScanner d then .error .notAList
  else .ok (m.project.symbolsIn d file)

/-- The scopes of the index and of the settings. -/
def scopes (m : Manager) : Except Project.Fault (Scope × Scope) :=
  if m.misfits = {} then .ok (m.project.index.scope, m.project.settings.scope)
  else .error .notAList

end Manager

end Concordance
