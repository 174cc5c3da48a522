import Concordance.Project.Run

/-!
# Changing a project

Single files are indexed and removed, the scope is changed, and the index is cleared.
-/

namespace Concordance

/-- A value for a field of a scope. -/
inductive ScopeValue where
  | text (value : String)
  | texts (values : List String)
  deriving DecidableEq, Inhabited

namespace ScopeValue

/-- A value as a list; a text is the list of its characters. -/
def toList : ScopeValue → List String
  | .text s => s.toList.map Char.toString
  | .texts l => l

end ScopeValue

/-- The fields of a scope that are lists. -/
inductive Scope.Field where
  | included
  | excluded
  | languages
  deriving DecidableEq, Inhabited

/-- A change of one field of a scope, or of a field that there is none of. -/
inductive ScopeChange where
  | name (value : String)
  | list (field : Scope.Field) (value : ScopeValue)
  | unknown (field : String)
  deriving DecidableEq, Inhabited

namespace Scope

/-- The scope with another list in a field. -/
def withList (s : Scope) : Field → List String → Scope
  | .included, included => { s with included }
  | .excluded, excluded => { s with excluded }
  | .languages, languages => { s with languages }

/-- The scope with one field changed, or the field that does not exist. -/
def set (s : Scope) : ScopeChange → Except String Scope
  | .name name => .ok { s with name }
  | .list field value => .ok (s.withList field value.toList)
  | .unknown field => .error field

/-- The scope with several fields changed, or the first field that does not exist. -/
def setAll (s : Scope) (changes : List ScopeChange) : Except String Scope :=
  changes.foldlM set s

end Scope

namespace Project

/-- Reads one file, whatever its stored entry; nothing if there is no entry to be had. -/
def entryFor? (p : Project) (read : FileReader) (d : Disk) (path : Path) :
    Option (String × FileEntry) :=
  match p.idOf d path, d.read? (p.absolute path).parts with
  | .ok id, some contents =>
    match read (p.absolute path) contents id with
    | .ok (some e) => some (id, e)
    | _ => none
  | _, _ => none

/-- Indexes one file. -/
def indexOne (p : Project) (h : Host) (read : FileReader) (now : Number) (path : Path) :
    Reply (Option FileEntry) :=
  p.guarded h fun d =>
    match p.entryFor? read d path with
    | none => (p, d, .ok none)
    | some (id, e) =>
      let (p, d) := (p.withFiles (p.index.files.put id e)).persist now d
      (p, d, .ok (some e))

/-- Removes one file from the index; says whether it was there. -/
def removeFile (p : Project) (h : Host) (now : Number) (path : Path) : Reply Bool :=
  p.guarded h fun d =>
    match p.idOf d path with
    | .error f => (p, d, .error f)
    | .ok id =>
      if p.index.files.contains id then
        let (p, d) := (p.withFiles (p.index.files.erase id)).persist now d
        (p, d, .ok true)
      else (p, d, .ok false)

/-- Changes fields of the scope, in the index and in the settings. -/
def changeScope (p : Project) (h : Host) (now : Number) (changes : List ScopeChange) :
    Reply Scope :=
  p.guarded h fun d =>
    match p.index.scope.setAll changes, p.settings.scope.setAll changes with
    | .ok scope, .ok given =>
      let p := { p with
        index := { p.index with scope }
        settings := { p.settings with scope := given } }
      let (p, d) := p.persist now d
      (p, d, .ok scope)
    | .error field, _ | _, .error field => (p, d, .error (.unknownField field))

/-- Forgets every file. -/
def clear (p : Project) (h : Host) (now : Number) : Reply Unit :=
  p.guarded h fun d =>
    let index := { ProjectIndex.fresh (rootPath p.root).toText with scope := p.index.scope }
    let (p, d) := { p with index }.persist now d
    (p, d, .ok ())

end Project

end Concordance
