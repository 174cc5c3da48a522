import Concordance.Disk.Change
import Concordance.Json.Reader
import Concordance.Json.Writer
import Concordance.Record.Reader
import Concordance.Record.Writer

/-!
# The stored index

The index of a project is kept in one file as a JSON text. What cannot be read as an index of the current
version counts as no index at all, and then the project starts with an empty one.

A new index is first written beside the old one and then put in its place, so a save that fails leaves
the old one as it was.
-/

namespace Concordance

namespace ProjectIndex

/-- The index that a stored text holds, if it is one of the current version. The version is an integer,
and a field whose value is of another type than the field makes no index. -/
def ofStored? (contents : Bytes) : Option ProjectIndex := do
  let text ← Utf8.decode? contents
  let j ← Json.ofChars? text
  match j.field? "version" with
  | some (.number (.integer v)) =>
    if v == currentVersion then (ofJson j).toOption else none
  | _ => none

/-- The index that a stored text holds, under the project's present name; else an empty one. -/
def ofStored (project : String) (contents : Bytes) : ProjectIndex :=
  match ofStored? contents with
  | some index => { index with project }
  | none => fresh project

/-- The text in which an index is stored. -/
def stored (index : ProjectIndex) : String :=
  index.toJson.render

/-- The index that a file holds; else an empty one. -/
def load (d : Disk) (file : Path) (project : String) : ProjectIndex :=
  match d.read? file.parts with
  | some contents => ofStored project contents
  | none => fresh project

end ProjectIndex

namespace Disk

/-- Whether a folder stands at the end of a way. -/
def hasFolder (d : Disk) (way : List String) : Bool :=
  match d.at? way with
  | some (.folder _) => true
  | _ => false

/-- The disk without the entry at the end of a way. -/
def without (d : Disk) (way : List String) : Disk :=
  match Entry.remove? way d.top with
  | some top => ⟨top⟩
  | none => d

/-- The disk without the file or link at the end of a way; a folder stays. -/
def withoutFile (d : Disk) (way : List String) : Disk :=
  if d.hasFolder way then d else d.without way

/-- Gives what stands under one name in a folder another name, and takes the place of what stood there.
It fails if that is a folder. -/
def rename (d : Disk) (folder : List String) (name newName : String) : Except DiskFault Disk :=
  if d.hasFolder (folder ++ [newName]) then .error .isFolder
  else match d.at? (folder ++ [name]) with
    | some e => (d.without (folder ++ [name])).put (folder ++ [newName]) e
    | none => .error .missing

/-- Writes a draft beside a file and then moves it to the place of the file; both stand in one folder. If
that fails, no draft is left behind. -/
def writeByDraft (d : Disk) (folder : List String) (draft file : Path) (contents : Bytes) :
    Disk × Bool :=
  match d.write draft.parts contents with
  | .error _ => (d.withoutFile (folder ++ [draft.name]), false)
  | .ok d =>
    match d.rename folder draft.name file.name with
    | .ok d => (d, true)
    | .error _ => (d.withoutFile (folder ++ [draft.name]), false)

end Disk

/-- The draft of a file that keeps an index. -/
def ProjectIndex.draftOf (file : Path) : Path := file.withSuffix ".json.tmp"

/-- Stores an index in a file, with the folders that it needs. -/
def ProjectIndex.save (index : ProjectIndex) (d : Disk) (file : Path) : Disk × Bool :=
  match d.makeFolders file.parent.parts with
  | .error _ => (d, false)
  | .ok d =>
    match d.locate file.parent.parts with
    | .error _ => (d, false)
    | .ok folder =>
      d.writeByDraft folder (draftOf file) file (Utf8.bytes index.stored)

end Concordance
