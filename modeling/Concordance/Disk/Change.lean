import Concordance.Disk.Resolve

/-!
# Changes of a disk

Writing a file, making folders and links, and taking an entry away. A file is written through a link that
stands in its place.
-/

namespace Concordance.Disk

/-- The way of the file that a write to a path from a folder goes to, through less than `fuel` links.
Of the names of the path only the last may be missing. -/
def writeWay (d : Disk) : Nat → List String → List String → Except DiskFault (List String)
  | 0, _, _ => .error .tooManyLinks
  | fuel + 1, way, names =>
    match d.advance way names with
    | .arrived stop =>
      match d.at? stop with
      | some (.file _) => .ok stop
      | _ => .error .isFolder
    | .link folder target rest => d.writeWay fuel (startOf folder target) (target.parts ++ rest)
    | .failed .missing =>
      match names.getLast?, d.advance way names.dropLast with
      | some name, .arrived folder => .ok (folder ++ [name])
      | _, _ => .error .missing
    | .failed f => .error f

/-- Puts an entry at the end of a way. -/
def put (d : Disk) (way : List String) (e : Entry) : Except DiskFault Disk :=
  match Entry.put? e way d.top with
  | some top => .ok ⟨top⟩
  | none => .error .missing

/-- Writes a file in a folder that exists. -/
def write (d : Disk) (names : List String) (contents : Bytes) : Except DiskFault Disk := do
  d.put (← d.writeWay linkBound [] names) (.file contents)

/-- Makes the folders along a path that are missing, after those that were looked at already. -/
def makeFoldersFrom (d : Disk) : List String → List String → Except DiskFault Disk
  | _, [] => .ok d
  | done, name :: rest =>
    match d.locate (done ++ [name]) with
    | .ok way =>
      match d.at? way with
      | some (.folder _) => d.makeFoldersFrom (done ++ [name]) rest
      | _ => .error (if rest.isEmpty then .alreadyThere else .notAFolder)
    | .error .missing => do
      let folder ← d.locate done
      if (d.at? (folder ++ [name])).isSome then .error .alreadyThere
      else do
        let d ← d.put (folder ++ [name]) (.folder [])
        d.makeFoldersFrom (done ++ [name]) rest
    | .error f => .error (if rest.isEmpty then .alreadyThere else f)

/-- Makes the folders along a path that are missing. -/
def makeFolders (d : Disk) (names : List String) : Except DiskFault Disk :=
  d.makeFoldersFrom [] names

/-- Writes a file, with the folders that it needs. -/
def writeDeep (d : Disk) (names : List String) (contents : Bytes) : Except DiskFault Disk := do
  (← d.makeFolders names.dropLast).write names contents

/-- Makes a link, with the folders that it needs. -/
def link (d : Disk) (names : List String) (target : Path) : Except DiskFault Disk := do
  let d ← d.makeFolders names.dropLast
  let folder ← d.locate names.dropLast
  match names.getLast? with
  | none => .error .alreadyThere
  | some name =>
    if (d.at? (folder ++ [name])).isSome then .error .alreadyThere
    else d.put (folder ++ [name]) (.link target)

/-- Takes away what stands at the end of a path; of a link, the link itself. -/
def delete (d : Disk) (names : List String) : Except DiskFault Disk := do
  let folder ← d.locate names.dropLast
  match names.getLast? with
  | none => .error .isFolder
  | some name =>
    match Entry.remove? (folder ++ [name]) d.top with
    | some top => .ok ⟨top⟩
    | none => .error .missing

end Concordance.Disk
