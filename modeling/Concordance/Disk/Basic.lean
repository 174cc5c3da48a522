import Concordance.Chars.Utf8
import Concordance.Path

/-!
# Disks

A disk is a tree of folders, files and links. A *way* is a list of names from the top of the disk to an
entry, through folders only; a path may also go through links and up again, see `Disk.locate`.
-/

namespace Concordance

/-- What stands under a name in a folder. -/
inductive Entry where
  | file (contents : Bytes)
  | link (target : Path)
  | folder (entries : List (String × Entry))
  deriving Inhabited

/-- A disk, given by what stands at its top. -/
structure Disk where
  top : List (String × Entry) := []
  deriving Inhabited

namespace Entry

/-- What stands at the end of a way through folders. -/
def at? : List String → List (String × Entry) → Option Entry
  | [], entries => some (.folder entries)
  | name :: way, entries =>
    match entries.lookup name with
    | some (.folder inner) => at? way inner
    | some e => if way.isEmpty then some e else none
    | none => none

/-- Puts an entry under a name, in the place of an older one or at the end. -/
def set (name : String) (e : Entry) : List (String × Entry) → List (String × Entry)
  | [] => [(name, e)]
  | f :: rest => if f.1 == name then (name, e) :: rest else f :: set name e rest

/-- Puts an entry at the end of a way; the folders on the way must exist. -/
def put? (e : Entry) : List String → List (String × Entry) → Option (List (String × Entry))
  | [], _ => none
  | [name], entries => some (set name e entries)
  | name :: way, entries =>
    match entries.lookup name with
    | some (.folder inner) => (put? e way inner).map fun inner => set name (.folder inner) entries
    | _ => none

/-- Takes away what stands at the end of a way. -/
def remove? : List String → List (String × Entry) → Option (List (String × Entry))
  | [], _ => none
  | [name], entries =>
    if (entries.lookup name).isSome then some (entries.filter fun f => !(f.1 == name)) else none
  | name :: way, entries =>
    match entries.lookup name with
    | some (.folder inner) => (remove? way inner).map fun inner => set name (.folder inner) entries
    | _ => none

mutual

/-- The number of steps that following every link once takes. -/
def linkSteps : Entry → Nat
  | .file _ => 0
  | .link target => target.parts.length + 1
  | .folder entries => linkStepsAll entries

/-- The number of steps that following the links of a folder takes. -/
def linkStepsAll : List (String × Entry) → Nat
  | [] => 0
  | f :: rest => linkStepsOf f + linkStepsAll rest

/-- The number of steps that following the links under a name takes. -/
def linkStepsOf : String × Entry → Nat
  | (_, e) => linkSteps e

end

end Entry

/-- What stands at the end of a way. -/
def Disk.at? (d : Disk) (way : List String) : Option Entry :=
  Entry.at? way d.top

end Concordance
