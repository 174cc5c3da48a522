import Concordance.Disk.Basic

/-!
# Paths on a disk

A path may go through links, and a double dot goes up from the folder that was reached. There are two
ways to go along a path:

* `Disk.locate` goes along it for good. It fails where a name is missing, where a file stands in place of
  a folder, and after forty links.
* `Disk.realWay` only works off the links that it meets and takes every other name as it is. It never
  fails; a link that leads back to itself is taken as it is, together with all that follows it.
-/

namespace Concordance

/-- Why something on a disk cannot be done. -/
inductive DiskFault where
  | missing
  | notAFolder
  | alreadyThere
  | isFolder
  | tooManyLinks
  deriving DecidableEq, Inhabited

namespace Disk

/-- How far one gets along a path before the next link. -/
inductive Progress where
  | arrived (way : List String)
  | link (way : List String) (target : Path) (rest : List String)
  | failed (fault : DiskFault)
  deriving Inhabited

/-- Goes along names from a folder up to the next link. -/
def advance (d : Disk) : List String → List String → Progress
  | way, [] => .arrived way
  | way, name :: rest =>
    match d.at? way with
    | some (.folder entries) =>
      if name == ".." then advance d way.dropLast rest
      else match entries.lookup name with
        | none => .failed .missing
        | some (.link target) => .link way target rest
        | some _ => advance d (way ++ [name]) rest
    | _ => .failed .notAFolder

/-- Where the target of a link in a folder starts. -/
def startOf (folder : List String) (target : Path) : List String :=
  if target.isAbsolute then [] else folder

/-- Goes along names from a folder, through less than `fuel` links. -/
def follow (d : Disk) : Nat → List String → List String → Except DiskFault (List String)
  | 0, _, _ => .error .tooManyLinks
  | fuel + 1, way, names =>
    match d.advance way names with
    | .arrived way => .ok way
    | .link way target rest => d.follow fuel (startOf way target) (target.parts ++ rest)
    | .failed f => .error f

/-- One more than the number of links that a path may go through. -/
def linkBound : Nat := 41

/-- The way to what stands at the end of a path. -/
def locate (d : Disk) (names : List String) : Except DiskFault (List String) :=
  d.follow linkBound [] names

/-- What stands at the end of a path. -/
def entry? (d : Disk) (names : List String) : Option Entry :=
  match d.locate names with
  | .ok way => d.at? way
  | .error _ => none

/-- Whether a path leads to a folder. -/
def isFolder (d : Disk) (names : List String) : Bool :=
  match d.entry? names with
  | some (.folder _) => true
  | _ => false

/-- The contents of the file at the end of a path. -/
def read? (d : Disk) (names : List String) : Option Bytes :=
  match d.entry? names with
  | some (.file contents) => some contents
  | _ => none

/-- What is left of a path: a name, or the end of the target of a link. -/
inductive Stop where
  | name (name : String)
  | endOf (link : List String)
  deriving DecidableEq, Inhabited

/-- A path whose links are being worked off: the way so far, what is left, the links that were entered,
and what those lead to that have been left again. -/
structure Trail where
  way : List String
  rest : List Stop
  entered : List (List String) := []
  known : List (List String × List String) := []
  deriving Inhabited

/-- The names that are left. -/
def Trail.namesLeft (t : Trail) : List String :=
  t.rest.filterMap fun
    | .name n => some n
    | .endOf _ => none

/-- Goes one stop further, or ends with a way. -/
def Trail.step (d : Disk) (t : Trail) : Trail ⊕ List String :=
  match t.rest with
  | [] => .inr t.way
  | .endOf link :: rest => .inl { t with rest, known := (link, t.way) :: t.known }
  | .name name :: rest =>
    if name == ".." then .inl { t with way := t.way.dropLast, rest }
    else
      let next := t.way ++ [name]
      match d.at? next with
      | some (.link target) =>
        match t.known.lookup next with
        | some way => .inl { t with way, rest }
        | none =>
          if t.entered.contains next then
            .inr (Path.normalized ⟨"/", next ++ ({ t with rest } : Trail).namesLeft⟩).parts
          else
            .inl { t with
              way := startOf t.way target
              rest := target.parts.map .name ++ .endOf next :: rest
              entered := next :: t.entered }
      | _ => .inl { t with way := next, rest }

/-- Goes along a trail to its end. Each link is entered once, which bounds the number of steps. -/
def Trail.run (d : Disk) : Nat → Trail → List String
  | 0, t => t.way
  | fuel + 1, t =>
    match t.step d with
    | .inl t => t.run d fuel
    | .inr way => way

/-- The way along a path with its links worked off. -/
def realWay (d : Disk) (names : List String) : List String :=
  Trail.run d (names.length + Entry.linkStepsAll d.top + 1)
    { way := [], rest := names.map .name }

end Disk

end Concordance
