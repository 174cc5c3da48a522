import Concordance.Chars.Basic

/-!
# Paths

A path is a root, for an absolute one, and the names of the folders and the file on the way. Empty
names and single dots are no names; double dots are kept until a path is normalized.

The *suffix* of a name starts at its last dot, if something stands before and after that dot; the
*stem* is what stands before the suffix.
-/

namespace Concordance

/-- A path: the root, empty for a relative path, and the names on the way. -/
structure Path where
  root : String
  parts : List String
  deriving DecidableEq, Inhabited

namespace Path

/-- Leading slashes are the root: two of them stay two, any other number is one. -/
def rootOf (cs : List Char) : String :=
  match (cs.takeWhile (· == '/')).length with
  | 0 => ""
  | 2 => "//"
  | _ => "/"

/-- The names of a written path. -/
def namesOf (cs : List Char) : List String :=
  ((Chars.splitOn '/' cs).map String.ofList).filter fun p => p != "" && p != "."

/-- The path that a text writes. -/
def ofString (s : String) : Path :=
  ⟨rootOf s.toList, namesOf s.toList⟩

/-- The text of a path; the path without names is a dot. -/
def toText (p : Path) : String :=
  if p.root.isEmpty && p.parts.isEmpty then "." else p.root ++ "/".intercalate p.parts

/-- Whether a path has a root. -/
def isAbsolute (p : Path) : Bool := !p.root.isEmpty

/-- All parts of a path, the root as the first of them. -/
def allParts (p : Path) : List String :=
  if p.isAbsolute then p.root :: p.parts else p.parts

/-- The path `q` taken from `p`: an absolute one is itself. -/
def join (p q : Path) : Path :=
  if q.isAbsolute then q else ⟨p.root, p.parts ++ q.parts⟩

/-- The path without its last name. -/
def parent (p : Path) : Path := ⟨p.root, p.parts.dropLast⟩

/-- The last name. -/
def name (p : Path) : String := p.parts.getLast?.getD ""

/-- The stem and the suffix of a name. -/
def splitSuffix (name : String) : String × String :=
  let cs := name.toList
  let ending := cs.reverse.takeWhile (· != '.')
  let stem := cs.take (cs.length - ending.length - 1)
  if ending.isEmpty || stem.isEmpty then (name, "")
  else (.ofList stem, .ofList (cs.drop stem.length))

/-- The suffix of the last name. -/
def suffix (p : Path) : String := (splitSuffix p.name).2

/-- The last name without its suffix. -/
def stem (p : Path) : String := (splitSuffix p.name).1

/-- The path with another suffix of its last name. -/
def withSuffix (p : Path) (suffix : String) : Path :=
  ⟨p.root, p.parts.dropLast ++ [p.stem ++ suffix]⟩

/-- Goes one name further on a normalized way, given last name first: a double dot takes a name
back, and above the root there is nothing. -/
def normalStep (rooted : Bool) (way : List String) (part : String) : List String :=
  if part != ".." then part :: way
  else match way with
    | [] => if rooted then [] else [".."]
    | last :: rest => if last == ".." then ".." :: way else rest

/-- The path with its double dots worked off. -/
def normalized (p : Path) : Path :=
  ⟨p.root, (p.parts.foldl (normalStep p.isAbsolute) []).reverse⟩

/-- The parts of `p` below `base`, if it lies there. -/
def below? (base p : Path) : Option (List String) :=
  if p.root == base.root && base.parts.isPrefixOf p.parts then
    some (p.parts.drop base.parts.length)
  else none

end Path

end Concordance
