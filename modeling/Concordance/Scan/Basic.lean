import Concordance.Disk.Resolve
import Concordance.Glob
import Concordance.Language.Extension
import Concordance.Scan.Ignore
import Concordance.Settings.Basic

/-!
# Scanning a project

A scan finds the files of a project that are to be indexed. It goes through the folders from the top; in
each folder it takes the files by name, and then the folders by name, passing by those that are excluded.
It does not enter links to folders.

A file is found if its language is accepted, its *id* is in scope, and it is not too large. The id is the
real way to the file, so a link to a file counts as the file that it leads to; a link out of the project
has no id.
-/

namespace Concordance

/-- What a scan keeps to. -/
structure Scanner where
  root : List String
  scope : Scope := {}
  largestFile : Int := 1000000
  excluded : List String := Settings.excludedFolders
  rules : IgnoreRules := .ofText []

/-- Why a scanner cannot be made: its ignore file is not UTF-8. -/
inductive ScanFault where
  | undecodableRules
  deriving DecidableEq, Inhabited

/-- The ignore rules of a project; without a readable ignore file there are none. -/
def IgnoreRules.load (d : Disk) (root : List String) : Except ScanFault IgnoreRules :=
  match d.read? (root ++ [".gitignore"]) with
  | none => .ok (.ofText [])
  | some contents =>
    match Utf8.decode? contents with
    | none => .error .undecodableRules
    | some text => .ok (.ofText text)

namespace Scanner

/-- The languages that a scope names, those that are known; none means all. -/
def languages (s : Scanner) : List Language :=
  s.scope.languages.filterMap Language.ofName?

/-- Whether files of a language are indexed. -/
def accepts (s : Scanner) (l : Language) : Bool :=
  l != .unknown && (s.languages.isEmpty || s.languages.contains l)

/-- Whether an id is out of scope. -/
def ignores (s : Scanner) (id : String) : Bool :=
  (Path.ofString id).allParts.dropLast.any s.excluded.contains ||
    (!s.scope.included.isEmpty && !s.scope.included.any fun g => Glob.accepts g id) ||
    (s.scope.excluded.any fun g => Glob.accepts g id) ||
    s.rules.ignores (.ofString id)

/-- The id of what a path leads to: its real way below the root of the project. -/
def id? (s : Scanner) (d : Disk) (names : List String) : Option String :=
  (Path.below? ⟨"/", s.root⟩ ⟨"/", d.realWay names⟩).map fun parts => Path.toText ⟨"", parts⟩

end Scanner

/-! ### Walking through folders -/

namespace Scan

/-- What a walk meets under a name: a file, or a folder with the files in it. -/
structure Visit where
  name : String
  inside : Option (List (List String))
  deriving DecidableEq, Inhabited

/-- Sorts by name. -/
def byName (visits : List Visit) : List Visit :=
  visits.mergeSort fun a b => a.name ≤ b.name

/-- The files among what a walk meets, then those in its folders, by name. -/
def inOrder (visits : List Visit) : List (List String) :=
  (byName (visits.filter (·.inside.isNone))).map (fun v => [v.name]) ++
    (byName (visits.filter (·.inside.isSome))).flatMap fun v =>
      (v.inside.getD []).map (v.name :: ·)

mutual

/-- The ways to all files and links in a folder that do not lead through a folder that is passed by. -/
def inside (passesBy : String → Bool) : Entry → Option (List (List String))
  | .folder entries => some (inOrder (visits passesBy entries))
  | _ => none

/-- What a walk meets in a folder. -/
def visits (passesBy : String → Bool) : List (String × Entry) → List Visit
  | [] => []
  | f :: rest => visit passesBy f ++ visits passesBy rest

/-- What a walk meets under a name; folders may be passed by. -/
def visit (passesBy : String → Bool) : String × Entry → List Visit
  | (name, e) =>
    if e matches .folder _ && passesBy name then [] else [⟨name, inside passesBy e⟩]

end

/-- The ways that a walk meets from an entry on. -/
def walk (passesBy : String → Bool) (e : Entry) : List (List String) :=
  (inside passesBy e).getD []

/-- A file that a scan finds: the way on which it was met, its id, and what it holds. -/
structure Found where
  way : List String
  id : String
  contents : Bytes
  deriving DecidableEq, Inhabited

/-- Judges a file that a walk has met. -/
def judge (s : Scanner) (d : Disk) (way : List String) : Option Found := do
  let names := s.root ++ way
  if s.accepts (.ofPath ⟨"", way⟩) then
    let contents ← d.read? names
    let id ← s.id? d names
    if s.ignores id || s.largestFile < contents.length then none
    else some ⟨way, id, contents⟩
  else none

end Scan

/-- The files of a project that are to be indexed, in the order in which they are met. -/
def Scanner.scan (s : Scanner) (d : Disk) : List Scan.Found :=
  match d.at? s.root with
  | some e => (Scan.walk s.excluded.contains e).filterMap (Scan.judge s d)
  | none => []

end Concordance
