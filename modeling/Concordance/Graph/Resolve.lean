import Concordance.Language.Extension

/-!
# Resolving imports

The source of an import is a path or a dotted name. It means a file of the project if it names one
directly, without its ending, or as a folder with an index file. A source that begins with dots is
taken from the folder of the importing file; others may also be taken from the root.
-/

namespace Concordance.Graph

/-- Files that stand for their folder. -/
def indexFiles : List String :=
  ["index.js", "index.ts", "index.tsx", "index.jsx", "__init__.py", "mod.rs"]

/-- The text with every dot written as a slash. -/
def dotsToSlashes (cs : List Char) : String :=
  .ofList (Chars.replaceChar '.' ['/'] cs)

/-- The folder that a number of steps up lead to. -/
def upFrom (folder : Path) : Nat → Path
  | 0 => folder
  | n + 1 => upFrom folder.parent n

/-- A source of dots and a dotted name: one dot is the folder itself, every further one a step up. -/
def dottedCandidate (folder : Path) (cs : List Char) : String :=
  let dots := (cs.takeWhile (· == '.')).length
  let rest := dotsToSlashes (cs.drop dots)
  let start := upFrom folder (dots - 1)
  if rest.isEmpty then start.toText else (start.join (.ofString rest)).toText

/-- The source as a path from a folder. -/
def pathCandidate (folder : Path) (source : String) : String :=
  (folder.join (.ofString source)).normalized.toText

/-- The files or folders that a source may mean, in the order in which they are tried. -/
def candidates (source : String) (folder : Path) : List String :=
  let cs := source.toList
  if ['.', '/'].isPrefixOf cs || ['.', '.', '/'].isPrefixOf cs then [pathCandidate folder source]
  else if ['.'].isPrefixOf cs then [dottedCandidate folder cs]
  else
    [pathCandidate folder source, source] ++ if cs.contains '/' then [] else [dotsToSlashes cs]

/-- The text without `./` at its start. -/
def dropHere (s : String) : String :=
  if Text.startsWith "./" s then Text.drop 2 s else s

/-- The files that a candidate may mean, in the order in which they are tried. -/
def filesFor (candidate : String) : List String :=
  let base := dropHere candidate
  base :: (Language.allExtensions.map (base ++ ·) ++ indexFiles.map (base ++ "/" ++ ·))

/-- The known file that a source means in an importing file. -/
def resolve? (source importer : String) (known : List String) : Option String :=
  ((candidates source (Path.ofString importer).parent).flatMap filesFor).find? fun f =>
    known.contains f

end Concordance.Graph
