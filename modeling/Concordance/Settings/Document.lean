import Concordance.Chars.Case
import Concordance.Chars.Utf8
import Concordance.Language.Basic
import Concordance.Settings.Basic
import Concordance.Toml.Document

/-!
# Settings as a document

Settings are read from a TOML document with a table each for the project, the indexing and the search.
What is missing, and what is not of the right kind, has its default; names of languages that are unknown
are dropped. A text that is no document at all gives the defaults.

Two faults are not mended: bytes that are no UTF-8, and a value where one of the three tables should be.
-/

namespace Concordance.Settings

/-- Why settings cannot be read. -/
inductive Fault where
  | undecodable
  | notATable (name : String)
  deriving DecidableEq, Inhabited

/-- The fields of a table. -/
abbrev Fields := List (String × Toml)

/-- A field as a positive integer. -/
def positive (fields : Fields) (key : String) (default : Int) : Int :=
  match fields.lookup key with
  | some (.number (.integer i)) => if 0 < i then i else default
  | _ => default

/-- The texts of an array that has nothing else. -/
def texts? : Toml → Option (List String)
  | .array items => items.mapM fun
    | .text s => some s
    | _ => none
  | _ => none

/-- A field as a list of texts. -/
def textList (fields : Fields) (key : String) (default : List String) : List String :=
  match fields.lookup key with
  | some v => (texts? v).getD default
  | none => default

/-- A field as a truth value. -/
def truth (fields : Fields) (key : String) (default : Bool) : Bool :=
  ((fields.lookup key).map Toml.isTrue).getD default

/-- A field as a text; every value has one. -/
def shown (fields : Fields) (key : String) (default : String) : String :=
  ((fields.lookup key).map Toml.display).getD default

/-- The known languages among names in any case. -/
def knownLanguages (names : List String) : List String :=
  (names.map Text.lower).filter fun n => (Language.ofName? n).isSome

/-- The scope that a table gives. -/
def readScope (fields : Fields) : Scope :=
  { name := shown fields "name" ""
    included := textList fields "include" ["**/*"]
    excluded := textList fields "exclude" []
    languages := knownLanguages (textList fields "languages" []) }

/-- The manner of indexing that a table gives; an empty folder name is none. -/
def readIndexing (fields : Fields) : Indexing :=
  let folder := shown fields "index_dir" usualFolder
  { workers := positive fields "max_workers" 4
    largestFile := positive fields "max_file_size_bytes" 1000000
    respectsIgnoreFile := truth fields "respect_gitignore" true
    folder := if folder.isEmpty then usualFolder else folder }

/-- The manner of searching that a table gives. -/
def readSearching (fields : Fields) : Searching :=
  { limit := positive fields "default_limit" 50
    fuzzy := truth fields "fuzzy" true }

/-- One of the tables of the document; a missing one is empty. -/
def tableOf (document : Fields) (name : String) : Except Fault Fields :=
  match document.lookup name with
  | none => .ok []
  | some (.table fields) => .ok fields
  | some _ => .error (.notATable name)

/-- The settings of a document. -/
def ofDocument (document : Fields) : Except Fault Settings := do
  let scope := readScope (← tableOf document "project")
  let indexing := readIndexing (← tableOf document "indexing")
  let searching := readSearching (← tableOf document "search")
  return { scope, indexing, searching }

/-- The settings of a text. -/
def ofText (text : List Char) : Except Fault Settings :=
  match Toml.parse? text with
  | none => .ok {}
  | some document => ofDocument document

/-- The settings of a file. -/
def ofBytes (bytes : Bytes) : Except Fault Settings :=
  match Utf8.decode? bytes with
  | none => .error .undecodable
  | some text => ofText text

/-- A line that gives a field its value. -/
def line (key : String) (value : Toml) : List Char :=
  key.toList ++ " = ".toList ++ value.write

/-- The lines of the document that settings are written as. -/
def lines (s : Settings) : List (List Char) :=
  ["# polyindex configuration".toList,
   [],
   "[project]".toList,
   line "name" (.text s.scope.name),
   line "include" (.texts s.scope.included),
   line "exclude" (.texts s.scope.excluded),
   line "languages" (.texts s.scope.languages),
   [],
   "[indexing]".toList,
   line "max_workers" (.number (.integer s.indexing.workers)),
   line "max_file_size_bytes" (.number (.integer s.indexing.largestFile)),
   line "respect_gitignore" (.bool s.indexing.respectsIgnoreFile),
   line "index_dir" (.text s.indexing.folder),
   [],
   "[search]".toList,
   line "default_limit" (.number (.integer s.searching.limit)),
   line "fuzzy" (.bool s.searching.fuzzy)]

/-- The document that settings are written as; every line ends with a newline. -/
def write (s : Settings) : List Char :=
  s.lines.flatMap fun l => l ++ ['\n']

/-- The document that a project starts from. -/
def template : String :=
  "# polyindex configuration
# Copy this file to <project>/.polyindex/config.toml and customize

[project]
name = \"\"
include = [\"**/*\"]
exclude = []
languages = []  # empty = every supported language

[indexing]
max_workers = 4
max_file_size_bytes = 1000000
respect_gitignore = true
index_dir = \".polyindex\"

[search]
default_limit = 50
fuzzy = true
"

end Concordance.Settings
