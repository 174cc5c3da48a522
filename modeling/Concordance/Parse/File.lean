import Concordance.Digest
import Concordance.Document.Basic
import Concordance.Language.Extension

/-!
# Parsing a file

The language of a file decides how it is read: as one source, or as a document with scripts. A file
in an unknown language, or in one whose grammar is missing, has no entry.
-/

namespace Concordance

/-- How the documents of a language lay out their markup. -/
def Language.flavour : Language → Document.Flavour
  | .svelte => .svelte
  | _ => .vue

/-- Reads the contents of a file in a known language. -/
def parseContents (grammars : Grammars) (language : Language) (spec : LanguageSpec)
    (contents : Bytes) (file : String) : Except ParseError (Option Extraction) :=
  if spec.composite then
    (Document.extract grammars language.flavour (Utf8.decode contents) file language.name).map some
  else
    parseSource grammars spec.grammar
      { source := contents, file, language := language.name, family := spec.family }

/-- Reads a file. The records name it by `file`, or by its path if that is empty. -/
def parseFile (grammars : Grammars) (path : Path) (contents : Bytes) (file : String) :
    Except ParseError (Option FileEntry) :=
  let language := Language.ofPath path
  match language.spec? with
  | none => .ok none
  | some spec =>
    if grammars.isMissing spec.grammar then .ok none
    else do
      let file := if file.isEmpty then path.toText else file
      match ← parseContents grammars language spec contents file with
      | none => return none
      | some e =>
        return some {
          file
          language := language.name
          digest := Digest.fingerprint contents
          symbols := e.symbols
          imports := e.imports
          exports := e.exports
          references := e.references }

end Concordance
