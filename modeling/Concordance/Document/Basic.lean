import Concordance.Document.Markup
import Concordance.Document.Setup
import Concordance.Parse.Basic
import Concordance.Path

/-!
# Documents

A document is a component: it declares itself, then what its scripts declare, each script read on
its own and moved to its place, and it uses what its scripts and its markup use.
-/

namespace Concordance.Document

/-- The symbol of the component that a document is, named by its file. -/
def componentSymbol (text : List Char) (file language : String) : Symbol :=
  let name := (Path.ofString file).stem
  let origin : Position := ⟨1, 0, 0⟩
  { name
    kind := .component
    span := ⟨origin, positionAt text text.length⟩
    nameSpan := ⟨origin, origin⟩
    file
    language
    signature := some ("<" ++ name ++ ">")
    exported := true }

/-- Reads one script and moves what it has to its place; a script without a grammar has nothing. -/
def regionExtraction (grammars : Grammars) (file language : String) (r : Region) :
    Except ParseError Extraction := do
  let ctx : Extract.Context :=
    { source := Utf8.encode r.text, file, language, family := .ecmascript, composite := true }
  match ← parseSource grammars r.grammar ctx with
  | none => return {}
  | some e => return r.shiftExtraction e

/-- Adds the symbols of setup macros to what was read off a script. -/
def withSetup (flavour : Flavour) (text : List Char) (file language : String) (r : Region)
    (e : Extraction) : Extraction :=
  if flavour = .vue && r.isSetup then
    { e with symbols := e.symbols ++ setupSymbols text file language r }
  else e

/-- Reads a document. -/
def extract (grammars : Grammars) (flavour : Flavour) (text : List Char) (file language : String) :
    Except ParseError Extraction := do
  let scripts ← (regions text).mapM fun r => do
    return withSetup flavour text file language r (← regionExtraction grammars file language r)
  return {
    symbols := componentSymbol text file language :: scripts.flatMap Extraction.symbols
    imports := scripts.flatMap Extraction.imports
    exports := scripts.flatMap Extraction.exports
    references := scripts.flatMap Extraction.references ++ markupReferences flavour text file }

end Concordance.Document
