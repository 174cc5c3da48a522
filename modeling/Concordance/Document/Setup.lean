import Concordance.Document.Region

/-!
# Setup macros

In the setup script of a component some calls declare a part of its interface: its properties, its
events, what it exposes.
-/

namespace Concordance.Document

/-- A macro: the word it is called by, what it declares, and the marks that may open its call. -/
structure Macro where
  word : List Char
  name : String
  kind : SymbolKind
  opens : List Char

/-- The macros of a setup script. -/
def macros : List Macro :=
  [⟨"defineProps".toList, "props", .property, ['<', '(']⟩,
   ⟨"defineEmits".toList, "emit", .event, ['<', '(']⟩,
   ⟨"defineExpose".toList, "expose", .property, ['(']⟩]

/-- The text of a macro call at the start of a text, up to the mark that opens the call. -/
def macroCall? (m : Macro) (before : Option Char) (cs : List Char) : Option (List Char) :=
  if Chars.isBorder before && m.word.isPrefixOf cs then
    let blanks := (cs.drop m.word.length).takeWhile Chars.isBlank
    let n := m.word.length + blanks.length
    if (cs.drop n).head?.any fun c => m.opens.contains c then some (cs.take (n + 1)) else none
  else none

/-- The calls of a macro in a text that starts at a place, after the character `before`. -/
def macroCallsFrom (m : Macro) : Nat → Option Char → List Char → List (Nat × List Char)
  | _, _, [] => []
  | place, before, c :: rest =>
    let others := macroCallsFrom m (place + 1) (some c) rest
    match macroCall? m before (c :: rest) with
    | some call => (place, call) :: others
    | none => others

/-- The call of a macro without the mark that opens it and the plain blanks before the mark. -/
def macroWord (call : List Char) : List Char :=
  Chars.dropEnd (fun c => ['<', '(', ' ', '\t', '\n'].contains c) call

/-- The symbols that the macros of a script declare. -/
def setupSymbols (document : List Char) (file language : String) (r : Region) : List Symbol :=
  macros.flatMap fun m =>
    (macroCallsFrom m r.start none r.text).map fun (place, call) =>
      let span := spanBetween document place (place + (macroWord call).length)
      { name := m.name
        kind := m.kind
        span
        nameSpan := span
        file
        language
        signature := some (.ofList ((lineAt document place).take 100)) }

end Concordance.Document
