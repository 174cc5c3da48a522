import Concordance.Chars.Quoted
import Concordance.Json.Basic
import Concordance.Record.ProjectIndex

/-!
# Reading records from JSON

Required fields are asked for in a fixed order, and the first that is missing is reported. Fields
that are not required have a default, and fields that no record has are ignored. A list field may
be given by any value that has parts: the items of an array, the characters of a text, the keys of
an object.
-/

namespace Concordance

/-- Why a value is not a record: a required field is missing, a kind has a name that no kind has,
or a part is not of the form it must have. -/
inductive RecordError where
  | missing (key : String)
  | invalidKind (shown : String) (type : String)
  | mistyped
  deriving DecidableEq, Inhabited

namespace RecordError

/-- The text of an error. -/
def message : RecordError → String
  | .missing key => key
  | .invalidKind shown type => shown ++ " is not a valid " ++ type
  | .mistyped => ""

end RecordError

namespace Json

/-- The field of an object that may lack it. -/
def lookup? (key : String) : Json → Except RecordError (Option Json)
  | .object fields => .ok (fields.lookup key)
  | _ => .error .mistyped

/-- The field of an object that must have it. -/
def require (key : String) (j : Json) : Except RecordError Json := do
  match ← j.lookup? key with
  | some v => .ok v
  | none => .error (.missing key)

/-- A value that is a text. -/
def asText : Json → Except RecordError String
  | .text s => .ok s
  | _ => .error .mistyped

/-- A value that is a text or null. -/
def asOptionalText : Json → Except RecordError (Option String)
  | .null => .ok none
  | .text s => .ok (some s)
  | _ => .error .mistyped

/-- A value that is an integer. -/
def asInteger : Json → Except RecordError Int
  | .number (.integer i) => .ok i
  | _ => .error .mistyped

/-- A value that is a number. -/
def asNumber : Json → Except RecordError Number
  | .number n => .ok n
  | _ => .error .mistyped

/-- A value that is a boolean. -/
def asBool : Json → Except RecordError Bool
  | .bool b => .ok b
  | _ => .error .mistyped

/-- The parts of a value that has parts. -/
def asParts : Json → Except RecordError (List Json)
  | .array items => .ok items
  | .text s => .ok (s.toList.map fun c => .text c.toString)
  | .object fields => .ok (fields.map fun f => .text f.1)
  | _ => .error .mistyped

/-- A value as a message shows it. -/
def shown : Json → Option String
  | .null => some "None"
  | .bool b => some (if b then "True" else "False")
  | .number n => some (.ofList (n.write ⟨"inf", "nan"⟩))
  | .text s => some (Text.quoted s)
  | _ => none

/-- A required field read by `read`. -/
def get {α : Type} (key : String) (read : Json → Except RecordError α) (j : Json) :
    Except RecordError α := do
  read (← j.require key)

/-- A field read by `read`, with a default for a missing one. -/
def getD {α : Type} (key : String) (read : Json → Except RecordError α) (default : α) (j : Json) :
    Except RecordError α := do
  match ← j.lookup? key with
  | some v => read v
  | none => .ok default

/-- A value whose parts are all read by `read`. -/
def asList {α : Type} (read : Json → Except RecordError α) (j : Json) :
    Except RecordError (List α) := do
  (← j.asParts).mapM read

/-- A field with parts, each read by `read`; a missing one has none. -/
def list {α : Type} (key : String) (read : Json → Except RecordError α) (j : Json) :
    Except RecordError (List α) :=
  j.getD key (asList read) []

/-- A field that is a text or null; a missing one is null. -/
def optionalText (key : String) (j : Json) : Except RecordError (Option String) :=
  j.getD key asOptionalText none

/-- A field that is a boolean; a missing one is false. -/
def flag (key : String) (j : Json) : Except RecordError Bool :=
  j.getD key asBool false

/-- The value of a kind given by its name. -/
def asKind {α : Type} (type : String) (ofName? : String → Option α) (j : Json) :
    Except RecordError α :=
  let invalid : Except RecordError α :=
    match j.shown with
    | some s => .error (.invalidKind s type)
    | none => .error .mistyped
  match j with
  | .text s =>
    match ofName? s with
    | some k => .ok k
    | none => invalid
  | _ => invalid

/-- The name of a kind; a value that is no name is of no known kind. -/
def kindName (j : Json) : Except RecordError String := do
  match ← j.lookup? "kind" with
  | some (.text s) => .ok s
  | _ => .ok "unknown"

end Json

/-- Reads a position. -/
def Position.ofJson (j : Json) : Except RecordError Position := do
  let line ← j.get "line" Json.asInteger
  let column ← j.get "column" Json.asInteger
  let byteOffset ← j.getD "byte_offset" Json.asInteger 0
  return { line, column, byteOffset }

/-- Reads a span. -/
def Span.ofJson (j : Json) : Except RecordError Span := do
  let start ← j.get "start" Position.ofJson
  let stop ← j.get "end" Position.ofJson
  return { start, stop }

/-- Reads a parameter. -/
def Parameter.ofJson (j : Json) : Except RecordError Parameter := do
  let name ← j.get "name" Json.asText
  let type ← j.optionalText "type"
  let defaultValue ← j.optionalText "default_value"
  let rest ← j.flag "rest"
  let optional ← j.flag "optional"
  return { name, type, defaultValue, rest, optional }

/-- Reads a symbol; a kind that does not exist is the unknown one. -/
def Symbol.ofJson (j : Json) : Except RecordError Symbol := do
  let kind := SymbolKind.ofName (← j.kindName)
  let name ← j.get "name" Json.asText
  let span ← j.get "range" Span.ofJson
  let nameSpan ← j.get "selection_range" Span.ofJson
  let file ← j.get "file" Json.asText
  let language ← j.get "language" Json.asText
  let signature ← j.optionalText "signature"
  let documentation ← j.optionalText "documentation"
  let exported ← j.flag "exported"
  let isAsync ← j.flag "is_async"
  let isStatic ← j.flag "is_static"
  let visibility ← j.optionalText "visibility"
  let parameters ← j.list "parameters" Parameter.ofJson
  let returnType ← j.optionalText "return_type"
  let base ← j.optionalText "extends"
  let interfaces ← j.list "implements" Json.asText
  let owner ← j.optionalText "parent"
  let members ← j.list "children" Json.asText
  return { name, kind, span, nameSpan, file, language, signature, documentation, exported, isAsync,
           isStatic, visibility, parameters, returnType, base, interfaces, owner, members }

/-- Reads a reference; a kind that does not exist is the unknown one. -/
def Reference.ofJson (j : Json) : Except RecordError Reference := do
  let kind := ReferenceKind.ofName (← j.kindName)
  let name ← j.get "symbol" Json.asText
  let file ← j.get "file" Json.asText
  let span ← j.get "range" Span.ofJson
  let context ← j.getD "context" Json.asText ""
  return { name, file, span, context, kind }

/-- Reads an imported name. -/
def ImportSpecifier.ofJson (j : Json) : Except RecordError ImportSpecifier := do
  let name ← j.get "name" Json.asText
  let newName ← j.optionalText "alias"
  let isDefault ← j.flag "is_default"
  let isWhole ← j.flag "is_namespace"
  return { name, newName, isDefault, isWhole }

/-- Reads an import. -/
def Import.ofJson (j : Json) : Except RecordError Import := do
  let source ← j.get "source" Json.asText
  let file ← j.get "file" Json.asText
  let span ← j.get "range" Span.ofJson
  let specifiers ← j.list "specifiers" ImportSpecifier.ofJson
  let kind ← j.getD "kind" (Json.asKind "ImportKind" ImportKind.ofName?) .named
  return { source, file, span, specifiers, kind }

/-- Reads an export. -/
def Export.ofJson (j : Json) : Except RecordError Export := do
  let name ← j.get "name" Json.asText
  let file ← j.get "file" Json.asText
  let span ← j.get "range" Span.ofJson
  let kind ← j.getD "kind" (Json.asKind "ExportKind" ExportKind.ofName?) .named
  let source ← j.optionalText "source"
  return { name, file, span, kind, source }

/-- Reads a file entry. -/
def FileEntry.ofJson (j : Json) : Except RecordError FileEntry := do
  let file ← j.get "file" Json.asText
  let language ← j.get "language" Json.asText
  let digest ← j.get "hash" Json.asText
  let modified ← j.getD "last_modified" Json.asNumber .zero
  let symbols ← j.list "symbols" Symbol.ofJson
  let imports ← j.list "imports" Import.ofJson
  let exports ← j.list "exports" Export.ofJson
  let references ← j.list "references" Reference.ofJson
  return { file, language, digest, modified, symbols, imports, exports, references }

/-- Reads a scope. -/
def Scope.ofJson (j : Json) : Except RecordError Scope := do
  let name ← j.getD "name" Json.asText ""
  let included ← j.getD "include" (Json.asList Json.asText) ["**/*"]
  let excluded ← j.list "exclude" Json.asText
  let languages ← j.list "languages" Json.asText
  return { name, included, excluded, languages }

/-- Reads values under keys. -/
def Roster.ofJson {α : Type} (read : Json → Except RecordError α) :
    Json → Except RecordError (Roster String α)
  | .object fields => do
    let entries ← fields.mapM fun f => do
      let v ← read f.2
      return (f.1, v)
    return .ofList entries
  | _ => .error .mistyped

/-- Reads counts under keys; an empty array counts nothing. -/
def Statistics.countsOfJson : Json → Except RecordError (Roster String Int)
  | .array [] => .ok .empty
  | j => Roster.ofJson Json.asInteger j

/-- Reads statistics. -/
def Statistics.ofJson (j : Json) : Except RecordError Statistics := do
  let files ← j.getD "total_files" Json.asInteger 0
  let symbols ← j.getD "total_symbols" Json.asInteger 0
  let references ← j.getD "total_references" Json.asInteger 0
  let byLanguage ← j.getD "by_language" countsOfJson .empty
  let byKind ← j.getD "by_kind" countsOfJson .empty
  return { files, symbols, references, byLanguage, byKind }

/-- Reads a project index. -/
def ProjectIndex.ofJson (j : Json) : Except RecordError ProjectIndex := do
  let project ← j.get "project_path" Json.asText
  let version ← j.getD "version" Json.asInteger 0
  let indexed ← j.getD "last_indexed" Json.asNumber .zero
  let scope ← j.getD "config" Scope.ofJson {}
  let statistics ← j.getD "stats" Statistics.ofJson {}
  let files ← j.getD "files" (Roster.ofJson FileEntry.ofJson) .empty
  return { project, version, indexed, scope, statistics, files }

end Concordance
