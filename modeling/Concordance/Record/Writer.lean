import Concordance.Json.Basic
import Concordance.Record.ProjectIndex

/-!
# Records as JSON

The form in which records are stored and answered. Every field is written, in a fixed order.
-/

namespace Concordance

/-- A position as JSON. -/
def Position.toJson (p : Position) : Json :=
  .object [("line", .integer p.line), ("column", .integer p.column),
    ("byte_offset", .integer p.byteOffset)]

/-- A span as JSON. -/
def Span.toJson (s : Span) : Json :=
  .object [("start", s.start.toJson), ("end", s.stop.toJson)]

/-- A parameter as JSON. -/
def Parameter.toJson (p : Parameter) : Json :=
  .object [("name", .text p.name), ("type", .optional p.type),
    ("default_value", .optional p.defaultValue), ("rest", .bool p.rest),
    ("optional", .bool p.optional)]

/-- A symbol as JSON. -/
def Symbol.toJson (s : Symbol) : Json :=
  .object [("name", .text s.name), ("kind", .text s.kind.name), ("range", s.span.toJson),
    ("selection_range", s.nameSpan.toJson), ("file", .text s.file),
    ("language", .text s.language), ("signature", .optional s.signature),
    ("documentation", .optional s.documentation), ("exported", .bool s.exported),
    ("is_async", .bool s.isAsync), ("is_static", .bool s.isStatic),
    ("visibility", .optional s.visibility),
    ("parameters", .array (s.parameters.map Parameter.toJson)),
    ("return_type", .optional s.returnType), ("extends", .optional s.base),
    ("implements", .texts s.interfaces), ("parent", .optional s.owner),
    ("children", .texts s.members)]

/-- A reference as JSON. -/
def Reference.toJson (r : Reference) : Json :=
  .object [("symbol", .text r.name), ("file", .text r.file), ("range", r.span.toJson),
    ("context", .text r.context), ("kind", .text r.kind.name)]

/-- An imported name as JSON. -/
def ImportSpecifier.toJson (s : ImportSpecifier) : Json :=
  .object [("name", .text s.name), ("alias", .optional s.newName), ("is_default", .bool s.isDefault),
    ("is_namespace", .bool s.isWhole)]

/-- An import as JSON. -/
def Import.toJson (i : Import) : Json :=
  .object [("source", .text i.source), ("file", .text i.file), ("range", i.span.toJson),
    ("specifiers", .array (i.specifiers.map ImportSpecifier.toJson)),
    ("kind", .text i.kind.name)]

/-- An export as JSON. -/
def Export.toJson (e : Export) : Json :=
  .object [("name", .text e.name), ("file", .text e.file), ("range", e.span.toJson),
    ("kind", .text e.kind.name), ("source", .optional e.source)]

/-- A file entry as JSON. -/
def FileEntry.toJson (e : FileEntry) : Json :=
  .object [("file", .text e.file), ("language", .text e.language), ("hash", .text e.digest),
    ("last_modified", .number e.modified), ("symbols", .array (e.symbols.map Symbol.toJson)),
    ("imports", .array (e.imports.map Import.toJson)),
    ("exports", .array (e.exports.map Export.toJson)),
    ("references", .array (e.references.map Reference.toJson))]

/-- A scope as JSON. -/
def Scope.toJson (s : Scope) : Json :=
  .object [("name", .text s.name), ("include", .texts s.included), ("exclude", .texts s.excluded),
    ("languages", .texts s.languages)]

/-- A roster of counts as JSON. -/
def Statistics.countsToJson (counts : Roster String Int) : Json :=
  .object (counts.map Json.integer).entries

/-- Statistics as JSON. -/
def Statistics.toJson (s : Statistics) : Json :=
  .object [("total_files", .integer s.files), ("total_symbols", .integer s.symbols),
    ("total_references", .integer s.references), ("by_language", countsToJson s.byLanguage),
    ("by_kind", countsToJson s.byKind)]

/-- A project index as JSON. -/
def ProjectIndex.toJson (index : ProjectIndex) : Json :=
  .object [("version", .integer index.version), ("project_path", .text index.project),
    ("last_indexed", .number index.indexed), ("config", index.scope.toJson),
    ("stats", index.statistics.toJson), ("files", .object (index.files.map FileEntry.toJson).entries)]

end Concordance
