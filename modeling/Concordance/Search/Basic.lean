import Concordance.Glob
import Concordance.Pattern.Matcher
import Concordance.Pattern.Reader
import Concordance.Record.Writer
import Concordance.Search.Score

/-!
# Searching symbols

A search looks at the symbols that pass a filter, scores each against a query, and lists the hits by
falling score; hits of equal score stay in the order of the symbols. A limit cuts the list.

The query is a text, or a pattern, which is looked for in the names as they are written. The empty
text lists every symbol that passes, and a pattern that is not well-formed lists none.

What reads and matches patterns is given to the search. `Pattern.engine` is the one that is used.
-/

namespace Concordance

/-- What turns a written pattern into a way of finding its first match in a text. -/
structure PatternEngine where
  compile : String → Except PatternFault (String → Option Pattern.Match)

/-- The engine that reads patterns as they are written in this library; `names` gives the characters
that can be written by their names. -/
def Pattern.engine (names : String → Option Nat) : PatternEngine where
  compile text := (Pattern.parse names text).map Pattern.search

end Concordance

namespace Concordance.Search

/-- Which symbols a search looks at; a part that is missing lets every symbol pass. -/
structure Filter where
  kinds : Option (List String) := none
  languages : Option (List String) := none
  file : Option String := none
  exported : Option Bool := none
  deriving DecidableEq, Inhabited

/-- Whether a file filter is a glob. -/
def isGlob (filter : String) : Bool :=
  filter.toList.any fun c => c == '*' || c == '?' || c == '['

/-- Whether a file passes: a glob accepts it, or a plain text is part of it. -/
def acceptsFile (filter file : String) : Bool :=
  if isGlob filter then Glob.accepts filter file else Text.contains filter file

/-- Whether a symbol passes a filter. -/
def Filter.accepts (f : Filter) (s : Symbol) : Bool :=
  f.kinds.all (·.contains s.kind.name) && f.languages.all (·.contains s.language) &&
    f.file.all (acceptsFile · s.file) && f.exported.all (s.exported == ·)

/-- How a query is understood. -/
inductive Mode where
  | plain
  | fuzzy
  | pattern
  deriving DecidableEq, Inhabited

/-- A symbol that meets a query, with its place among the symbols searched. -/
structure Hit where
  place : Nat
  symbol : Symbol
  score : Score
  deriving DecidableEq

/-- How a symbol meets a pattern, given by what finds its first match. -/
def scorePattern (find : String → Option Pattern.Match) (s : Symbol) : Option Score :=
  (find s.name).map fun m => .run .pattern .name m.start (m.stop - m.start)

/-- The way in which a query scores symbols. -/
def scorer (engine : PatternEngine) (mode : Mode) (query : String) :
    Except PatternFault (Symbol → Option Score) :=
  match mode with
  | .pattern => (engine.compile query).map scorePattern
  | mode =>
    if query.isEmpty then .ok fun _ => some ⟨.listed, []⟩
    else .ok (score (mode == .fuzzy) query)

/-- The hits among symbols, in their order. -/
def hits (filter : Filter) (scorer : Symbol → Option Score) (symbols : List Symbol) : List Hit :=
  symbols.zipIdx.filterMap fun (s, place) =>
    if filter.accepts s then (scorer s).map fun score => { place, symbol := s, score } else none

/-- Whether one hit may stand before another. -/
def Hit.notWorse (a b : Hit) : Bool := b.score.tier.score ≤ a.score.tier.score

end Concordance.Search

namespace Concordance

/-- The best hits of a query among the symbols that pass a filter, at most `limit` of them. Only that a
pattern is not well-formed is passed over; what else is wrong with it is reported. -/
def search (engine : PatternEngine) (mode : Search.Mode) (filter : Search.Filter) (limit : Int)
    (query : String) (symbols : List Symbol) : Except PatternFault (List Search.Hit) :=
  match Search.scorer engine mode query with
  | .error .malformed => .ok []
  | .error fault => .error fault
  | .ok scorer =>
    .ok (((Search.hits filter scorer symbols).mergeSort Search.Hit.notWorse).take limit.toNat)

end Concordance

namespace Concordance.Search

/-- A highlight as JSON. -/
def Highlight.toJson (h : Highlight) : Json :=
  .object [("field", .text h.field.label), ("indices", .array (h.indices.map .nat))]

/-- A hit as JSON. -/
def Hit.toJson (h : Hit) : Json :=
  .object [("symbol", h.symbol.toJson), ("score", .nat h.score.tier.score),
    ("matches", .array (h.score.highlights.map Highlight.toJson))]

end Concordance.Search
