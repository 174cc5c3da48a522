import Concordance.Chars.Case
import Concordance.Chars.Word
import Concordance.Record.Symbol

/-!
# Scoring a symbol

A query is compared with a symbol without regard to case. The best that it meets counts: the whole
name, the start of the name, a part of it, its characters scattered over the name in order, or a part
of the signature. The last two are found only by a fuzzy search.

Each comparison has a tier, each tier a score, and a hit lists the characters that it met by their
places in the lower-cased field.
-/

namespace Concordance.Search

/-- How a symbol meets a query. -/
inductive Tier where
  | exact
  | start
  | part
  | scattered
  | signature
  | pattern
  | listed
  deriving DecidableEq, Inhabited

/-- The score of a tier; more is better. -/
def Tier.score : Tier → Nat
  | .exact => 100
  | .start => 90
  | .part => 70
  | .scattered => 50
  | .signature => 30
  | .pattern => 70
  | .listed => 0

/-- A text of a symbol that a query is compared with. -/
inductive Field where
  | name
  | signature
  deriving DecidableEq, Inhabited

/-- The name of a field. -/
def Field.label : Field → String
  | .name => "name"
  | .signature => "signature"

/-- The characters of a field that a query meets, by their places. -/
structure Highlight where
  field : Field
  indices : List Nat
  deriving DecidableEq, Inhabited

/-- How a symbol meets a query, and where. -/
structure Score where
  tier : Tier
  highlights : List Highlight
  deriving DecidableEq, Inhabited

/-- The places from `n` on at which the characters of a query stand in a text, in order, each as early
as it can. -/
def scatterFrom : List Char → List Char → Nat → Option (List Nat)
  | [], _, _ => some []
  | _ :: _, [], _ => none
  | q :: query, c :: text, n =>
    if q == c then (scatterFrom query text (n + 1)).map (n :: ·)
    else scatterFrom (q :: query) text (n + 1)

/-- The places at which the characters of a query stand in a text, in order. -/
def scatter (query text : List Char) : Option (List Nat) :=
  scatterFrom query text 0

/-- A score for a run of characters of one field. -/
def Score.run (tier : Tier) (field : Field) (start length : Nat) : Score :=
  ⟨tier, [⟨field, List.range' start length⟩]⟩

/-- Compares a query with a name, both in lower case. -/
def scoreName (fuzzy : Bool) (query name : List Char) : Option Score :=
  if name == query then some (.run .exact .name 0 name.length)
  else if query.isPrefixOf name then some (.run .start .name 0 query.length)
  else match Chars.find? query name with
    | some n => some (.run .part .name n query.length)
    | none =>
      if fuzzy then (scatter query name).map fun places => ⟨.scattered, [⟨.name, places⟩]⟩ else none

/-- Compares a query with a signature, both in lower case. -/
def scoreSignature (query signature : List Char) : Option Score :=
  (Chars.find? query signature).map fun n => .run .signature .signature n query.length

/-- Compares a query with the texts of a symbol, all in lower case. -/
def scoreTexts (fuzzy : Bool) (query name signature : List Char) : Option Score :=
  scoreName fuzzy query name <|> if fuzzy then scoreSignature query signature else none

/-- The lower-cased name of a symbol. -/
def nameKey (s : Symbol) : List Char := Chars.lower s.name.toList

/-- The lower-cased signature of a symbol; none is as good as an empty one. -/
def signatureKey (s : Symbol) : List Char := Chars.lower (s.signature.getD "").toList

/-- How a symbol meets a query. -/
def score (fuzzy : Bool) (query : String) (s : Symbol) : Option Score :=
  scoreTexts fuzzy (Chars.lower query.toList) (nameKey s) (signatureKey s)

end Concordance.Search

namespace Concordance.Text

/-- The places at which the characters of a query stand in a text, in order. -/
def scatter (query text : String) : Option (List Nat) :=
  Search.scatter query.toList text.toList

end Concordance.Text
