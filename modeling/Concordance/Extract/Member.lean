import Concordance.Record.Symbol

/-!
# Members of types

The members of a class-like symbol are the symbols that name it as their owner, each name once, in
the order of the symbols.
-/

namespace Concordance.Symbol

/-- The names of the symbols that have the given owner. -/
def memberNames (symbols : List Symbol) (owner : String) : List String :=
  (symbols.filter fun s => s.namedOwner == some owner).map Symbol.name

/-- Each item once, where it first occurs. -/
def distinct (names : List String) : List String :=
  names.foldl (fun seen name => if seen.contains name then seen else seen ++ [name]) []

/-- Gives a class-like symbol the members that name it as their owner; without any it keeps what
it has. -/
def withMembers (symbols : List Symbol) (s : Symbol) : Symbol :=
  match memberNames symbols s.name with
  | [] => s
  | names => if s.kind.isClassLike then { s with members := distinct names } else s

/-- Gives every class-like symbol its members. -/
def linkMembers (symbols : List Symbol) : List Symbol :=
  symbols.map (withMembers symbols)

end Concordance.Symbol
