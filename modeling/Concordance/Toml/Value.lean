import Concordance.Toml.Entry
import Concordance.Toml.Numeric
import Concordance.Toml.Text

/-!
# Reading values

A value is a quoted text, `true` or `false`, an array, a table written on one line, a moment, or a
number. Arrays may go over several lines and have comments; a comma after the last item is allowed
there, and not in a table.

Values nest, so the readers take a bound on the nesting. A text is not nested deeper than it is long.
-/

namespace Concordance.Toml

/-- What follows blanks, newlines and comments; it fails at a control character in a comment. -/
def skipLines? (inComment : Bool) : List Char → Option (List Char)
  | [] => some []
  | c :: rest =>
    if inComment then
      if c == '\n' then skipLines? false rest
      else if isControl c then none
      else skipLines? true rest
    else if isSpace c || c == '\n' then skipLines? false rest
    else if c == '#' then skipLines? true rest
    else some (c :: rest)

/-- A value without parts: a text, a truth value, a moment or a number. -/
def atom? (cs : List Char) : Option (Toml × List Char) :=
  if cs.head? == some '"' || cs.head? == some '\'' then
    (text? cs).map fun (t, rest) => (.text (.ofList t), rest)
  else if "true".toList.isPrefixOf cs then some (.bool true, cs.drop 4)
  else if "false".toList.isPrefixOf cs then some (.bool false, cs.drop 5)
  else ((Moment.read? cs).map fun (m, rest) => (.moment m, rest)) <|>
    (number? cs).map fun (n, rest) => (.number n, rest)

mutual

/-- A value. -/
def value? : Nat → List Char → Option (Toml × List Char)
  | 0, _ => none
  | fuel + 1, cs =>
    match cs with
    | '[' :: rest => (items? fuel rest).map fun (items, rest) => (.array items, rest)
    | '\x7b' :: rest => do
      let (pairs, rest) ←
        match skipSpaces rest with
        | '\x7d' :: rest => some ([], rest)
        | rest => pairs? fuel rest
      some (← inlineTable? pairs, rest)
    | cs => atom? cs

/-- The items of an array up to its closing bracket. -/
def items? : Nat → List Char → Option (List Toml × List Char)
  | 0, _ => none
  | fuel + 1, cs => do
    match ← skipLines? false cs with
    | ']' :: rest => some ([], rest)
    | cs =>
      let (v, rest) ← value? fuel cs
      match ← skipLines? false rest with
      | ']' :: rest => some ([v], rest)
      | ',' :: rest =>
        let (vs, rest) ← items? fuel rest
        some (v :: vs, rest)
      | _ => none

/-- The keys and values of a table up to its closing brace. -/
def pairs? : Nat → List Char → Option (List (List String × Toml) × List Char)
  | 0, _ => none
  | fuel + 1, cs => do
    let (key, rest) ← key? cs
    match rest with
    | '=' :: rest =>
      let (v, rest) ← value? fuel (skipSpaces rest)
      match skipSpaces rest with
      | '\x7d' :: rest => some ([(key, v)], rest)
      | ',' :: rest =>
        let (more, rest) ← pairs? fuel (skipSpaces rest)
        some ((key, v) :: more, rest)
      | _ => none
    | _ => none

end

end Concordance.Toml
