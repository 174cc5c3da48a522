import Concordance.Chars.Basic
import Concordance.Chars.Numeral

/-!
# Texts and keys of documents

Readers for the quoted texts and the keys of a document. Each takes what stands at the start of a
text and returns it with the rest, or fails.

Between double quotes a backslash starts an escape; between apostrophes every character is plain.
Three quotes in a row open a text over several lines; a newline right after them is dropped, and up to
two further quotes may stand before the closing three.
-/

namespace Concordance.Toml

/-- A blank inside of a line. -/
def isSpace (c : Char) : Bool := c == ' ' || c == '\t'

/-- What follows the blanks of a line. -/
def skipSpaces (cs : List Char) : List Char := cs.dropWhile isSpace

/-- A control character, which a text of one line and a comment may not have; the tab is none. -/
def isControl (c : Char) : Bool :=
  (c.toNat < 32 && c != '\t') || c.toNat == 127

/-- A control character that a text of several lines may not have. -/
def isLineControl (c : Char) : Bool := isControl c && c != '\n'

/-- The character of a code point written by `width` hexadecimal digits. -/
def hexChar? (width : Nat) (cs : List Char) : Option (Char × List Char) := do
  let ds := cs.take width
  if ds.length != width then none
  else
    let n := (← ds.mapM Chars.hexValue?).foldl (fun n d => 16 * n + d) 0
    if n.isValidChar then some (.ofNat n, cs.drop width) else none

/-- The character that an escape stands for, after its backslash. -/
def escape? : List Char → Option (Char × List Char)
  | [] => none
  | c :: rest =>
    match c with
    | 'b' => some ('\x08', rest)
    | 't' => some ('\t', rest)
    | 'n' => some ('\n', rest)
    | 'f' => some ('\x0c', rest)
    | 'r' => some ('\r', rest)
    | '"' => some ('"', rest)
    | '\\' => some ('\\', rest)
    | 'u' => hexChar? 4 rest
    | 'U' => hexChar? 8 rest
    | _ => none

theorem length_of_hexChar? {width : Nat} {cs rest : List Char} {c : Char}
    (h : hexChar? width cs = some (c, rest)) : rest.length ≤ cs.length := by
  unfold hexChar? at h
  simp only at h
  split at h
  · cases h
  · rw [Option.bind_eq_bind] at h
    obtain ⟨ds, -, h⟩ := Option.bind_eq_some_iff.1 h
    split at h
    · simp only [Option.some.injEq, Prod.mk.injEq] at h
      rw [← h.2, List.length_drop]
      exact Nat.sub_le ..
    · cases h

/-- Reading an escape takes characters. -/
theorem length_of_escape? {cs rest : List Char} {c : Char} (h : escape? cs = some (c, rest)) :
    rest.length < cs.length := by
  unfold escape? at h
  split at h
  · cases h
  · rw [List.length_cons, Nat.lt_succ_iff]
    split at h <;> first | exact length_of_hexChar? h | simp_all

/-- A text of one line, after its double quote. -/
def basic? : List Char → Option (List Char × List Char)
  | [] => none
  | c :: rest =>
    if c == '"' then some ([], rest)
    else if c == '\\' then
      match h : escape? rest with
      | none => none
      | some (d, rest') =>
        have := length_of_escape? h
        (basic? rest').map fun (cs, rest) => (d :: cs, rest)
    else if isControl c then none
    else (basic? rest).map fun (cs, rest) => (c :: cs, rest)
termination_by cs => cs.length

/-- What follows the end of a line that is broken by a backslash: all blanks and newlines after it. -/
def brokenLine? (cs : List Char) : Option (List Char) :=
  match skipSpaces cs with
  | '\n' :: rest => some (rest.dropWhile fun c => isSpace c || c == '\n')
  | _ => none

theorem length_dropWhile_le (p : Char → Bool) (cs : List Char) :
    (cs.dropWhile p).length ≤ cs.length :=
  (List.dropWhile_sublist p).length_le

/-- So does passing by a broken line. -/
theorem length_of_brokenLine? {cs rest : List Char} (h : brokenLine? cs = some rest) :
    rest.length < cs.length := by
  unfold brokenLine? at h
  split at h
  · next tail heq =>
    have h1 := length_dropWhile_le isSpace cs
    have h2 := length_dropWhile_le (fun c => isSpace c || c == '\n') tail
    rw [show cs.dropWhile isSpace = '\n' :: tail from heq, List.length_cons] at h1
    simp only [Option.some.injEq] at h
    rw [← h]
    omega
  · cases h

/-- Up to two quotes after the closing ones, which belong to the text. -/
def closing (quote : Char) (rest : List Char) : List Char × List Char :=
  let extra := (rest.take 2).takeWhile (· == quote)
  (extra, rest.drop extra.length)

/-- A text of several lines, after its double quotes. -/
def multiBasic? : List Char → Option (List Char × List Char)
  | [] => none
  | c :: rest =>
    if c == '"' && ['"', '"'].isPrefixOf rest then some (closing '"' (rest.drop 2))
    else if c == '\\' then
      match h : brokenLine? rest with
      | some rest' =>
        have := length_of_brokenLine? h
        multiBasic? rest'
      | none =>
        match h : escape? rest with
        | none => none
        | some (d, rest') =>
          have := length_of_escape? h
          (multiBasic? rest').map fun (cs, rest) => (d :: cs, rest)
    else if isLineControl c then none
    else (multiBasic? rest).map fun (cs, rest) => (c :: cs, rest)
termination_by cs => cs.length

/-- A plain text of one line, after its apostrophe. -/
def literal? : List Char → Option (List Char × List Char)
  | [] => none
  | c :: rest =>
    if c == '\'' then some ([], rest)
    else if isControl c then none
    else (literal? rest).map fun (cs, rest) => (c :: cs, rest)

/-- A plain text of several lines, after its apostrophes. -/
def multiLiteral? : List Char → Option (List Char × List Char)
  | [] => none
  | c :: rest =>
    if c == '\'' && ['\'', '\''].isPrefixOf rest then some (closing '\'' (rest.drop 2))
    else if isLineControl c then none
    else (multiLiteral? rest).map fun (cs, rest) => (c :: cs, rest)

/-- The text without a newline at its start. -/
def dropNewline : List Char → List Char
  | '\n' :: rest => rest
  | cs => cs

/-- A quoted text. -/
def text? : List Char → Option (List Char × List Char)
  | '"' :: '"' :: '"' :: rest => multiBasic? (dropNewline rest)
  | '"' :: rest => basic? rest
  | '\'' :: '\'' :: '\'' :: rest => multiLiteral? (dropNewline rest)
  | '\'' :: rest => literal? rest
  | _ => none

/-- A character of a key without quotes. -/
def isBare (c : Char) : Bool :=
  Chars.isAsciiLetter c || Chars.isAsciiDigit c || c == '-' || c == '_'

/-- A part of a key: bare characters or a quoted text of one line. -/
def keyPart? (cs : List Char) : Option (String × List Char) :=
  match cs with
  | '"' :: rest => (basic? rest).map fun (k, rest) => (.ofList k, rest)
  | '\'' :: rest => (literal? rest).map fun (k, rest) => (.ofList k, rest)
  | _ =>
    let bare := cs.takeWhile isBare
    if bare.isEmpty then none else some (.ofList bare, cs.drop bare.length)

/-- The parts of a key between dots, at most `fuel` of them, and what follows the blanks after it. -/
def keyFrom? : Nat → List Char → Option (List String × List Char)
  | 0, _ => none
  | fuel + 1, cs => do
    let (part, rest) ← keyPart? cs
    match skipSpaces rest with
    | '.' :: rest =>
      let (parts, rest) ← keyFrom? fuel (skipSpaces rest)
      some (part :: parts, rest)
    | rest => some ([part], rest)

/-- A key and what follows the blanks after it. -/
def key? (cs : List Char) : Option (List String × List Char) :=
  keyFrom? (cs.length + 1) cs

end Concordance.Toml
