import Concordance.Chars.Identifier
import Concordance.Chars.Numeral
import Concordance.Pattern.Basic

/-!
# Reading patterns

A written pattern is read item by item. A quantifier changes the item before it; a place in the text
cannot be repeated, nor can a repetition. Groups are numbered from one in the order of their opening
parentheses. Flags say how the characters are meant: for all of a pattern at its very start, or for one
group.

A text that is not well-formed is no pattern. Some faults stop the reading where they stand. Others are
only found once all has been read: a look back of no fixed width, a repetition where the flags allow
none, and a condition on a group that the pattern does not have.
-/

namespace Concordance.Pattern

/-- How the characters of a pattern are meant. -/
structure Flags where
  caseless : Bool := true
  lines : Bool := false
  newlines : Bool := false
  spaced : Bool := false
  ascii : Bool := false
  unicode : Bool := false
  unrepeated : Bool := false
  deriving DecidableEq, Inhabited

/-- Which letters count as one. -/
def Flags.folding (f : Flags) : Folding :=
  if !f.caseless then .none else if f.ascii then .ascii else .full

/-- What the reader knows about groups: how many there are, the widths of those that are closed, the
numbers of those that have names, and the last one that may be referred to, where that is limited. It
also keeps the largest number that a condition asks for, and whether a fault waits for the end. -/
structure Groups where
  count : Nat := 0
  closed : List (Nat × Width) := []
  names : List (String × Nat) := []
  limit : Option Nat := none
  asked : Nat := 0
  flawed : Bool := false

/-- Whether an item may be repeated: a place may not, and a repetition may not again. -/
structure Item where
  pattern : Pattern
  repeatable : Bool

/-- The items read so far, last first, as one pattern. -/
def sequence (items : List Item) : Pattern :=
  match items with
  | [] => .empty
  | last :: before => before.foldl (fun p i => .seq i.pattern p) last.pattern

/-- A part that a well-formed text has. -/
def required {α : Type} : Option α → Except PatternFault α
  | some a => .ok a
  | none => .error .malformed

/-! ### Characters and sets -/

/-- The number of hexadecimal digits, if there are as many as asked for. -/
def hexNumber? (count : Nat) (cs : List Char) : Option (Nat × List Char) := do
  let digits ← (cs.take count).mapM Chars.hexValue?
  if digits.length < count then none
  else some (digits.foldl (fun n d => 16 * n + d) 0, cs.drop count)

/-- An octal digit. -/
def isOctal (c : Char) : Bool := '0' ≤ c && c ≤ '7'

/-- The number of octal digits. -/
def octalNumber (cs : List Char) : Nat :=
  cs.foldl (fun n c => 8 * n + Chars.digitValue c) 0

/-- Reads a text up to the character that closes it, which must come and not at once. -/
def enclosed? (close : Char) (cs : List Char) : Option (List Char × List Char) :=
  let inner := cs.takeWhile (· != close)
  match cs.drop inner.length with
  | _ :: rest => if inner.isEmpty then none else some (inner, rest)
  | [] => none

/-- What may follow a backslash both inside and outside a set: a character, or a named class. -/
inductive Escaped where
  | char (code : Nat)
  | named (k : NamedClass) (negated : Bool)

/-- The character of an escape of one letter. -/
def plainEscape? (c : Char) : Option Nat :=
  if c == 'a' then some 7
  else if c == 'f' then some 12
  else if c == 'n' then some 10
  else if c == 'r' then some 13
  else if c == 't' then some 9
  else if c == 'v' then some 11
  else if Chars.isAsciiLetter c || Chars.isAsciiDigit c then none
  else some c.toNat

/-- The named class of an escape. -/
def namedEscape? (c : Char) : Option Escaped :=
  if c == 'd' then some (.named .digit false)
  else if c == 'D' then some (.named .digit true)
  else if c == 's' then some (.named .blank false)
  else if c == 'S' then some (.named .blank true)
  else if c == 'w' then some (.named .word false)
  else if c == 'W' then some (.named .word true)
  else none

section

variable (names : String → Option Nat)

/-- Reads the name of a character in braces. -/
def namedChar? : List Char → Option (Nat × List Char)
  | '\x7b' :: rest => do
    let (name, rest) ← enclosed? '\x7d' rest
    some (← names (.ofList name), rest)
  | _ => none

/-- Reads what follows a backslash, numbers of groups aside. -/
def escaped? : List Char → Option (Escaped × List Char)
  | [] => none
  | c :: rest =>
    let char (read : Option (Nat × List Char)) : Option (Escaped × List Char) :=
      read.map fun (n, rest) => (.char n, rest)
    if c == 'x' then char (hexNumber? 2 rest)
    else if c == 'u' then char (hexNumber? 4 rest)
    else if c == 'U' then char ((hexNumber? 8 rest).filter fun (n, _) => n ≤ 0x10ffff)
    else if c == 'N' then char (namedChar? names rest)
    else if c == '0' then
      let digits := (rest.take 2).takeWhile isOctal
      some (.char (octalNumber digits), rest.drop digits.length)
    else match namedEscape? c with
      | some e => some (e, rest)
      | none => (plainEscape? c).map fun n => (.char n, rest)

/-- Reads what follows a backslash inside a set, where `b` is the backspace and any digits are
octal. -/
def setEscape? (cs : List Char) : Option (Escaped × List Char) :=
  match cs with
  | 'b' :: rest => some (.char 8, rest)
  | c :: _ =>
    if isOctal c then
      let digits := (cs.take 3).takeWhile isOctal
      let n := octalNumber digits
      if n ≤ 0o377 then some (.char n, cs.drop digits.length) else none
    else escaped? names cs
  | [] => none

/-- Reads one character of a set, or one named class. -/
def setMember? : List Char → Option (Escaped × List Char)
  | [] => none
  | '\\' :: rest => setEscape? names rest
  | c :: rest => some (.char c.toNat, rest)

/-- The part of a set that a member is by itself. -/
def Escaped.item (ascii : Bool) : Escaped → SetItem
  | .char n => .range n n
  | .named k negated => .named k ascii negated

/-- Reads the parts of a set up to its closing bracket, which may not come first. -/
def setItems? (ascii : Bool) : Nat → Bool → List Char → Option (List SetItem × List Char)
  | 0, _, _ => none
  | _ + 1, _, [] => none
  | fuel + 1, first, c :: rest =>
    if c == ']' && !first then some ([], rest)
    else do
      let (low, rest) ← setMember? names (c :: rest)
      match rest with
      | '-' :: ']' :: rest => some ([low.item ascii, .range '-'.toNat '-'.toNat], rest)
      | '-' :: rest =>
        let (high, rest) ← setMember? names rest
        match low, high with
        | .char a, .char b =>
          if b < a then none
          else
            let (items, rest) ← setItems? ascii fuel false rest
            some (.range a b :: items, rest)
        | _, _ => none
      | _ =>
        let (items, rest) ← setItems? ascii fuel false rest
        some (low.item ascii :: items, rest)

/-- Reads a set after its opening bracket. -/
def set? (flags : Flags) (cs : List Char) : Option (Pattern × List Char) := do
  let negated := cs.head? == some '^'
  let body := if negated then cs.drop 1 else cs
  let (items, rest) ← setItems? names flags.ascii (body.length + 1) true body
  some (.oneOf flags.folding negated items, rest)

end

/-! ### Quantifiers -/

/-- How often an item is repeated. -/
structure Count where
  least : Nat
  most : Option Nat

/-- The number of a count. It must fit into 32 bits, with room for one that means no bound; more than
4300 digits are not looked at. -/
def countValue (digits : List Char) : Except PatternFault Nat :=
  if 4300 < digits.length then .error .countTooLong
  else if 0xffffffff ≤ Chars.numeralValue digits then .error .countTooLarge
  else .ok (Chars.numeralValue digits)

/-- The count with these bounds, where an empty text is no bound. -/
def countOf (low high : List Char) : Except PatternFault Count := do
  let least ← if low.isEmpty then .ok 0 else countValue low
  let most ← if high.isEmpty then .ok none else some <$> countValue high
  if most.all (least ≤ ·) then .ok ⟨least, most⟩ else .error .malformed

/-- Reads a count in braces after the opening one. Nothing is read where no count stands. -/
def bracedCount? (cs : List Char) : Except PatternFault (Option (Count × List Char)) :=
  let low := cs.takeWhile Chars.isAsciiDigit
  let rest := cs.drop low.length
  let (high, rest) :=
    match rest with
    | ',' :: rest =>
      let high := rest.takeWhile Chars.isAsciiDigit
      (high, rest.drop high.length)
    | _ => (low, rest)
  match cs, rest with
  | '\x7d' :: _, _ => .ok none
  -- the escape after the count is looked at before the count
  | _, ['\x7d', '\\'] => .error .malformed
  | _, '\x7d' :: rest => return some (← countOf low high, rest)
  | _, _ => .ok none

/-- Reads a quantifier at the start of a text, if there is one. -/
def count? : List Char → Except PatternFault (Option (Count × List Char))
  | '*' :: rest => .ok (some (⟨0, none⟩, rest))
  | '+' :: rest => .ok (some (⟨1, none⟩, rest))
  | '?' :: rest => .ok (some (⟨0, some 1⟩, rest))
  | '\x7b' :: rest => bracedCount? rest
  | _ => .ok none

/-- Reads the mark after a quantifier. -/
def eagerness (cs : List Char) : Eagerness × List Char :=
  match cs with
  | '?' :: rest => (.lazy, rest)
  | '+' :: rest => (.possessive, rest)
  | _ => (.greedy, cs)

/-- Repeats the last item. -/
def repeatLast? (n : Count) (e : Eagerness) : List Item → Option (List Item)
  | [] => none
  | item :: before =>
    if item.repeatable then some (⟨.repeated item.pattern n.least n.most e, false⟩ :: before)
    else none

/-! ### References to groups -/

/-- Whether a group is closed and within the limit. -/
def Groups.mayRefer (groups : Groups) (n : Nat) : Bool :=
  (groups.closed.lookup n).isSome && groups.limit.all (n ≤ ·)

/-- A reference to a group. -/
def reference? (flags : Flags) (groups : Groups) (n : Nat) : Option Item :=
  if groups.mayRefer n then some ⟨.again n flags.folding, true⟩ else none

/-- The value of a decimal digit of any script. -/
def decimalValue? (c : Char) : Option Nat :=
  if Chars.isAsciiDigit c then some (Chars.digitValue c)
  else (Chars.decimalRanges.find? fun r => r.1 ≤ c.toNat && c.toNat ≤ r.2).map fun r =>
    (c.toNat - r.1) % 10

/-- The number that a condition asks for: decimal digits of any script, which single underscores may
separate, after a plus sign or none and between blanks. -/
def askedNumber? (cs : List Char) : Option Nat := do
  let body := Chars.strip cs
  let unsigned := if body.head? == some '+' then body.drop 1 else body
  let pieces := Chars.splitOn '_' unsigned
  let digits ← pieces.flatten.mapM decimalValue?
  if pieces.any List.isEmpty || 4300 < digits.length then none
  else some (digits.foldl (fun n d => 10 * n + d) 0)

/-- The group that a condition asks for, by its name or number. A number may be one of a group yet to
come, unless references are limited. -/
def askedGroup? (groups : Groups) (name : List Char) : Option (Nat × Groups) := do
  let (n, groups) ←
    if Chars.isIdentifier name then (groups.names.lookup (.ofList name)).map fun n => (n, groups)
    else do
      let n ← askedNumber? name
      if n == 0 || 0x3fffffff ≤ n then none
      else some (n, { groups with asked := max groups.asked n })
  if groups.limit.isSome && !groups.mayRefer n then none else some (n, groups)

/-- Reads an item after a backslash. -/
def escapedItem? (names : String → Option Nat) (flags : Flags) (groups : Groups) (cs : List Char) :
    Option (Item × List Char) :=
  match cs with
  | [] => none
  | c :: rest =>
    let anchored (a : Anchor) : Option (Item × List Char) := some (⟨.anchor a, false⟩, rest)
    if c == 'A' then anchored .textStart
    else if c == 'Z' then anchored .textEnd
    else if c == 'b' then anchored (.border flags.ascii)
    else if c == 'B' then anchored (.noBorder flags.ascii)
    else if Chars.isAsciiDigit c && c != '0' then
      let digits := (cs.take 2).takeWhile Chars.isAsciiDigit
      let octal := (cs.take 3).takeWhile isOctal
      if octal.length == 3 then
        let n := octalNumber octal
        if n ≤ 0o377 then some (⟨.char flags.folding n, true⟩, cs.drop 3) else none
      else do
        let item ← reference? flags groups (Chars.numeralValue digits)
        some (item, cs.drop digits.length)
    else do
      let (e, rest) ← escaped? names cs
      match e with
      | .char n => some (⟨.char flags.folding n, true⟩, rest)
      | .named k negated => some (⟨.oneOf .none negated [.named k flags.ascii false], true⟩, rest)

/-! ### Flags and openings of groups -/

/-- A letter that stands for a flag. -/
def isFlag (c : Char) : Bool := "imsxatu".toList.contains c

/-- The flags with some of them set, each by its letter. -/
def Flags.set (f : Flags) (letters : List Char) : Flags where
  caseless := f.caseless || letters.contains 'i'
  lines := f.lines || letters.contains 'm'
  newlines := f.newlines || letters.contains 's'
  spaced := f.spaced || letters.contains 'x'
  ascii := f.ascii || letters.contains 'a'
  unicode := f.unicode || letters.contains 'u'
  unrepeated := f.unrepeated || letters.contains 't'

/-- The flags with some of them unset. -/
def Flags.unset (f : Flags) (letters : List Char) : Flags :=
  { f with
    caseless := f.caseless && !letters.contains 'i'
    lines := f.lines && !letters.contains 'm'
    newlines := f.newlines && !letters.contains 's'
    spaced := f.spaced && !letters.contains 'x' }

/-- The flags inside a group that sets and unsets some. A group that names an alphabet leaves the one
around it. -/
def Flags.within (f : Flags) (on off : List Char) : Flags :=
  let named := on.any fun c => c == 'a' || c == 'u'
  (if named then { f with ascii := false, unicode := false } else f).set on |>.unset off

/-- How a parenthesis opens a group. -/
inductive Opening where
  | numbered (name : Option String)
  | plain (flags : Flags)
  | atomic
  | ahead (negated : Bool)
  | behind (negated : Bool)
  | global (letters : List Char)
  | reference (name : String)
  | condition (name : List Char)
  | comment

/-- Reads letters of flags up to `:` or `)`. No group can set the flag that forbids repetitions, or
unset that or an alphabet, or set and unset the same flag. -/
def flagOpening? (flags : Flags) (cs : List Char) : Option (Opening × List Char) :=
  let on := cs.takeWhile isFlag
  if on.contains 'a' && on.contains 'u' then none
  else
    match cs.drop on.length with
    | ')' :: rest => if on.isEmpty then none else some (.global on, rest)
    | ':' :: rest => if on.contains 't' then none else some (.plain (flags.within on []), rest)
    | '-' :: rest =>
      let off := rest.takeWhile isFlag
      match rest.drop off.length with
      | ':' :: rest =>
        if on.contains 't' || off.isEmpty || off.any (fun c => "atu".toList.contains c || on.contains c)
        then none
        else some (.plain (flags.within on off), rest)
      | _ => none
    | _ => none

/-- What follows a comment; a backslash takes the next character into it. -/
def afterComment? (close : Char) : List Char → Option (List Char)
  | [] => none
  | [c] => if c == close then some [] else none
  | c :: d :: rest =>
    if c == close then some (d :: rest)
    else if c == '\\' then afterComment? close rest
    else afterComment? close (d :: rest)

/-- What follows a comment that the end of the line or of the text closes. -/
def afterLine? (cs : List Char) : Option (List Char) :=
  (afterComment? '\n' (cs ++ ['\n'])).map List.dropLast

/-- Reads the name of a group. -/
def groupName? (close : Char) (cs : List Char) : Option (String × List Char) := do
  let (name, rest) ← enclosed? close cs
  if Chars.isIdentifier name then some (.ofList name, rest) else none

/-- Reads what follows an opening parenthesis. -/
def opening? (flags : Flags) : List Char → Option (Opening × List Char)
  | '?' :: 'P' :: '<' :: rest =>
    (groupName? '>' rest).map fun (n, rest) => (.numbered (some n), rest)
  | '?' :: 'P' :: '=' :: rest => (groupName? ')' rest).map fun (n, rest) => (.reference n, rest)
  | '?' :: '<' :: '=' :: rest => some (.behind false, rest)
  | '?' :: '<' :: '!' :: rest => some (.behind true, rest)
  | '?' :: '=' :: rest => some (.ahead false, rest)
  | '?' :: '!' :: rest => some (.ahead true, rest)
  | '?' :: '>' :: rest => some (.atomic, rest)
  | '?' :: '#' :: rest => (afterComment? ')' rest).map fun rest => (.comment, rest)
  | '?' :: '(' :: rest => (enclosed? ')' rest).map fun (n, rest) => (.condition n, rest)
  | '?' :: rest => flagOpening? flags rest
  | rest => some (.numbered none, rest)

/-- Numbers a group that opens, and gives it its name. -/
def openGroup? (groups : Groups) (name : Option String) : Option Groups :=
  let count := groups.count + 1
  match name with
  | none => some { groups with count }
  | some n =>
    if (groups.names.lookup n).isSome then none
    else some { groups with count, names := (n, count) :: groups.names }

/-- The groups inside a condition on what stands before, which may not refer to its own. -/
def Groups.limited (groups : Groups) : Groups :=
  { groups with limit := groups.limit <|> some groups.count }

/-- A blank that is passed over where a pattern is written with blanks. -/
def isPadding (c : Char) : Bool :=
  c == ' ' || (9 ≤ c.toNat && c.toNat ≤ 13)

/-- Reads the flags of all of the pattern at its start, with the comments and blanks between them. -/
def leadingFlags? : Nat → Flags → List Char → Option (Flags × List Char)
  | 0, _, _ => none
  | _ + 1, flags, [] => some (flags, [])
  | fuel + 1, flags, c :: rest =>
    if flags.spaced && isPadding c then leadingFlags? fuel flags rest
    else if flags.spaced && c == '#' then (afterLine? rest).bind (leadingFlags? fuel flags)
    else if c == '(' then do
      match ← opening? flags rest with
      | (.comment, rest) => leadingFlags? fuel flags rest
      | (.global letters, rest) => leadingFlags? fuel (flags.set letters) rest
      | _ => some (flags, c :: rest)
    else some (flags, c :: rest)

/-! ### Choices -/

/-- The item of a character that stands for itself or for a place or class. -/
def charItem (flags : Flags) (c : Char) : Item :=
  if c == '.' then ⟨.any flags.newlines, true⟩
  else if c == '^' then ⟨.anchor (if flags.lines then .lineStart else .textStart), false⟩
  else if c == '$' then ⟨.anchor (if flags.lines then .lineEnd else .lastLineEnd), false⟩
  else ⟨.char flags.folding c.toNat, true⟩

/-- What the reader of a choice gives: a pattern, what is known about groups, and the rest. -/
structure Read where
  pattern : Pattern
  groups : Groups
  rest : List Char

/-- What was read up to a closing parenthesis, with the rest after it. -/
def Read.closed? (r : Read) : Option Read :=
  match r.rest with
  | ')' :: rest => some { r with rest }
  | _ => none

/-- Closes a numbered group. -/
def Read.closeGroup (r : Read) (number : Nat) : Read :=
  { r with
    pattern := .group number r.pattern
    groups := { r.groups with
      closed := (number, r.pattern.width r.groups.closed) :: r.groups.closed } }

/-- Closes a condition on what stands before, which must have one width; `limit` is the one around it. -/
def Read.closeBehind (r : Read) (negated : Bool) (limit : Option Nat) : Read :=
  let w := r.pattern.width r.groups.closed
  let fixed := w.most == some w.least && w.least ≤ 0xffffffff
  { r with
    pattern := .behind negated w.least r.pattern
    groups := { r.groups with limit, flawed := r.groups.flawed || !fixed } }

mutual

/-- Reads a choice up to its end: the end of the text or a closing parenthesis. -/
def choice? (names : String → Option Nat) :
    Nat → Flags → Groups → List Char → Except PatternFault Read
  | 0, _, _, _ => .error .malformed
  | fuel + 1, flags, groups, cs => do
    let r ← branch? names fuel flags groups [] cs
    match r.rest with
    | '|' :: rest =>
      let others ← choice? names fuel flags r.groups rest
      return { others with pattern := .alt r.pattern others.pattern }
    | _ => return r

/-- Reads a branch of a choice up to its end; `items` are those read before, last first. -/
def branch? (names : String → Option Nat) :
    Nat → Flags → Groups → List Item → List Char → Except PatternFault Read
  | 0, _, _, _, _ => .error .malformed
  | _ + 1, _, groups, items, [] => .ok ⟨sequence items, groups, []⟩
  | fuel + 1, flags, groups, items, c :: rest => do
    if c == ')' || c == '|' then return ⟨sequence items, groups, c :: rest⟩
    else if flags.spaced && isPadding c then branch? names fuel flags groups items rest
    else if flags.spaced && c == '#' then
      branch? names fuel flags groups items (← required (afterLine? rest))
    else if c == '[' then
      let (p, rest) ← required (set? names flags rest)
      branch? names fuel flags groups (⟨p, true⟩ :: items) rest
    else if c == '\\' then
      let (item, rest) ← required (escapedItem? names flags groups rest)
      branch? names fuel flags groups (item :: items) rest
    else if c == '(' then
      let (opening, rest) ← required (opening? flags rest)
      match opening with
      | .comment => branch? names fuel flags groups items rest
      -- flags of all of the pattern stand at its start only
      | .global _ => .error .malformed
      | .reference name =>
        let item ← required ((groups.names.lookup name).bind (reference? flags groups))
        branch? names fuel flags groups (item :: items) rest
      | .numbered name =>
        let opened ← required (openGroup? groups name)
        let r ← required (← choice? names fuel flags opened rest).closed?
        let r := r.closeGroup opened.count
        branch? names fuel flags r.groups (⟨r.pattern, true⟩ :: items) r.rest
      | .plain inside =>
        let r ← required (← choice? names fuel inside groups rest).closed?
        branch? names fuel flags r.groups (⟨r.pattern, true⟩ :: items) r.rest
      | .atomic =>
        let r ← required (← choice? names fuel flags groups rest).closed?
        branch? names fuel flags r.groups (⟨.atomic r.pattern, true⟩ :: items) r.rest
      | .ahead negated =>
        let r ← required (← choice? names fuel flags groups rest).closed?
        branch? names fuel flags r.groups (⟨.ahead negated r.pattern, true⟩ :: items) r.rest
      | .behind negated =>
        let r ← required (← choice? names fuel flags groups.limited rest).closed?
        let r := r.closeBehind negated groups.limit
        branch? names fuel flags r.groups (⟨r.pattern, true⟩ :: items) r.rest
      | .condition name =>
        let (n, groups) ← required (askedGroup? groups name)
        let yes ← branch? names fuel flags groups [] rest
        -- a condition has one branch or two
        let no ← match yes.rest with
          | '|' :: rest => branch? names fuel flags yes.groups [] rest
          | _ => pure { yes with pattern := .empty }
        let r ← required no.closed?
        branch? names fuel flags r.groups (⟨.ifGroup n yes.pattern r.pattern, true⟩ :: items) r.rest
    else
      match ← count? (c :: rest) with
      | none => branch? names fuel flags groups (charItem flags c :: items) rest
      | some (n, rest) =>
        let (e, rest) := eagerness rest
        let items ← required (repeatLast? n e items)
        branch? names fuel flags { groups with flawed := groups.flawed || flags.unrepeated } items rest

end

/-- The pattern that a text writes; `names` gives the characters that have names. -/
def parse (names : String → Option Nat) (text : String) : Except PatternFault Pattern := do
  let cs := text.toList
  let (flags, body) ← required (leadingFlags? (cs.length + 1) {} cs)
  let r ← choice? names (2 * body.length + 2) flags {} body
  if flags.ascii && flags.unicode then .error .mixedAlphabets
  else if !r.rest.isEmpty || r.groups.count < r.groups.asked || r.groups.flawed then .error .malformed
  else return r.pattern

end Concordance.Pattern
