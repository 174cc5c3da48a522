import Concordance.Proofs.Toml.Value
import Concordance.Toml.Document

/-!
# Written documents read back

A document that is written line by line is read line by line: blank lines and comments say nothing,
a header and a key with its value say what they name. So the statements of the document are those of
its lines, if all the values are clean. A single value that is not leaves no document at all
(`parse?_writeLines`). In particular a value that is written after a key comes back just if no text in
it has a control character (`parse?_assigned`).
-/

namespace Concordance.Toml

open Chars (joinReturns)

/-- A line of a document: a blank one, a comment, the header of a table, or a key with its value. -/
inductive Line where
  | blank
  | comment (words : String)
  | header (name : String)
  | field (key : String) (value : Toml)

/-- Whether a name is written without quotes. -/
def isBareName (name : String) : Bool := !name.toList.isEmpty && name.toList.all isBare

namespace Line

/-- The text of a line. -/
def write : Line → List Char
  | .blank => []
  | .comment words => '#' :: words.toList
  | .header name => '[' :: (name.toList ++ [']'])
  | .field key value => key.toList ++ " = ".toList ++ value.write

/-- What a line says. -/
def statement? : Line → Option Statement
  | .header name => some (.header [name])
  | .field key value => some (.assignment [key] value)
  | _ => none

/-- A line that can be written: its names need no quotes, its comment has no control characters, and
its value has a written form. -/
inductive WellFormed : Line → Prop
  | blank : WellFormed .blank
  | comment {words : String} (h : hasNoControl words.toList) : WellFormed (.comment words)
  | header {name : String} (h : isBareName name) : WellFormed (.header name)
  | field {key : String} {value : Toml} (h : isBareName key) (hvalue : Writable value) :
      WellFormed (.field key value)

/-- Whether the value of a line is clean. -/
def isClean : Line → Bool
  | .field _ value => value.isClean
  | _ => true

end Line

/-! ### Keys -/

/-- A character of a key is none that means anything else. -/
theorem ne_of_isBare {c d : Char} (hc : isBare c) (hd : isBare d = false) : c ≠ d := by
  rintro rfl
  rw [hd] at hc
  cases hc

/-- A name without quotes starts with one of its characters. -/
theorem exists_toList_cons {name : String} (h : isBareName name) :
    ∃ c cs, name.toList = c :: cs ∧ isBare c ∧ ∀ d ∈ name.toList, isBare d := by
  rw [isBareName, Bool.and_eq_true, List.all_eq_true] at h
  cases hname : name.toList with
  | nil =>
      rw [hname] at h
      exact absurd h.1 (by decide)
  | cons c cs =>
      rw [hname] at h
      exact ⟨c, cs, rfl, h.2 c List.mem_cons_self, h.2⟩

/-- A name without quotes has no carriage return. -/
theorem return_notMem_of_isBareName {name : String} (h : isBareName name) : '\r' ∉ name.toList := by
  obtain ⟨-, -, -, -, hall⟩ := exists_toList_cons h
  exact fun hmem => absurd (hall _ hmem) (by decide)

/-- A name without quotes is read up to what is no character of a key. -/
theorem keyPart?_bare {name : String} (h : isBareName name) {c : Char} (hc : isBare c = false)
    (rest : List Char) : keyPart? (name.toList ++ c :: rest) = some (name, c :: rest) := by
  obtain ⟨d, ds, hname, hd, hall⟩ := exists_toList_cons h
  have htake : (name.toList ++ c :: rest).takeWhile isBare = name.toList := by
    rw [List.takeWhile_append_of_pos hall, List.takeWhile_cons_of_neg (by simp [hc]),
      List.append_nil]
  rw [keyPart?]
  · have hsome : name.toList.isEmpty = false := by rw [hname]; rfl
    simp only [htake, hsome, Bool.false_eq_true, if_false, String.ofList_toList,
      List.drop_left]
  · intro more hmore
    rw [hname] at hmore
    exact ne_of_isBare hd (by decide) (List.cons.inj hmore).1
  · intro more hmore
    rw [hname] at hmore
    exact ne_of_isBare hd (by decide) (List.cons.inj hmore).1

/-- A name is a key of one part, if no dot follows. -/
theorem key?_bare {name : String} (h : isBareName name) {c d : Char} (hc : isBare c = false)
    {rest more : List Char} (hskip : skipSpaces (c :: rest) = d :: more) (hd : d ≠ '.') :
    key? (name.toList ++ c :: rest) = some ([name], d :: more) := by
  rw [key?, keyFrom?, keyPart?_bare h hc, Option.bind_eq_bind, Option.bind_some]
  dsimp only
  rw [hskip]
  split
  · next heq => exact absurd (List.cons.inj heq).1 hd
  · rfl

/-! ### Statements -/

/-- A header is read as the name of a table. -/
theorem statement?_header {name : String} (h : isBareName name) (rest : List Char) :
    statement? ('[' :: (name.toList ++ ']' :: rest)) = some (.header [name], rest) := by
  obtain ⟨c, cs, hname, hc, -⟩ := exists_toList_cons h
  have hspace : skipSpaces (name.toList ++ ']' :: rest) = name.toList ++ ']' :: rest := by
    have hc' : isSpace c = false := by
      simp [isSpace, ne_of_isBare hc (show isBare ' ' = false by decide),
        ne_of_isBare hc (show isBare '\t' = false by decide)]
    rw [hname, skipSpaces, List.cons_append, List.dropWhile_cons_of_neg (by simp [hc'])]
  have hkey : key? (name.toList ++ ']' :: rest) = some ([name], ']' :: rest) :=
    key?_bare h (by decide) rfl (by decide)
  rw [statement?]
  · rw [hspace, hkey]
    rfl
  · intro more hmore
    rw [hname] at hmore
    exact ne_of_isBare hc (by decide) (List.cons.inj hmore).1

/-- A key with its value is read back, if the value is clean. -/
theorem statement?_field {key : String} (h : isBareName key) {v : Toml} (hv : Writable v)
    {rest : List Char} (hrest : Stops rest) :
    statement? (key.toList ++ ' ' :: '=' :: ' ' :: joinReturns (v.write ++ rest)) =
      if v.isClean then some (.assignment [key] v, joinReturns rest) else none := by
  obtain ⟨c, cs, hkey, hc, -⟩ := exists_toList_cons h
  obtain ⟨d, ds, hwrite, hd⟩ := hv.exists_write_cons
  have hreturn : d ≠ '\r' := by rintro rfl; exact absurd hd (by decide)
  have hspace : isSpace d = false := by
    simp only [opensItem, Bool.not_eq_true', Bool.or_eq_false_iff] at hd
    exact hd.1.1.1.1
  have hjoin : joinReturns (v.write ++ rest) = d :: joinReturns (ds ++ rest) := by
    rw [hwrite, List.cons_append, Chars.joinReturns_cons hreturn]
  have hskip : skipSpaces (' ' :: joinReturns (v.write ++ rest)) = joinReturns (v.write ++ rest) := by
    rw [hjoin, skipSpaces, List.dropWhile_cons_of_pos (by rfl),
      List.dropWhile_cons_of_neg (by simp [hspace])]
  generalize hcs : key.toList ++ ' ' :: '=' :: ' ' :: joinReturns (v.write ++ rest) = text
  have hfuel : (joinReturns v.write).length < text.length + 1 := by
    have hle := Chars.length_joinReturns_le v.write rest
    rw [← hcs, List.length_append]
    simp only [List.length_cons]
    omega
  have hvalue := value?_write hv hrest hfuel
  have hname : key? text = some ([key], '=' :: ' ' :: joinReturns (v.write ++ rest)) := by
    rw [← hcs]
    exact key?_bare h (by decide) rfl (by decide)
  have hassignment : statement? text = assignment? text := by
    rw [← hcs, hkey, List.cons_append, statement?]
    · exact fun more hmore => ne_of_isBare hc (by decide) (List.cons.inj hmore).1
    · exact fun more hmore => ne_of_isBare hc (by decide) (List.cons.inj hmore).1
  have hafter : ∀ more, after? ['='] ('=' :: more) = some more := fun more => rfl
  rw [hassignment, assignment?, hname, Option.bind_eq_bind, Option.bind_some]
  dsimp only
  rw [hafter, Option.bind_eq_bind, Option.bind_some, hskip, hvalue]
  by_cases hclean : v.isClean = true
  · rw [if_pos hclean, if_pos hclean]
    rfl
  · rw [if_neg hclean, if_neg hclean]
    rfl

/-- The text of a key with its value, once its line ends are joined. -/
theorem joinReturns_field {key : String} (h : isBareName key) (v : Toml) (rest : List Char) :
    joinReturns (Line.write (.field key v) ++ rest) =
      key.toList ++ ' ' :: '=' :: ' ' :: joinReturns (v.write ++ rest) := by
  have hassoc : Line.write (.field key v) ++ rest =
      key.toList ++ ' ' :: '=' :: ' ' :: (v.write ++ rest) := by
    rw [Line.write, List.append_assoc, List.append_assoc]
    rfl
  rw [hassoc, Chars.joinReturns_append (return_notMem_of_isBareName h),
    Chars.joinReturns_cons (by decide), Chars.joinReturns_cons (by decide),
    Chars.joinReturns_cons (by decide)]

/-- A comment without control characters ends with its line. -/
theorem lineEnd?_comment {text : List Char} (h : hasNoControl text) (rest : List Char) :
    lineEnd? ('#' :: (text ++ '\n' :: rest)) = some rest := by
  have hall : ∀ c ∈ text, (c != '\n') = true := by
    intro c hc
    have hcontrol := List.all_eq_true.mp h c hc
    rw [bne_iff_ne]
    rintro rfl
    exact absurd hcontrol (by decide)
  have htake : (text ++ '\n' :: rest).takeWhile (· != '\n') = text := by
    rw [List.takeWhile_append_of_pos hall, List.takeWhile_cons_of_neg (by decide), List.append_nil]
  have hnone : text.any isControl = false := by
    rw [List.any_eq_false]
    intro c hc
    simpa using List.all_eq_true.mp h c hc
  have hdrop : (text ++ '\n' :: rest).drop (text.length + 1) = rest := by
    rw [List.drop_append, List.drop_eq_nil_of_le (Nat.le_succ _), Nat.add_sub_cancel_left]
    rfl
  rw [lineEnd?]
  simp only [skipSpaces, List.dropWhile_cons_of_neg (show ¬ isSpace '#' = true by decide), htake,
    hnone, hdrop]
  rfl

/-! ### Lines -/

/-- A line that starts with no blank and no comment has a statement. -/
theorem statements?_succ {c : Char} (hspace : isSpace c = false) (hnewline : c ≠ '\n')
    (hcomment : c ≠ '#') (fuel : Nat) (cs : List Char) :
    statements? (fuel + 1) (c :: cs) =
      (statement? (c :: cs)).bind fun (s, rest) =>
        (lineEnd? rest).bind fun rest => (statements? fuel rest).map (s :: ·) := by
  have hskip : skipSpaces (c :: cs) = c :: cs := by
    rw [skipSpaces, List.dropWhile_cons_of_neg (by simp [hspace])]
  rw [statements?, hskip]
  dsimp only
  rw [if_neg (by simp [hnewline, hcomment])]
  cases statement? (c :: cs) with
  | none => rfl
  | some found =>
      obtain ⟨s, rest⟩ := found
      simp only [Option.bind_eq_bind, Option.bind_some]
      cases lineEnd? rest with
      | none => rfl
      | some rest =>
          simp only [Option.bind_some]
          cases statements? fuel rest <;> rfl

/-- A key with its value is the first statement, if the value is clean; else there are none. -/
theorem statements?_field {key : String} (h : isBareName key) {v : Toml} (hv : Writable v)
    {rest : List Char} (hrest : Stops rest) (fuel : Nat) :
    statements? (fuel + 1) (key.toList ++ ' ' :: '=' :: ' ' :: joinReturns (v.write ++ rest)) =
      if v.isClean then
        (lineEnd? (joinReturns rest)).bind fun rest =>
          (statements? fuel rest).map (.assignment [key] v :: ·)
      else none := by
  obtain ⟨c, cs, hkey, hc, -⟩ := exists_toList_cons h
  have hspace : isSpace c = false := by
    simp [isSpace, ne_of_isBare hc (show isBare ' ' = false by decide),
      ne_of_isBare hc (show isBare '\t' = false by decide)]
  have hstatement := statement?_field h hv hrest
  rw [hkey, List.cons_append] at hstatement ⊢
  rw [statements?_succ hspace (ne_of_isBare hc (by decide)) (ne_of_isBare hc (by decide)),
    hstatement]
  by_cases hclean : v.isClean = true
  · rw [if_pos hclean, if_pos hclean]
    rfl
  · rw [if_neg hclean, if_neg hclean]
    rfl

/-- A line without a statement leaves it to the others. -/
theorem map_nil_append {α : Type} (found : Option (List α)) : found.map ([] ++ ·) = found := by
  cases found <;> rfl

/-- **One line.** A line says what it says, and then comes the next one; if its value is not clean,
there is no document. -/
theorem statements?_line {line : Line} (hline : line.WellFormed) (fuel : Nat) (rest : List Char) :
    statements? (fuel + 1) (joinReturns (line.write ++ '\n' :: rest)) =
      if line.isClean then
        (statements? fuel (joinReturns rest)).map (line.statement?.toList ++ ·)
      else none := by
  cases hline with
  | blank =>
      change statements? (fuel + 1) (joinReturns ('\n' :: rest)) =
        (statements? fuel (joinReturns rest)).map ([] ++ ·)
      rw [Chars.joinReturns_cons (by decide), map_nil_append]
      rfl
  | @comment words h =>
      have hreturn : '\r' ∉ words.toList := fun hmem =>
        absurd (List.all_eq_true.mp h _ hmem) (by decide)
      change statements? (fuel + 1) (joinReturns ('#' :: (words.toList ++ '\n' :: rest))) =
        (statements? fuel (joinReturns rest)).map ([] ++ ·)
      rw [Chars.joinReturns_cons (by decide), Chars.joinReturns_append hreturn,
        Chars.joinReturns_cons (by decide), map_nil_append]
      change (lineEnd? ('#' :: (words.toList ++ '\n' :: joinReturns rest))).bind
        (statements? fuel) = _
      rw [lineEnd?_comment h, Option.bind_some]
  | @header name h =>
      have htext : joinReturns (Line.write (.header name) ++ '\n' :: rest) =
          '[' :: (name.toList ++ ']' :: '\n' :: joinReturns rest) := by
        rw [Line.write, List.cons_append, List.append_assoc, List.singleton_append,
          Chars.joinReturns_cons (by decide),
          Chars.joinReturns_append (return_notMem_of_isBareName h),
          Chars.joinReturns_cons (by decide), Chars.joinReturns_cons (by decide)]
      rw [htext, statements?_succ (by decide) (by decide) (by decide), statement?_header h]
      rfl
  | @field key v h hv =>
      rw [joinReturns_field h, statements?_field h hv (.newline rest),
        Chars.joinReturns_cons (by decide)]
      rfl

/-- The text of some lines; every line ends with a newline. -/
def writeLines (lines : List Line) : List Char := lines.flatMap fun line => line.write ++ ['\n']

theorem writeLines_cons (line : Line) (lines : List Line) :
    writeLines (line :: lines) = line.write ++ '\n' :: writeLines lines := by
  rw [writeLines, List.flatMap_cons, List.append_assoc]
  rfl

/-- **A whole document.** Its statements are those of its lines, if all its values are clean; else it
has none. -/
theorem statements?_writeLines {lines : List Line} (hlines : ∀ line ∈ lines, line.WellFormed)
    {fuel : Nat} (hfuel : lines.length < fuel) :
    statements? fuel (joinReturns (writeLines lines)) =
      if lines.all Line.isClean then some (lines.filterMap Line.statement?) else none := by
  induction lines generalizing fuel with
  | nil =>
      obtain ⟨fuel, rfl⟩ : ∃ k, fuel = k + 1 := ⟨fuel - 1, by omega⟩
      rfl
  | cons line lines ih =>
      obtain ⟨hline, hlines⟩ := List.forall_mem_cons.mp hlines
      rw [List.length_cons] at hfuel
      obtain ⟨fuel, rfl⟩ : ∃ k, fuel = k + 1 := ⟨fuel - 1, by omega⟩
      rw [writeLines_cons, statements?_line hline, ih hlines (by omega), List.all_cons, List.filterMap_cons]
      by_cases hclean : line.isClean = true
      · rw [if_pos hclean, hclean, Bool.true_and]
        by_cases hrest : lines.all Line.isClean = true
        · rw [if_pos hrest, if_pos hrest]
          cases line.statement? <;> rfl
        · rw [if_neg hrest, if_neg hrest]
          rfl
      · rw [if_neg hclean, if_neg (by simp [hclean])]

/-- A document has no more lines than characters, also once its line ends are joined. -/
theorem length_le_writeLines (lines : List Line) :
    lines.length ≤ (joinReturns (writeLines lines)).length := by
  induction lines with
  | nil => exact Nat.zero_le _
  | cons line lines ih =>
      have hnext := Chars.succ_length_joinReturns_le line.write (writeLines lines)
      rw [writeLines_cons, List.length_cons]
      omega

/-- **What a written document is read as**: what its statements make, if all its values are clean;
else it is no document. -/
theorem parse?_writeLines {lines : List Line} (hlines : ∀ line ∈ lines, line.WellFormed) :
    parse? (writeLines lines) =
      if lines.all Line.isClean then
        ((lines.filterMap Line.statement?).foldlM Draft.step? {}).map (valuesOf ·.entries)
      else none := by
  rw [parse?, statements?_writeLines hlines (Nat.lt_succ_of_le (length_le_writeLines lines))]
  by_cases hclean : lines.all Line.isClean = true
  · rw [if_pos hclean, if_pos hclean, Option.bind_eq_bind, Option.bind_some]
    cases (lines.filterMap Line.statement?).foldlM Draft.step? {} <;> rfl
  · rw [if_neg hclean, if_neg hclean]
    rfl

/-! ### A document of one field -/

/-- A text that stands in a value, in a list of any depth. -/
inductive HasText (s : String) : Toml → Prop
  | text : HasText s (.text s)
  | item {items : List Toml} {v : Toml} (hv : v ∈ items) (h : HasText s v) : HasText s (.array items)

/-- A value in which no text has a control character other than a tab: none of U+0000 to U+001F, and
not U+007F. -/
def IsControlFree (v : Toml) : Prop :=
  ∀ s, HasText s v → ∀ c ∈ s.toList, c.toNat ≤ 0x1f ∨ c.toNat = 0x7f → c = '\t'

/-- The control characters that the reader refuses. -/
theorem isControl_iff (c : Char) : isControl c ↔ (c.toNat ≤ 0x1f ∨ c.toNat = 0x7f) ∧ c ≠ '\t' := by
  rw [isControl, Bool.or_eq_true, Bool.and_eq_true, decide_eq_true_eq, bne_iff_ne, beq_iff_eq]
  constructor
  · rintro (⟨hlow, htab⟩ | hdelete)
    · exact ⟨.inl (by omega), htab⟩
    · refine ⟨.inr hdelete, ?_⟩
      rintro rfl
      exact absurd hdelete (by decide)
  · rintro ⟨hlow | hdelete, htab⟩
    · exact .inl ⟨by omega, htab⟩
    · exact .inr hdelete

/-- A text without control characters may have tabs. -/
theorem hasNoControl_iff (cs : List Char) :
    hasNoControl cs ↔ ∀ c ∈ cs, c.toNat ≤ 0x1f ∨ c.toNat = 0x7f → c = '\t' := by
  rw [hasNoControl, List.all_eq_true]
  apply forall₂_congr
  intro c _
  rw [Bool.not_eq_true', ← Bool.not_eq_true, isControl_iff, not_and, Classical.not_not]

theorem areClean_iff (items : List Toml) : areClean items ↔ ∀ v ∈ items, v.isClean := by
  induction items with
  | nil => simp [areClean]
  | cons v items ih => rw [areClean, Bool.and_eq_true, ih, List.forall_mem_cons]

/-- A value is clean if its texts are, however deep they stand. -/
theorem Writable.isClean_iff {v : Toml} (hv : Writable v) : v.isClean ↔ v.IsControlFree := by
  induction hv with
  | bool b =>
      refine iff_of_true rfl ?_
      intro s hs
      cases hs
  | integer i =>
      refine iff_of_true rfl ?_
      intro s hs
      cases hs
  | text s =>
      rw [isClean, hasNoControl_iff]
      constructor
      · intro h t ht
        cases ht
        exact h
      · intro h
        exact h s .text
  | @array items _ ih =>
      rw [isClean, areClean_iff]
      constructor
      · intro h s hs
        cases hs with
        | item hv hs => exact (ih _ hv).mp (h _ hv) s hs
      · intro h v hv
        exact (ih v hv).mpr fun s hs => h s (.item hv hs)

/-- **A single field.** A key with its value is the whole document, if the value is clean; else it is
none. -/
theorem parse?_field {key : String} (h : isBareName key) {v : Toml} (hv : Writable v) :
    parse? (Line.write (.field key v)) = if v.isClean then some [(key, v)] else none := by
  have htext := joinReturns_field h v []
  rw [List.append_nil] at htext
  obtain ⟨fuel, hfuel⟩ : ∃ k, (joinReturns (Line.write (.field key v))).length = k + 1 := by
    apply Nat.exists_eq_succ_of_ne_zero
    rw [htext, List.length_append, List.length_cons]
    omega
  rw [parse?, hfuel, htext, statements?_field h hv .nil]
  by_cases hclean : v.isClean = true
  · rw [if_pos hclean, if_pos hclean]
    rfl
  · rw [if_neg hclean, if_neg hclean]
    rfl

/-- **A value is written faithfully just if it is free of control characters.** Of a truth value, an
integer, a text or a list of such values, at any depth, the text after `x = ` is read as the table in
which `x` is that value, if no text in it has a control character other than a tab. With a single one
it is no document at all. So the value comes back only in the first case. -/
theorem parse?_assigned {v : Toml} (hv : Writable v) :
    (v.IsControlFree → parse? ("x = ".toList ++ v.write) = some [("x", v)]) ∧
      (¬ v.IsControlFree → parse? ("x = ".toList ++ v.write) = none) ∧
      ((∃ fields, parse? ("x = ".toList ++ v.write) = some fields ∧ fields.lookup "x" = some v) ↔
        v.IsControlFree) := by
  have hread : parse? ("x = ".toList ++ v.write) = if v.isClean then some [("x", v)] else none :=
    @parse?_field "x" (by decide) v hv
  rw [← hv.isClean_iff, hread]
  by_cases hclean : v.isClean = true
  · rw [if_pos hclean]
    exact ⟨fun _ => rfl, fun h => absurd hclean h, iff_of_true ⟨_, rfl, rfl⟩ hclean⟩
  · rw [if_neg hclean]
    refine ⟨fun h => absurd h hclean, fun _ => rfl, iff_of_false ?_ hclean⟩
    rintro ⟨fields, hfields, -⟩
    cases hfields

/-- A list of a text with a tab, a quote and a backslash, an empty list, the empty text in a list, a
truth value and an integer. -/
def mixedList : Toml :=
  .array [.text "a\t\"\\b", .array [], .array [.text ""], .bool true, .number (.integer (-7))]

/-- A carriage return before a newline, two lists deep. -/
def deepReturn : Toml := .array [.bool false, .array [.text "a\r\nb"]]

/-- The mixed list comes back; with the carriage return nothing is read. -/
theorem parse?_assigned_mixed :
    parse? ("x = ".toList ++ mixedList.write) = some [("x", mixedList)] ∧
      parse? ("x = ".toList ++ deepReturn.write) = none := by
  have hmixed : Writable mixedList := by
    refine .array (List.forall_mem_cons.mpr ⟨.text _, List.forall_mem_cons.mpr ⟨.array ?_,
      List.forall_mem_cons.mpr ⟨.array ?_, List.forall_mem_cons.mpr ⟨.bool _,
        List.forall_mem_cons.mpr ⟨.integer _, ?_⟩⟩⟩⟩⟩)
    · exact fun v hv => nomatch hv
    · exact List.forall_mem_cons.mpr ⟨.text _, fun v hv => nomatch hv⟩
    · exact fun v hv => nomatch hv
  have hdeep : Writable deepReturn := by
    refine .array (List.forall_mem_cons.mpr ⟨.bool _, List.forall_mem_cons.mpr ⟨.array ?_, ?_⟩⟩)
    · exact List.forall_mem_cons.mpr ⟨.text _, fun v hv => nomatch hv⟩
    · exact fun v hv => nomatch hv
  have hclean : mixedList.isClean = true := by decide
  have hunclean : deepReturn.isClean = false := by decide
  refine ⟨(parse?_assigned hmixed).1 (hmixed.isClean_iff.mp hclean),
    (parse?_assigned hdeep).2.1 fun h => ?_⟩
  rw [hdeep.isClean_iff.mpr h] at hunclean
  cases hunclean

end Concordance.Toml
