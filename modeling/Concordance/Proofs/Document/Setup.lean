import Concordance.Document.Setup
import Concordance.Proofs.Document.Place
import Concordance.Proofs.Document.Script
import Mathlib.Data.List.DropRight

/-!
# Setup macros

A script whose tag has the attribute `setup` (`isSetup_iff`) declares by its macros: there is one symbol
for each place at which a call of a macro begins (`declaresMacros_setupSymbols`).

Between the word of a macro and the mark that opens its call there may be blanks of any kind, but at
the end of a call only the plain ones are left out: blanks, tabs and newlines. So the symbol of a call
covers the word and the blanks behind it up to the last one that is not plain, and it covers the word
alone just if all of them are plain (`setup_symbols_cover`). A carriage return before the newline is
covered (`setup_symbols_cover_return`).
-/

namespace Concordance

namespace Chars

variable {p q : Char → Bool}

theorem dropEnd_congr {cs : List Char} (h : ∀ c ∈ cs, p c = q c) : dropEnd p cs = dropEnd q cs := by
  induction cs using List.reverseRecOn with
  | nil => rfl
  | append_singleton cs c ih =>
      have hc := h c (List.mem_append_right _ List.mem_cons_self)
      have hrest := ih fun d hd => h d (List.mem_append_left _ hd)
      change List.rdropWhile p (cs ++ [c]) = List.rdropWhile q (cs ++ [c])
      rw [List.rdropWhile_concat, List.rdropWhile_concat, hc]
      split
      · exact hrest
      · rfl

/-- A text of which nothing is left out stays whole in front of another. -/
theorem dropEnd_append {front : List Char} (hfront : dropEnd p front = front) (back : List Char) :
    dropEnd p (front ++ back) = front ++ dropEnd p back := by
  induction back using List.reverseRecOn with
  | nil => simpa [dropEnd] using hfront
  | append_singleton back c ih =>
      change List.rdropWhile p (front ++ (back ++ [c])) = front ++ List.rdropWhile p (back ++ [c])
      rw [← List.append_assoc, List.rdropWhile_concat, List.rdropWhile_concat]
      split
      · exact ih
      · rw [List.append_assoc]

end Chars

namespace Document

/-- A blank that is left out at the end of a call. -/
def isPlainBlank (c : Char) : Bool := [' ', '\t', '\n'].contains c

/-- A call of a macro in a script: its word behind some text, then blanks of any kind, then a mark
that opens the call. -/
structure MacroCall (script : List Char) (m : Macro) (before blanks : List Char) (mark : Char) :
    Prop where
  known : m ∈ macros
  stands : before ++ m.word ++ blanks ++ [mark] <+: script
  blank : ∀ c ∈ blanks, Chars.isBlank c = true
  opens : mark ∈ m.opens

/-! ### Calls -/

/-- A macro that is called stands at the beginning of the text: its word, blanks, and what opens the
call. -/
theorem macroCall?_eq_some {m : Macro} {previous : Option Char} {cs call : List Char}
    (h : macroCall? m previous cs = some call) :
    ∃ blanks mark, call = m.word ++ blanks ++ [mark] ∧ call <+: cs ∧
      (∀ c ∈ blanks, Chars.isBlank c = true) ∧ mark ∈ m.opens := by
  unfold macroCall? at h
  split at h
  · next hstart =>
    obtain ⟨tail, rfl⟩ := List.isPrefixOf_iff_prefix.mp (Bool.and_eq_true_iff.mp hstart).2
    dsimp only at h
    rw [List.drop_left, List.drop_length_add_append] at h
    split at h
    · next hopens =>
      cases h
      obtain ⟨mark, hhead, hmark⟩ := (Option.any_eq_true _ _).mp hopens
      obtain ⟨rest, hrest⟩ := List.head?_eq_some_iff.mp hhead
      have hsplit := (Chars.eq_takeWhile_append hrest).1
      have hblank : ∀ c ∈ tail.takeWhile Chars.isBlank, Chars.isBlank c = true :=
        fun c hc => List.mem_takeWhile_imp hc
      generalize tail.takeWhile Chars.isBlank = blanks at hsplit hblank ⊢
      subst hsplit
      refine ⟨blanks, mark, ?_, List.take_prefix _ _, hblank, List.contains_iff_mem.mp hmark⟩
      rw [← List.append_assoc, ← List.length_append, List.take_length_add_append]
      rfl
    · cases h
  · cases h

/-- A call that is found is one of the script, at its place. -/
theorem macroCall_of_mem {m : Macro} (hm : m ∈ macros) {cs : List Char} {place : Nat}
    {previous : Option Char} {found : Nat × List Char}
    (h : found ∈ macroCallsFrom m place previous cs) :
    ∃ before blanks mark, MacroCall cs m before blanks mark ∧
      found = (place + before.length, m.word ++ blanks ++ [mark]) := by
  induction cs generalizing place previous with
  | nil => cases h
  | cons c cs ih =>
      have hothers : found ∈ macroCallsFrom m (place + 1) (some c) cs →
          ∃ before blanks mark, MacroCall (c :: cs) m before blanks mark ∧
            found = (place + before.length, m.word ++ blanks ++ [mark]) := by
        intro hrest
        obtain ⟨before, blanks, mark, hcall, rfl⟩ := ih hrest
        refine ⟨c :: before, blanks, mark, ⟨hm, ?_, hcall.blank, hcall.opens⟩, ?_⟩
        · exact (List.prefix_cons_inj c).mpr hcall.stands
        · rw [List.length_cons, Nat.add_right_comm, Nat.add_assoc]
      rw [macroCallsFrom] at h
      split at h
      · next call hcall =>
        rcases List.mem_cons.mp h with rfl | h
        · obtain ⟨blanks, mark, rfl, hprefix, hblank, hopens⟩ := macroCall?_eq_some hcall
          exact ⟨[], blanks, mark, ⟨hm, hprefix, hblank, hopens⟩, rfl⟩
        · exact hothers h
      · exact hothers h

/-- Of a call, the word and the blanks behind it up to the last one that is not plain are kept. -/
theorem MacroCall.macroWord_eq {script before blanks : List Char} {m : Macro} {mark : Char}
    (h : MacroCall script m before blanks mark) :
    macroWord (m.word ++ blanks ++ [mark]) = m.word ++ Chars.dropEnd isPlainBlank blanks := by
  have hmacros : macros.all (fun m => macroWord m.word == m.word &&
      m.opens.all fun c => ['<', '(', ' ', '\t', '\n'].contains c) = true := by decide
  have hm := List.all_eq_true.mp hmacros m h.known
  simp only [Bool.and_eq_true, beq_iff_eq, List.all_eq_true] at hm
  have hmark := hm.2 mark h.opens
  have hblanks : macroWord blanks = Chars.dropEnd isPlainBlank blanks := by
    refine Chars.dropEnd_congr fun c hc => ?_
    have hblank := h.blank c hc
    have hangle : c ≠ '<' := by rintro rfl; exact absurd hblank (by decide)
    have hround : c ≠ '(' := by rintro rfl; exact absurd hblank (by decide)
    simp [isPlainBlank, hangle, hround]
  calc macroWord (m.word ++ blanks ++ [mark])
      = macroWord (m.word ++ blanks) := by
        change List.rdropWhile _ (m.word ++ blanks ++ [mark]) = List.rdropWhile _ (m.word ++ blanks)
        rw [List.rdropWhile_concat, if_pos hmark]
    _ = m.word ++ macroWord blanks := Chars.dropEnd_append hm.1 blanks
    _ = m.word ++ Chars.dropEnd isPlainBlank blanks := by rw [hblanks]

/-! ### Setup scripts -/

/-- The attribute `setup` stands in a text that comes after the character `previous`, between blanks, or
before a value. -/
def HasSetup (previous : Option Char) (cs : List Char) : Prop :=
  ∃ before after, cs = before ++ "setup".toList ++ after ∧
    (∀ c ∈ (previous.toList ++ before).getLast?, Chars.isBlank c = true) ∧
    ∀ c ∈ after.head?, Chars.isBlank c = true ∨ c = '='

/-- The search for the attribute finds it if it is there. -/
theorem setupAfter_iff {previous : Option Char} {cs : List Char} :
    setupAfter previous cs = true ↔ HasSetup previous cs := by
  induction cs generalizing previous with
  | nil => exact iff_of_false (by simp [setupAfter]) (by rintro ⟨before, after, h, -⟩; simp at h)
  | cons c cs ih =>
      rw [setupAfter, Bool.or_eq_true, ih]
      constructor
      · rintro (hhere | ⟨before, after, rfl, hblank, hafter⟩)
        · simp only [Bool.and_eq_true, List.isPrefixOf_iff_prefix] at hhere
          obtain ⟨⟨hfree, after, hcs⟩, hfollows⟩ := hhere
          refine ⟨[], after, hcs.symm, ?_, ?_⟩
          · cases previous with
            | none => simp
            | some d => simpa using hfree
          · rw [← hcs] at hfollows
            simpa [Option.all_eq_true, or_comm] using hfollows
        · refine ⟨c :: before, after, rfl, ?_, hafter⟩
          cases previous <;> simpa [List.getLast?_cons] using hblank
      · rintro ⟨before, after, hcs, hblank, hafter⟩
        cases before with
        | nil =>
            refine .inl ?_
            simp only [Bool.and_eq_true, List.isPrefixOf_iff_prefix]
            rw [hcs]
            refine ⟨⟨?_, List.prefix_append _ _⟩, ?_⟩
            · cases previous with
              | none => simp
              | some d => simpa using hblank
            · simpa [Option.all_eq_true, or_comm] using hafter
        | cons d before =>
            obtain ⟨rfl, rfl⟩ := List.cons.inj hcs
            refine .inr ⟨before, after, rfl, ?_, hafter⟩
            cases previous <;> simpa [List.getLast?_cons] using hblank

/-- A script is the setup of its component just if its tag has the attribute. -/
theorem isSetup_iff {r : Region} : r.isSetup = true ↔ HasSetup none r.attributes :=
  setupAfter_iff

/-! ### Where calls begin -/

/-- The marks that open a call are no blanks. -/
theorem isBlank_of_mem_opens {m : Macro} (hm : m ∈ macros) {mark : Char} (hmark : mark ∈ m.opens) :
    Chars.isBlank mark = false := by
  have hall : macros.all (fun m => m.opens.all fun c => !Chars.isBlank c) = true := by decide
  have hopens := List.all_eq_true.mp (List.all_eq_true.mp hall m hm) mark hmark
  simpa using hopens

/-- A macro is called at the start of a text just if its word stands there, after a border, and then
blanks and a mark that opens the call. -/
theorem macroCall?_isSome_iff {m : Macro} (hm : m ∈ macros) {previous : Option Char}
    {cs : List Char} :
    (macroCall? m previous cs).isSome ↔ Chars.isBorder previous = true ∧
      ∃ blanks mark, MacroCall cs m [] blanks mark := by
  constructor
  · intro h
    obtain ⟨call, hcall⟩ := Option.isSome_iff_exists.mp h
    obtain ⟨blanks, mark, rfl, hstands, hblank, hopens⟩ := macroCall?_eq_some hcall
    refine ⟨?_, blanks, mark, hm, hstands, hblank, hopens⟩
    unfold macroCall? at hcall
    split at hcall
    · next hstart => exact (Bool.and_eq_true_iff.mp hstart).1
    · cases hcall
  · rintro ⟨hborder, blanks, mark, -, hstands, hblank, hopens⟩
    obtain ⟨rest, rfl⟩ := hstands
    have hmark := isBlank_of_mem_opens hm hopens
    have htake : (blanks ++ mark :: rest).takeWhile Chars.isBlank = blanks := by
      rw [List.takeWhile_append_of_pos hblank, List.takeWhile_cons_of_neg (by simp [hmark]),
        List.append_nil]
    have htext : [] ++ m.word ++ blanks ++ [mark] ++ rest = m.word ++ (blanks ++ mark :: rest) := by
      simp
    have hword : m.word.isPrefixOf (m.word ++ (blanks ++ mark :: rest)) = true :=
      List.isPrefixOf_iff_prefix.mpr (List.prefix_append _ _)
    rw [htext]
    unfold macroCall?
    rw [hborder, hword, Bool.and_self, if_pos rfl]
    dsimp only
    rw [List.drop_left, htake, List.drop_length_add_append, List.drop_left, if_pos (by simpa using hopens)]
    rfl

/-- The call of a macro begins at a place of a text that comes after the character `previous`. -/
def BeginsAt (previous : Option Char) (cs : List Char) (m : Macro) (i : Nat) : Prop :=
  Chars.isBorder (previous.toList ++ cs.take i).getLast? = true ∧
    ∃ blanks mark, MacroCall cs m (cs.take i) blanks mark

/-- A call begins at the beginning of a text if it is read there. -/
theorem beginsAt_zero_iff {m : Macro} (hm : m ∈ macros) {previous : Option Char} {cs : List Char} :
    BeginsAt previous cs m 0 ↔ (macroCall? m previous cs).isSome := by
  rw [macroCall?_isSome_iff hm]
  cases previous <;> rfl

/-- It begins behind a character if it begins in the rest, where that character comes before. -/
theorem beginsAt_succ_iff {m : Macro} {previous : Option Char} {c : Char} {cs : List Char} {i : Nat} :
    BeginsAt previous (c :: cs) m (i + 1) ↔ BeginsAt (some c) cs m i := by
  have hlast : (previous.toList ++ (c :: cs).take (i + 1)).getLast? =
      ((some c).toList ++ cs.take i).getLast? := by
    cases previous <;> simp [List.getLast?_cons]
  unfold BeginsAt
  rw [hlast]
  refine and_congr_right fun _ => exists_congr fun blanks => exists_congr fun mark => ?_
  constructor
  · rintro ⟨hm, hstands, hblank, hopens⟩
    exact ⟨hm, (List.prefix_cons_inj c).mp hstands, hblank, hopens⟩
  · rintro ⟨hm, hstands, hblank, hopens⟩
    exact ⟨hm, (List.prefix_cons_inj c).mpr hstands, hblank, hopens⟩

/-- **The places of the calls of a macro**: they rise, and they are just those at which a call begins. -/
theorem places_macroCallsFrom {m : Macro} (hm : m ∈ macros) (cs : List Char) (place : Nat)
    (previous : Option Char) :
    let places := (macroCallsFrom m place previous cs).map Prod.fst
    places.Pairwise (· < ·) ∧ ∀ n, n ∈ places ↔ ∃ i, n = place + i ∧ BeginsAt previous cs m i := by
  induction cs generalizing place previous with
  | nil =>
      refine ⟨List.Pairwise.nil, fun n => iff_of_false (by simp [macroCallsFrom]) ?_⟩
      rintro ⟨i, -, -, blanks, mark, -, hstands, -⟩
      simpa using hstands.length_le
  | cons c cs ih =>
      obtain ⟨hrising, hlater⟩ := ih (place + 1) (some c)
      -- a call begins at the first place, or at one behind it
      have hsplit (n : Nat) : (∃ i, n = place + i ∧ BeginsAt previous (c :: cs) m i) ↔
          (n = place ∧ (macroCall? m previous (c :: cs)).isSome) ∨
            n ∈ (macroCallsFrom m (place + 1) (some c) cs).map Prod.fst := by
        rw [hlater]
        constructor
        · rintro ⟨i, rfl, hi⟩
          cases i with
          | zero => exact .inl ⟨rfl, (beginsAt_zero_iff hm).mp hi⟩
          | succ i => exact .inr ⟨i, by omega, beginsAt_succ_iff.mp hi⟩
        · rintro (⟨rfl, hcall⟩ | ⟨i, rfl, hi⟩)
          · exact ⟨0, rfl, (beginsAt_zero_iff hm).mpr hcall⟩
          · exact ⟨i + 1, by omega, beginsAt_succ_iff.mpr hi⟩
      have hbehind : ∀ n ∈ (macroCallsFrom m (place + 1) (some c) cs).map Prod.fst, place < n := by
        intro n hn
        obtain ⟨i, rfl, -⟩ := (hlater n).mp hn
        omega
      simp only [hsplit, macroCallsFrom]
      cases hcall : macroCall? m previous (c :: cs) with
      | none => exact ⟨hrising, fun n => by simp⟩
      | some call =>
          refine ⟨List.pairwise_cons.mpr ⟨hbehind, hrising⟩, fun n => ?_⟩
          simp

/-! ### Symbols -/

/-- The symbols that the macros of a setup script declare: one for each call, those of one macro after
those of another, and those of one macro in the order of the text. Each is named and typed by its macro
and starts at its call. -/
def DeclaresMacros (text : List Char) (file language : String) (r : Region)
    (symbols : List Symbol) : Prop :=
  ∃ places : Macro → List Nat,
    (∀ m ∈ macros, (places m).Pairwise (· < ·) ∧ ∀ i, i ∈ places m ↔ BeginsAt none r.text m i) ∧
    symbols.map (fun s => (s.name, s.kind, s.file, s.language, s.span.start)) =
      macros.flatMap fun m => (places m).map fun i =>
        (m.name, m.kind, file, language, positionAt text (r.start + i))

/-- The calls in a text that starts further on are the same, further on. -/
theorem macroCallsFrom_add (m : Macro) (cs : List Char) (place offset : Nat)
    (previous : Option Char) :
    macroCallsFrom m (offset + place) previous cs =
      (macroCallsFrom m place previous cs).map fun call => (offset + call.1, call.2) := by
  induction cs generalizing place previous with
  | nil => rfl
  | cons c cs ih =>
      rw [macroCallsFrom, macroCallsFrom, Nat.add_assoc, ih]
      cases macroCall? m previous (c :: cs) <;> rfl

/-- **The symbols of a setup script** are those of its macro calls. -/
theorem declaresMacros_setupSymbols (text : List Char) (file language : String) (r : Region) :
    DeclaresMacros text file language r (setupSymbols text file language r) := by
  refine ⟨fun m => (macroCallsFrom m 0 none r.text).map Prod.fst, fun m hm => ?_, ?_⟩
  · obtain ⟨hrising, hplaces⟩ := places_macroCallsFrom hm r.text 0 none
    refine ⟨hrising, fun i => ?_⟩
    rw [hplaces]
    simp
  · unfold setupSymbols
    rw [List.map_flatMap]
    refine List.flatMap_congr fun m _ => ?_
    rw [← Nat.add_zero r.start, macroCallsFrom_add]
    simp only [List.map_map]
    rfl

/-- **What the symbol of a macro covers.** It belongs to a call in the script, starts at the word of the
macro, and covers the word and the blanks behind it up to the last one that is not plain; so it covers
the word alone just if all blanks before the mark are plain. -/
theorem setup_symbols_cover {text : List Char} {file language : String} {r : Region} {s : Symbol}
    (hr : r ∈ regions text) (hs : s ∈ setupSymbols text file language r) :
    ∃ m before blanks mark, MacroCall r.text m before blanks mark ∧
      s.name = m.name ∧ s.kind = m.kind ∧ s.nameSpan = s.span ∧
      s.span.start = positionAt text (r.start + before.length) ∧
      s.span.Covers text (m.word ++ Chars.dropEnd isPlainBlank blanks) ∧
      (s.span.Covers text m.word ↔ ∀ c ∈ blanks, isPlainBlank c = true) := by
  obtain ⟨m, hm, hs⟩ := List.mem_flatMap.mp hs
  obtain ⟨found, hfound, rfl⟩ := List.mem_map.mp hs
  obtain ⟨before, blanks, mark, hcall, rfl⟩ := macroCall_of_mem hm hfound
  have hcovers : (spanBetween text (r.start + before.length)
      (r.start + before.length + (macroWord (m.word ++ blanks ++ [mark])).length)).Covers text
        (m.word ++ Chars.dropEnd isPlainBlank blanks) := by
    obtain ⟨front, back, htext, hfront⟩ := exists_split_of_mem_regions hr
    obtain ⟨rest, hscript⟩ := hcall.stands
    obtain ⟨dropped, hblanks⟩ : Chars.dropEnd isPlainBlank blanks <+: blanks :=
      List.rdropWhile_prefix _ _
    have hsplit : text = front ++ before ++ (m.word ++ Chars.dropEnd isPlainBlank blanks) ++
        (dropped ++ [mark] ++ rest ++ back) := by
      have hkept := congrArg (fun kept => front ++ before ++ m.word ++ kept ++ [mark] ++ rest ++ back)
        hblanks
      rw [htext, ← hscript]
      simpa using hkept.symm
    rw [hcall.macroWord_eq]
    exact covers_spanBetween hsplit (by rw [List.length_append, hfront])
  refine ⟨m, before, blanks, mark, hcall, rfl, rfl, rfl, rfl, hcovers, ?_⟩
  have hnil : Chars.dropEnd isPlainBlank blanks = [] ↔ ∀ c ∈ blanks, isPlainBlank c = true :=
    List.rdropWhile_eq_nil_iff
  rw [← hnil]
  constructor
  · intro hword
    exact List.append_right_eq_self.mp (hcovers.unique hword)
  · intro hnone
    rwa [hnone, List.append_nil] at hcovers

/-- A setup script with a macro call whose first line ends in a carriage return and a newline. -/
def returned : List Char := "<script setup>\ndefineProps\r\n()</script>".toList

/-- The only script of the document. -/
def returnedScript : Region :=
  ⟨" setup".toList, "\ndefineProps\r\n()".toList, 14, ⟨1, 14, 14⟩⟩

/-- The symbol of its macro. -/
def returnedSymbol : Symbol :=
  { name := "props", kind := .property, span := ⟨⟨2, 0, 15⟩, ⟨2, 12, 27⟩⟩,
    nameSpan := ⟨⟨2, 0, 15⟩, ⟨2, 12, 27⟩⟩, file := "a.vue", language := "vue",
    signature := some "defineProps" }

/-- The carriage return is covered besides the word. -/
theorem setup_symbols_cover_return :
    returnedScript ∈ regions returned ∧ returnedScript.isSetup = true ∧
      returnedSymbol ∈ setupSymbols returned "a.vue" "vue" returnedScript ∧
      returnedSymbol.span.text (Utf8.encode returned) = "defineProps\r" ∧
      ¬ returnedSymbol.span.Covers returned "defineProps".toList ∧
      ∃ m before blanks mark, MacroCall returnedScript.text m before blanks mark ∧
        returnedSymbol.name = m.name ∧
        (returnedSymbol.span.Covers returned m.word ↔ ∀ c ∈ blanks, isPlainBlank c = true) := by
  have hr : returnedScript ∈ regions returned := by decide +kernel
  have hs : returnedSymbol ∈ setupSymbols returned "a.vue" "vue" returnedScript := by decide +kernel
  obtain ⟨m, before, blanks, mark, hcall, hname, -, -, -, -, hiff⟩ := setup_symbols_cover hr hs
  refine ⟨hr, by decide +kernel, hs, by decide +kernel, ?_, m, before, blanks, mark, hcall, hname,
    hiff⟩
  intro hword
  exact absurd hword.decoded (by decide +kernel)

end Document

end Concordance
