import Concordance.Document.Markup
import Concordance.Proofs.Document.Place
import Concordance.Proofs.Document.Script
import Mathlib.Data.List.DropRight

/-!
# References of the markup

The markup of a document is cut out of it, or is all of it with the scripts and styles blotted out,
and it is scanned for *pieces*: names of components and of functions that handle events. A piece that
is found stands in the markup at its place (`mem_componentsFrom`, `mem_handlersFrom`). It has no blank
in it, so no part of it was blotted out, and it stands in the document at the same place
(`Piece.standsIn_document`), outside of every script where these are blotted out.

So references are exact (`markup_references_exact`): their spans cover their names in the bytes of the
document, and their contexts are the lines on which they start.
-/

namespace Concordance.Document

/-! ### Pieces of a text -/

/-- A piece stands in a text that starts at a place. -/
def Piece.StandsIn (start : Nat) (cs : List Char) (p : Piece) : Prop :=
  ∃ before after, cs = before ++ p.text ++ after ∧ start + before.length = p.place

/-- A piece that has characters, none of them a blank or a newline. -/
structure Piece.IsInk (p : Piece) : Prop where
  ne_nil : p.text ≠ []
  ink : ∀ c ∈ p.text, c ≠ ' ' ∧ c ≠ '\n'

/-- The characters of a class without blanks and newlines. -/
theorem ink_of_class {f : Char → Bool} (hblank : f ' ' = false) (hnewline : f '\n' = false)
    {c : Char} (hc : f c = true) : c ≠ ' ' ∧ c ≠ '\n' := by
  constructor
  · intro heq
    rw [heq, hblank] at hc
    cases hc
  · intro heq
    rw [heq, hnewline] at hc
    cases hc

namespace Piece.StandsIn

variable {start : Nat} {cs : List Char} {p q : Piece}

/-- A piece stands in a text that begins earlier too. -/
theorem behind (front : List Char) (h : p.StandsIn (start + front.length) cs) :
    p.StandsIn start (front ++ cs) := by
  obtain ⟨before, after, rfl, hplace⟩ := h
  refine ⟨front ++ before, after, by simp, ?_⟩
  rw [List.length_append, ← Nat.add_assoc]
  exact hplace

/-- A piece of a piece is a piece of the whole. -/
theorem trans (hp : p.StandsIn q.place q.text) (hq : q.StandsIn start cs) : p.StandsIn start cs := by
  obtain ⟨before, after, hcs, hplace⟩ := hq
  obtain ⟨inner, rest, htext, hinner⟩ := hp
  refine ⟨before ++ inner, rest ++ after, ?_, ?_⟩
  · rw [hcs, htext]
    simp
  · rw [List.length_append]
    omega

end Piece.StandsIn

/-- Without the blanks around it, a piece stands where it begins. -/
theorem Piece.standsIn_strip (p : Piece) : p.strip.StandsIn p.place p.text := by
  have hsplit := List.takeWhile_append_dropWhile (p := Chars.isBlank) (l := p.text)
  obtain ⟨after, hafter⟩ : Chars.strip p.text <+: Chars.stripStart p.text :=
    List.rdropWhile_prefix _ _
  refine ⟨p.text.takeWhile Chars.isBlank, after, ?_, ?_⟩
  · change p.text = p.text.takeWhile Chars.isBlank ++ Chars.strip p.text ++ after
    rw [List.append_assoc, hafter]
    exact hsplit.symm
  · change p.place + (p.text.takeWhile Chars.isBlank).length =
      p.place + (p.text.length - (Chars.stripStart p.text).length)
    have hlength := congrArg List.length hsplit
    rw [List.length_append] at hlength
    unfold Chars.stripStart
    omega

/-! ### Components -/

/-- A character of the name of a component. -/
def isNameChar (c : Char) : Bool := Chars.isAsciiLetter c || Chars.isAsciiDigit c

/-- The name of a component is what the text begins with, as far as it is made of name characters.
-/
theorem componentName?_eq_some {cs name : List Char} (h : componentName? cs = some name) :
    name <+: cs ∧ name ≠ [] ∧ ∀ c ∈ name, isNameChar c = true := by
  unfold componentName? at h
  dsimp only at h
  split at h
  · next hname =>
    cases h
    refine ⟨List.takeWhile_prefix _, ?_, fun c hc => List.mem_takeWhile_imp (p := isNameChar) hc⟩
    intro hnil
    rw [hnil] at hname
    cases hname
  · cases h

/-- A name of a component stands in the markup. -/
theorem mem_componentsFrom {place : Nat} {cs : List Char} {p : Piece}
    (h : p ∈ componentsFrom place cs) : p.StandsIn place cs ∧ p.IsInk := by
  induction cs generalizing place with
  | nil => cases h
  | cons c cs ih =>
      have hothers : p ∈ componentsFrom (place + 1) cs → p.StandsIn place (c :: cs) ∧ p.IsInk :=
        fun hrest => ⟨(ih hrest).1.behind [c], (ih hrest).2⟩
      rw [componentsFrom] at h
      split at h
      · split at h
        · next name hname =>
          rcases List.mem_cons.mp h with rfl | h
          · obtain ⟨⟨after, hcs⟩, hne, hclass⟩ := componentName?_eq_some hname
            refine ⟨⟨[c], after, ?_, rfl⟩, hne, fun d hd => ?_⟩
            · rw [List.append_assoc, hcs]
              rfl
            · exact ink_of_class (by decide) (by decide) (hclass d hd)
          · exact hothers h
        · exact hothers h
      · exact hothers h

/-! ### Handlers -/

/-- What follows an event is the end of the text. -/
theorem suffix_of_afterEvent? {isEventChar : Char → Bool} {cs rest : List Char}
    (h : afterEvent? isEventChar cs = some rest) : rest <:+ cs := by
  unfold afterEvent? at h
  dsimp only at h
  split at h
  · cases h
  · split at h
    · next inner hinner =>
      cases h
      have hsuffix : '=' :: inner <:+ cs :=
        hinner ▸ (List.dropWhile_suffix _).trans (List.drop_suffix _ _)
      exact ((List.dropWhile_suffix _).trans (List.suffix_cons _ _)).trans hsuffix
    · cases h

/-- So is what follows the mark of an event. -/
theorem suffix_of_afterEventMark? {cs rest : List Char} (h : afterEventMark? cs = some rest) :
    rest <:+ cs := by
  unfold afterEventMark? at h
  split at h
  · cases h
    exact List.drop_suffix _ _
  · split at h
    · cases h
      exact List.drop_suffix _ _
    · cases h

/-- A binding is what stands before its handler, the handler, and what begins with the mark that closes
it. -/
def Binding.StandsAt (b : Binding) (cs : List Char) : Prop :=
  ∃ front mark after, cs = front ++ b.handler ++ mark :: after ∧ front.length = b.skipped

/-- A handler at the beginning of some end of a text stands in the text. -/
theorem Binding.standsAt_of_suffix {cs rest handler after : List Char} {mark : Char}
    (hsuffix : rest <:+ cs) (hrest : rest = handler ++ mark :: after) :
    (⟨cs.length - rest.length, handler⟩ : Binding).StandsAt cs := by
  obtain ⟨front, rfl⟩ := hsuffix
  refine ⟨front, mark, after, ?_, ?_⟩
  · rw [hrest, List.append_assoc]
  · rw [List.length_append, Nat.add_sub_cancel]

/-- A handler in quotes stands where it was found. -/
theorem standsAt_of_quotedBinding? {cs : List Char} {b : Binding} (h : quotedBinding? cs = some b) :
    b.StandsAt cs := by
  unfold quotedBinding? at h
  obtain ⟨marked, hmarked, h⟩ := Option.bind_eq_some_iff.mp h
  obtain ⟨rest, hrest, h⟩ := Option.bind_eq_some_iff.mp h
  split at h
  · cases h
  · next quote inner =>
    dsimp only at h
    split at h
    · next hmarks =>
      cases h
      obtain ⟨after, hafter⟩ :=
        List.head?_eq_some_iff.mp (beq_iff_eq.mp (Bool.and_eq_true_iff.mp hmarks).2)
      have hsuffix : inner <:+ cs := (List.suffix_cons quote inner).trans
        ((suffix_of_afterEvent? hrest).trans (suffix_of_afterEventMark? hmarked))
      exact Binding.standsAt_of_suffix hsuffix (Chars.eq_takeWhile_append hafter).1
    · cases h

/-- So does one in braces. -/
theorem standsAt_of_bracedBinding? {previous : Option Char} {cs : List Char} {b : Binding}
    (h : bracedBinding? previous cs = some b) : b.StandsAt cs := by
  unfold bracedBinding? at h
  split at h
  · split at h
    · next inner hinner =>
      dsimp only at h
      split at h
      · next hlt =>
        cases h
        obtain ⟨mark, after, hafter⟩ := List.exists_cons_of_ne_nil
          (mt List.drop_eq_nil_iff.mp (Nat.not_le_of_lt hlt))
        have hsuffix : inner <:+ cs := (List.suffix_cons _ inner).trans
          ((suffix_of_afterEvent? hinner).trans (List.drop_suffix _ _))
        exact Binding.standsAt_of_suffix hsuffix (Chars.eq_takeWhile_append hafter).1
      · cases h
    · cases h
  · cases h

/-- **A handler stands where it was found,** in either kind of markup. -/
theorem standsAt_of_bindingHere? {flavour : Flavour} {previous : Option Char} {cs : List Char}
    {b : Binding} (h : bindingHere? flavour previous cs = some b) : b.StandsAt cs := by
  cases flavour with
  | vue => exact standsAt_of_quotedBinding? h
  | svelte => exact standsAt_of_bracedBinding? h

/-- A handler stands in the markup as it is written. -/
theorem mem_handlersFrom {flavour : Flavour} {place : Nat} {previous : Option Char} {cs : List Char}
    {p : Piece} (h : p ∈ handlersFrom flavour place previous cs) : p.StandsIn place cs := by
  fun_induction handlersFrom flavour place previous cs with
  | case1 => cases h
  | case2 place previous c rest _ ih => exact (ih h).behind [c]
  | case3 place previous c rest b hb n ih =>
      obtain ⟨front, mark, after, hcs, hfront⟩ := standsAt_of_bindingHere? hb
      rcases List.mem_cons.mp h with rfl | h
      · exact ⟨front, mark :: after, hcs, by rw [hfront]⟩
      · -- what the binding takes up is one character longer, by the mark that closes it
        have hlength : ((c :: rest).take (n + 1)).length = n + 1 := by
          refine List.length_take_of_le ?_
          rw [hcs]
          simp only [List.length_append, List.length_cons, hfront]
          omega
        have hrest := ih h
        rw [Nat.add_assoc, ← hlength] at hrest
        have hwhole := hrest.behind ((c :: rest).take (n + 1))
        rwa [← List.drop_succ_cons, List.take_append_drop] at hwhole

/-- A plain name has no blank in it. -/
theorem isInk_of_isPlainName {p : Piece} (h : isPlainName p.text = true) : p.IsInk := by
  obtain ⟨place, text⟩ := p
  cases text with
  | nil => cases h
  | cons c rest =>
      rw [isPlainName, Bool.and_eq_true, List.all_eq_true] at h
      obtain ⟨hfirst, hrest⟩ := h
      refine ⟨List.cons_ne_nil _ _, fun d hd => ?_⟩
      rcases List.mem_cons.mp hd with rfl | hd
      · exact ink_of_class (f := fun c => Chars.isAsciiLetter c || c == '_' || c == '$')
          (by decide) (by decide) hfirst
      · exact ink_of_class (f := fun c => Chars.isWord c || c == '$') (by decide) (by decide)
          (hrest d hd)

/-! ### The markup in the document -/

/-- The body of a template is a piece of the text. -/
theorem standsIn_of_templateFrom? {place : Nat} {cs : List Char} {m : Markup}
    (h : templateFrom? place cs = some m) : (⟨m.start, m.text⟩ : Piece).StandsIn place cs := by
  induction cs generalizing place with
  | nil => cases h
  | cons c cs ih =>
      rw [templateFrom?, Option.orElse_eq_orElse, Option.orElse_eq_or, Option.or_eq_some_iff] at h
      rcases h with hhere | ⟨-, hrest⟩
      · obtain ⟨⟨attributes, inner⟩, htag, hhere⟩ := Option.bind_eq_some_iff.mp hhere
        obtain ⟨n, -, hhere⟩ := Option.bind_eq_some_iff.mp hhere
        obtain ⟨-, -, opening, hcs, hlength⟩ := openingTag?_eq_some htag
        cases hhere
        refine ⟨opening ++ attributes ++ ['>'], inner.drop n, ?_, ?_⟩
        · rw [List.append_assoc, List.take_append_drop, hcs]
          simp
        · simp only [List.length_append, List.length_singleton, hlength]
          omega
      · exact (ih hrest).behind [c]

/-- A piece that stands in a text with elements blotted out, and has no blank in it, stands in the text
itself, outside of the elements. -/
theorem Piece.StandsIn.of_blotOut {name text : List Char} {p : Piece}
    (h : p.StandsIn 0 (blotOut name text)) (hp : p.IsInk) :
    p.StandsIn 0 text ∧ ∀ e ∈ elements name text,
      p.place + p.text.length ≤ e.place ∨ e.stop name ≤ p.place := by
  obtain ⟨before, after, hblotted, hplace⟩ := h
  rw [Nat.zero_add] at hplace
  have hchars : ∀ i (hi : i < p.text.length), text[p.place + i]? = some p.text[i] ∧
      ∀ e ∈ elements name text, p.place + i < e.place ∨ e.stop name ≤ p.place + i := by
    intro i hi
    obtain ⟨hblank, hnewline⟩ := hp.ink _ (List.getElem_mem hi)
    refine ink_of_blotOut hblank hnewline ?_
    rw [hblotted, ← hplace, List.append_assoc, List.getElem?_append_right (Nat.le_add_right _ _),
      Nat.add_sub_cancel_left, List.getElem?_append_left hi, List.getElem?_eq_getElem hi]
  constructor
  · obtain ⟨rest, hrest⟩ : p.text <+: text.drop p.place := by
      refine List.prefix_iff_getElem?.mpr fun i hi => ?_
      rw [List.getElem?_drop]
      exact (hchars i hi).1
    have hle : p.place ≤ text.length := by
      obtain ⟨hlt, -⟩ :=
        List.getElem?_eq_some_iff.mp (hchars 0 (List.length_pos_of_ne_nil hp.ne_nil)).1
      omega
    refine ⟨text.take p.place, rest, ?_, ?_⟩
    · rw [List.append_assoc, hrest, List.take_append_drop]
    · rw [Nat.zero_add, List.length_take_of_le hle]
  · intro e he
    by_contra hover
    -- the first place that the two share would be outside of the element
    have hpos := e.element.length_pos name
    have hsome := List.length_pos_of_ne_nil hp.ne_nil
    have hshared := (hchars (e.place - p.place) (by omega)).2 e he
    unfold Placed.stop at hover hshared
    omega

/-- A piece of the markup without a blank in it is a piece of the document. -/
theorem Piece.standsIn_document {flavour : Flavour} {document : List Char} {p : Piece} (hp : p.IsInk)
    (h : p.StandsIn (markup flavour document).start (markup flavour document).text) :
    p.StandsIn 0 document := by
  cases flavour with
  | vue =>
      cases htemplate : templateFrom? 0 document with
      | none =>
          rw [markup, htemplate] at h
          obtain ⟨before, after, hnil, -⟩ := h
          have hempty := List.append_eq_nil_iff.mp (List.append_eq_nil_iff.mp hnil.symm).1
          exact absurd hempty.2 hp.ne_nil
      | some m =>
          rw [markup, htemplate] at h
          exact Piece.StandsIn.trans h (standsIn_of_templateFrom? htemplate)
  | svelte => exact ((h.of_blotOut hp).1.of_blotOut hp).1

/-- A piece of the markup without a blank in it stands outside of the scripts, where these are blotted
out. -/
theorem Piece.outside_of_scripts {document : List Char} {p : Piece} (hp : p.IsInk)
    (h : p.StandsIn (markup .svelte document).start (markup .svelte document).text) {r : Region}
    (hr : r ∈ regions document) :
    p.place + p.text.length ≤ r.tagStart ∨ r.tagStop ≤ p.place := by
  obtain ⟨e, he, hof⟩ := exists_isOf_of_mem_regions hr
  rw [hof.tagStart, hof.tagStop]
  exact ((h.of_blotOut hp).1.of_blotOut hp).2 e he

/-! ### References -/

/-- A reference is exact: its span covers its name in the document, and its context is the line on which
it starts. -/
structure IsExact (document : List Char) (u : Reference) : Prop where
  covers : u.span.Covers document u.name.toList
  context_eq : u.context = Source.rowText (Utf8.encode document)
    (Source.pointAt (Utf8.encode document) u.span.start.byteOffset.toNat).row

/-- A piece that stands in a document makes a reference to just its place. -/
theorem Piece.StandsIn.isExact {document : List Char} {p : Piece} (h : p.StandsIn 0 document)
    (file : String) (kind : ReferenceKind) : IsExact document (p.reference document file kind) := by
  obtain ⟨before, after, htext, hplace⟩ := h
  rw [Nat.zero_add] at hplace
  refine ⟨?_, lineAt_eq_rowText document p.place⟩
  have hname : (p.reference document file kind).name.toList = p.text := String.toList_ofList
  rw [hname]
  exact covers_spanBetween htext hplace

/-- A reference is made by a piece of the markup without a blank in it. -/
theorem exists_piece_of_mem {flavour : Flavour} {document : List Char} {file : String}
    {u : Reference} (h : u ∈ markupReferences flavour document file) :
    ∃ (p : Piece) (kind : ReferenceKind), u = p.reference document file kind ∧ p.IsInk ∧
      p.StandsIn (markup flavour document).start (markup flavour document).text := by
  unfold markupReferences at h
  rcases List.mem_append.mp h with h | h
  · obtain ⟨p, hp, rfl⟩ := List.mem_map.mp h
    obtain ⟨hstands, hink⟩ := mem_componentsFrom hp
    exact ⟨p, .component, rfl, hink, hstands⟩
  · obtain ⟨p, hp, rfl⟩ := List.mem_map.mp h
    obtain ⟨hhandler, hplain⟩ := List.mem_filter.mp hp
    obtain ⟨written, hwritten, rfl⟩ := List.mem_map.mp hhandler
    exact ⟨written.strip, .call, rfl, isInk_of_isPlainName hplain,
      written.standsIn_strip.trans (mem_handlersFrom hwritten)⟩

/-- **The references of markup are exact**, and where scripts are blotted out, none of them shares a
byte with a script or its tags. -/
theorem markup_references_exact {flavour : Flavour} {document : List Char} {file : String}
    {u : Reference} (hu : u ∈ markupReferences flavour document file) :
    IsExact document u ∧ (flavour = .svelte → ∀ r ∈ regions document,
      u.span.stop.byteOffset ≤ byteLength (document.take r.tagStart) ∨
        byteLength (document.take r.tagStop) ≤ u.span.start.byteOffset) := by
  obtain ⟨p, kind, rfl, hink, hstands⟩ := exists_piece_of_mem hu
  refine ⟨(p.standsIn_document hink hstands).isExact file kind, ?_⟩
  rintro rfl r hr
  rcases p.outside_of_scripts hink hstands hr with hbefore | hbehind
  · exact .inl (Int.ofNat_le.mpr (byteLength_take_le hbefore))
  · exact .inr (Int.ofNat_le.mpr (byteLength_take_le hbehind))

/-- A document with a wide character, a script that mentions a component, and behind it, in the markup,
a component with a handler. -/
def behindScript : List Char :=
  "é<script>'<A/>'</script>\n<B on:x=\x7b go \x7d/>".toList

/-- The handler of the document. -/
def behindScriptHandler : Reference :=
  { name := "go", file := "a.svelte", span := ⟨⟨2, 10, 36⟩, ⟨2, 12, 38⟩⟩,
    context := "<B on:x=\x7b go \x7d/>", kind := .call }

/-- The component of the script is no reference, and the handler is where it is written. -/
theorem markup_references_exact_behindScript :
    (markupReferences .svelte behindScript "a.svelte").map Reference.name = ["B", "go"] ∧
      behindScriptHandler ∈ markupReferences .svelte behindScript "a.svelte" ∧
      IsExact behindScript behindScriptHandler ∧
      (regions behindScript).Forall fun r =>
        behindScriptHandler.span.stop.byteOffset ≤ byteLength (behindScript.take r.tagStart) ∨
          byteLength (behindScript.take r.tagStop) ≤ behindScriptHandler.span.start.byteOffset := by
  have hu : behindScriptHandler ∈ markupReferences .svelte behindScript "a.svelte" := by
    decide +kernel
  obtain ⟨hexact, hapart⟩ := markup_references_exact hu
  exact ⟨by decide +kernel, hu, hexact, List.forall_iff_forall_mem.mpr (hapart rfl)⟩

end Concordance.Document
