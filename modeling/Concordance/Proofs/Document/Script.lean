import Concordance.Document.Region
import Concordance.Proofs.Chars.Case
import Concordance.Proofs.Document.Element

/-!
# The scripts of a document

The scripts of a document are the bodies of its `script` elements. They are found exactly
(`regions_exact`): from the `<` of the opening tag to the `>` of the closing one, no two of them share
a place, the attributes of a script end at the first `>`, its text at the first closing tag, and no
opening tag that could be one of a script is left outside of them. A tag may be written in either
case, with a long s, and with an i that has its dot or has it not (`Chars.spellings`).
-/

namespace Concordance.Document

/-- A word stands at a place of a text, each character in one of its spellings. -/
def SpelledAt (word text : List Char) (place : Nat) : Prop :=
  ∃ start, start <+: text.drop place ∧ Chars.Spells word start

/-- An opening tag of a script starts at a place, is ended by a `>`, and a closing tag comes later. -/
structure OpensScript (text : List Char) (place : Nat) : Prop where
  opens : SpelledAt "<script".toList text place
  closes : ∃ mark close, place + "<script".length ≤ mark ∧ text[mark]? = some '>' ∧ mark < close ∧
    SpelledAt "</script>".toList text close

namespace Region

/-- Where the opening tag of a script starts. -/
def tagStart (r : Region) : Nat := r.start - ("<script".length + r.attributes.length + 1)

/-- Where the closing tag of a script ends. -/
def tagStop (r : Region) : Nat := r.start + r.text.length + "</script>".length

/-- A script stands in a document: between an opening tag, which its attributes and the first `>` end,
and the first closing tag. -/
structure StandsIn (text : List Char) (r : Region) : Prop where
  between : ∃ before opening closing after,
    text = before ++ opening ++ r.attributes ++ ['>'] ++ r.text ++ closing ++ after ∧
      before.length = r.tagStart ∧ (before ++ opening ++ r.attributes ++ ['>']).length = r.start ∧
      Chars.Spells "<script".toList opening ∧ Chars.Spells "</script>".toList closing
  attributes : '>' ∉ r.attributes
  first : ∀ n < r.text.length, ¬ SpelledAt "</script>".toList text (r.start + n)

end Region

/-! ### Tags -/

/-- A tag that opens a script is spelled in any case. -/
theorem spelledAt_opening_iff {text : List Char} {place : Nat} :
    SpelledAt "<script".toList text place ↔
      Chars.startsIgnoringCase ('<' :: scriptName) (text.drop place) = true :=
  (Chars.startsIgnoringCase_iff (by decide)).symm

/-- So is the tag that closes it. -/
theorem spelledAt_closing_iff {text : List Char} {place : Nat} :
    SpelledAt "</script>".toList text place ↔
      Chars.startsIgnoringCase (closingTag scriptName) (text.drop place) = true :=
  (Chars.startsIgnoringCase_iff (by decide)).symm

/-! ### Scripts as elements -/

/-- A script is an element of the document, tags counted. -/
structure Region.IsOf (r : Region) (p : Placed) : Prop where
  attributes : r.attributes = p.element.attributes
  text : r.text = p.element.body
  start : r.start = p.place + p.element.bodyStart scriptName
  tagStart : r.tagStart = p.place
  tagStop : r.tagStop = p.stop scriptName

/-- There is one script for each script element, in their order. -/
theorem regions_eq_map (text : List Char) :
    ∃ region : Placed → Region, regions text = (elements scriptName text).map region ∧
      ∀ p, (region p).IsOf p := by
  refine ⟨_, rfl, fun p => ⟨rfl, rfl, rfl, ?_, ?_⟩⟩
  · have hname : "<script".length = scriptName.length + 1 := rfl
    simp only [Region.tagStart, Element.bodyStart, hname]
    omega
  · have hclosing : "</script>".length = (closingTag scriptName).length := rfl
    simp only [Region.tagStop, Placed.stop, Element.length, hclosing]
    omega

/-- Every script is that of an element. -/
theorem exists_isOf_of_mem_regions {text : List Char} {r : Region} (h : r ∈ regions text) :
    ∃ p ∈ elements scriptName text, r.IsOf p := by
  obtain ⟨region, hregions, hof⟩ := regions_eq_map text
  obtain ⟨p, hp, rfl⟩ := List.mem_map.mp (hregions ▸ h)
  exact ⟨p, hp, hof p⟩

/-- Every script element has a script. -/
theorem exists_isOf_of_mem_elements {text : List Char} {p : Placed}
    (h : p ∈ elements scriptName text) : ∃ r ∈ regions text, r.IsOf p := by
  obtain ⟨region, hregions, hof⟩ := regions_eq_map text
  exact ⟨region p, hregions ▸ List.mem_map_of_mem h, hof p⟩

/-- The text of a script is a piece of the document, where it starts. -/
theorem exists_split_of_mem_regions {text : List Char} {r : Region} (h : r ∈ regions text) :
    ∃ front back, text = front ++ r.text ++ back ∧ front.length = r.start := by
  obtain ⟨p, hp, hof⟩ := exists_isOf_of_mem_regions h
  obtain ⟨front, back, htext, hlength⟩ := body_of_mem_elements hp
  exact ⟨front, back, hof.text ▸ htext, hlength.trans hof.start.symm⟩

/-- A script that is an element stands in the document between its tags. -/
theorem Region.IsOf.standsIn {text : List Char} {r : Region} {p : Placed} (hr : r.IsOf p)
    (hp : p ∈ elements scriptName text) : r.StandsIn text := by
  obtain ⟨before, cs, opening, rest, rfl, hlength, hstands⟩ := standsAt_of_mem_elements hp
  obtain ⟨start, hstart, hopening⟩ :=
    (Chars.startsIgnoringCase_iff (by decide)).mp hstands.opens
  obtain ⟨closing, ⟨after, rfl⟩, hclosing⟩ :=
    (Chars.startsIgnoringCase_iff (by decide)).mp hstands.closes
  have htext := hstands.text_eq
  rw [← hr.attributes, ← hr.text] at htext
  -- the opening tag is as long as its spelling, so it is the spelling
  obtain rfl : opening = start := by
    have hprefix : opening <+: cs := ⟨_, (List.append_assoc _ _ _).symm.trans htext.symm⟩
    have hsame : opening.length = start.length := by
      rw [hstands.length_opening, ← hopening.length_eq, List.length_cons]
    exact (List.prefix_of_prefix_length_le hprefix hstart hsame.le).eq_of_length hsame
  have hfront : (before ++ opening ++ r.attributes ++ ['>']).length = r.start := by
    simp only [List.length_append, hlength, hstands.length_opening, List.length_singleton,
      hr.start, hr.attributes, Element.bodyStart]
    omega
  have hsplit : before ++ cs =
      before ++ opening ++ r.attributes ++ ['>'] ++ (r.text ++ (closing ++ after)) := by
    rw [htext]
    simp
  refine ⟨⟨before, opening, closing, after, ?_, hlength.trans hr.tagStart.symm, hfront, hopening,
    hclosing⟩, hr.attributes ▸ hstands.attributes, ?_⟩
  · rw [hsplit, List.append_assoc _ r.text, List.append_assoc _ (r.text ++ closing),
      List.append_assoc r.text]
  · intro n hn
    have hdrop : (before ++ cs).drop (r.start + n) = (r.text ++ (closing ++ after)).drop n := by
      rw [hsplit, ← hfront, List.drop_length_add_append]
    rw [spelledAt_closing_iff, hdrop, hr.text, hstands.first n (hr.text ▸ hn)]
    exact Bool.false_ne_true

/-- Where a script could open, there is an element. -/
theorem OpensScript.elementAt?_ne_none {text : List Char} {place : Nat} (h : OpensScript text place) :
    elementAt? scriptName (text.drop place) ≠ none := by
  obtain ⟨mark, close, hle, hmark, hlt, hcloses⟩ := h.closes
  have hname : "<script".length = scriptName.length + 1 := rfl
  have hat : (text.drop place)[mark - place]? = some '>' := by
    rw [List.getElem?_drop, Nat.add_sub_cancel' (by omega), hmark]
  have hclosing : Chars.startsIgnoringCase (closingTag scriptName)
      ((text.drop place).drop (close - place)) = true := by
    rw [List.drop_drop, Nat.add_sub_cancel' (by omega)]
    exact spelledAt_closing_iff.mp hcloses
  exact Document.elementAt?_ne_none (spelledAt_opening_iff.mp h.opens) (by omega) hat (by omega)
    hclosing

/-- **Scripts are found exactly.** Tag to tag they lie apart and in order, each stands in the document
between its tags, and no place outside of all of them opens a script. -/
theorem regions_exact (text : List Char) :
    (regions text).Pairwise (fun r s => r.tagStop ≤ s.tagStart) ∧
      (∀ r ∈ regions text, r.StandsIn text) ∧
      ∀ place, (∀ r ∈ regions text, place < r.tagStart ∨ r.tagStop ≤ place) →
        ¬ OpensScript text place := by
  refine ⟨?_, ?_, ?_⟩
  · obtain ⟨region, hregions, hof⟩ := regions_eq_map text
    rw [hregions, List.pairwise_map]
    refine (pairwise_elements scriptName text).imp fun {p q} hpq => ?_
    rw [(hof p).tagStop, (hof q).tagStart]
    exact hpq
  · intro r hr
    obtain ⟨p, hp, hof⟩ := exists_isOf_of_mem_regions hr
    exact hof.standsIn hp
  · intro place hout hopens
    refine hopens.elementAt?_ne_none (elementAt?_eq_none_of_outside fun p hp => ?_)
    obtain ⟨r, hr, hof⟩ := exists_isOf_of_mem_elements hp
    rw [← hof.tagStart, ← hof.tagStop]
    exact hout r hr

/-- Two scripts side by side, the first in tags with a long s and with capitals, and the opening tag of
a third one that has no end. -/
def sideBySide : List Char :=
  "<\u017fcript a>b</SCRIPT><script></script>c<script>".toList

/-- The third tag is no script: nothing closes it. -/
theorem regions_exact_sideBySide :
    (regions sideBySide).map (fun r => (r.tagStart, r.start, r.tagStop)) =
        [(0, 10, 20), (20, 28, 37)] ∧
      (regions sideBySide).Pairwise (fun r s => r.tagStop ≤ s.tagStart) ∧
      ¬ OpensScript sideBySide 38 := by
  obtain ⟨hpairwise, -, hcomplete⟩ := regions_exact sideBySide
  refine ⟨by decide +kernel, hpairwise, hcomplete 38 fun r hr => .inr ?_⟩
  revert r
  decide +kernel

end Concordance.Document
