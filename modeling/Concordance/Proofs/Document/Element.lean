import Concordance.Document.Element
import Mathlib.Data.List.TakeWhile

/-!
# Where elements stand

The elements of a name are looked for from the left. At each place there is one just if an opening
tag starts there that ends somewhere, with a closing tag behind it
(`elementAt?_eq_some`, `elementAt?_ne_none`); its attributes end at the first `>` and its body at the
first closing tag. What is found lies apart and in order (`pairwise_elements`), and no element starts
at a place outside of what is found (`elementAt?_eq_none_of_outside`).

The body of an element that is found in a document is a piece of the document, at the place that the
element gives for it (`body_of_mem_elements`). Where elements are blotted out, what is left that is
neither a blank nor a newline stands outside of them, as it stood (`ink_of_blotOut`).
-/

namespace Concordance

/-- A text whose characters from the front on satisfy `p` up to a mark: they, the mark and the rest. -/
theorem Chars.eq_takeWhile_append {p : Char → Bool} {cs rest : List Char} {mark : Char}
    (h : cs.drop (cs.takeWhile p).length = mark :: rest) :
    cs = cs.takeWhile p ++ mark :: rest ∧ p mark = false := by
  have hsplit := List.takeWhile_append_dropWhile (p := p) (l := cs)
  have hdrop : cs.dropWhile p = mark :: rest :=
    calc cs.dropWhile p
        = (cs.takeWhile p ++ cs.dropWhile p).drop (cs.takeWhile p).length := List.drop_left.symm
      _ = mark :: rest := by rw [hsplit, h]
  have hhead := List.head?_dropWhile_not p cs
  rw [hdrop] at hhead hsplit
  exact ⟨hsplit.symm, hhead⟩

theorem Chars.length_le_of_startsIgnoringCase {start cs : List Char}
    (h : Chars.startsIgnoringCase start cs) : start.length ≤ cs.length := by
  induction start generalizing cs with
  | nil => exact Nat.zero_le _
  | cons a start ih =>
      cases cs with
      | nil => cases h
      | cons b rest =>
          rw [startsIgnoringCase, Bool.and_eq_true] at h
          exact Nat.succ_le_succ (ih h.2)

namespace Document

variable {name : List Char}

/-! ### Finding a word -/

/-- What is found is the first place at which the word opens the text. -/
theorem findIgnoringCase?_eq_some {word cs : List Char} {n : Nat}
    (h : findIgnoringCase? word cs = some n) :
    n ≤ cs.length ∧ Chars.startsIgnoringCase word (cs.drop n) = true ∧
      ∀ m < n, Chars.startsIgnoringCase word (cs.drop m) = false := by
  induction cs generalizing n with
  | nil =>
      rw [findIgnoringCase?] at h
      split at h
      · next hempty =>
          cases h
          rw [List.isEmpty_iff.mp hempty]
          exact ⟨Nat.le_refl 0, rfl, fun m hm => absurd hm (Nat.not_lt_zero m)⟩
      · cases h
  | cons c rest ih =>
      rw [findIgnoringCase?] at h
      split at h
      · next hhere =>
          cases h
          exact ⟨Nat.zero_le _, hhere, fun m hm => absurd hm (Nat.not_lt_zero m)⟩
      · next hnot =>
          obtain ⟨n, hn, rfl⟩ := Option.map_eq_some_iff.mp h
          obtain ⟨hle, hhere, hfirst⟩ := ih hn
          refine ⟨Nat.succ_le_succ hle, hhere, fun m hm => ?_⟩
          cases m with
          | zero => exact Bool.eq_false_iff.mpr hnot
          | succ m => exact hfirst m (Nat.lt_of_succ_lt_succ hm)

/-- Where nothing is found the word opens the text nowhere. -/
theorem findIgnoringCase?_eq_none {word cs : List Char} (h : findIgnoringCase? word cs = none)
    (n : Nat) : Chars.startsIgnoringCase word (cs.drop n) = false := by
  induction cs generalizing n with
  | nil =>
      rw [findIgnoringCase?] at h
      cases word with
      | nil => cases h
      | cons a word => rw [List.drop_nil]; rfl
  | cons c rest ih =>
      rw [findIgnoringCase?] at h
      split at h
      · cases h
      · next hnot =>
          cases n with
          | zero => exact Bool.eq_false_iff.mpr hnot
          | succ n => exact ih (Option.map_eq_none_iff.mp h) n

/-! ### One element -/

/-- A text with an opening tag at its start is the tag, whose attributes have no `>`, and the rest. -/
theorem openingTag?_eq_some {cs attributes inner : List Char}
    (h : openingTag? name cs = some (attributes, inner)) :
    Chars.startsIgnoringCase ('<' :: name) cs = true ∧ '>' ∉ attributes ∧
      ∃ opening, cs = opening ++ attributes ++ '>' :: inner ∧
        opening.length = name.length + 1 := by
  unfold openingTag? at h
  split at h
  · next hstarts =>
    dsimp only at h
    split at h
    · cases h
    · next mark inner' hrest =>
      cases h
      obtain ⟨hsplit, hmark⟩ := Chars.eq_takeWhile_append hrest
      obtain rfl : mark = '>' := by simpa using hmark
      refine ⟨hstarts, ?_, cs.take (name.length + 1), ?_, ?_⟩
      · intro hmem
        simpa using List.mem_takeWhile_imp hmem
      · rw [List.append_assoc, ← hsplit, List.take_append_drop]
      · exact List.length_take_of_le (Chars.length_le_of_startsIgnoringCase hstarts)
  · cases h

/-- The parts of an element at the start of a text: the opening tag up to its attributes, and what
stands behind the body, which starts with the first closing tag. -/
structure Element.StandsAt (name : List Char) (e : Element) (cs opening rest : List Char) :
    Prop where
  text_eq : cs = opening ++ e.attributes ++ '>' :: (e.body ++ rest)
  length_opening : opening.length = name.length + 1
  opens : Chars.startsIgnoringCase ('<' :: name) cs = true
  attributes : '>' ∉ e.attributes
  closes : Chars.startsIgnoringCase (closingTag name) rest = true
  first : ∀ n < e.body.length,
    Chars.startsIgnoringCase (closingTag name) ((e.body ++ rest).drop n) = false

/-- An element that is found stands there, with its opening tag and what follows. -/
theorem elementAt?_eq_some {cs : List Char} {e : Element} (h : elementAt? name cs = some e) :
    ∃ opening rest, e.StandsAt name cs opening rest := by
  unfold elementAt? at h
  obtain ⟨⟨attributes, inner⟩, htag, h⟩ := Option.bind_eq_some_iff.mp h
  obtain ⟨n, hn, h⟩ := Option.bind_eq_some_iff.mp h
  obtain ⟨hopens, hattributes, opening, hcs, hlength⟩ := openingTag?_eq_some htag
  obtain ⟨hle, hcloses, hfirst⟩ := findIgnoringCase?_eq_some hn
  cases h
  refine ⟨opening, inner.drop n, ?_, hlength, hopens, hattributes, hcloses, ?_⟩
  · rw [List.take_append_drop]
    exact hcs
  · intro m hm
    rw [List.take_append_drop]
    exact hfirst m (Nat.lt_of_lt_of_le hm (List.length_take_le n inner))

/-- A text that begins with an opening tag up to the first `>` has that opening tag. -/
theorem openingTag?_of_split {cs attributes inner : List Char}
    (hopens : Chars.startsIgnoringCase ('<' :: name) cs = true)
    (hrest : cs.drop (name.length + 1) = attributes ++ '>' :: inner) (hfirst : '>' ∉ attributes) :
    openingTag? name cs = some (attributes, inner) := by
  have hwhile : (attributes ++ '>' :: inner).takeWhile (· != '>') = attributes := by
    rw [List.takeWhile_append_of_pos fun c hc => by simpa using ne_of_mem_of_not_mem hc hfirst]
    simp
  unfold openingTag?
  rw [if_pos hopens, hrest]
  dsimp only
  rw [hwhile, List.drop_left]

/-- An opening tag that ends, with a closing tag behind it, makes an element. -/
theorem elementAt?_ne_none {cs : List Char} {mark close : Nat}
    (hopens : Chars.startsIgnoringCase ('<' :: name) cs = true) (hmark : name.length + 1 ≤ mark)
    (hat : cs[mark]? = some '>') (hclose : mark < close)
    (hcloses : Chars.startsIgnoringCase (closingTag name) (cs.drop close) = true) :
    elementAt? name cs ≠ none := by
  have hthere : (cs.drop (name.length + 1))[mark - (name.length + 1)]? = some '>' := by
    rw [List.getElem?_drop, Nat.add_sub_cancel' hmark, hat]
  obtain ⟨attributes, inner, hrest, hfirst⟩ :=
    List.eq_append_cons_of_mem (List.mem_of_getElem? hthere)
  -- the attributes end at the first mark, so not behind the one that is given
  have hle : attributes.length ≤ mark - (name.length + 1) := by
    by_contra hgt
    rw [hrest, List.getElem?_append_left (Nat.lt_of_not_le hgt)] at hthere
    exact hfirst (List.mem_of_getElem? hthere)
  have hinner : inner.drop (close - (name.length + 1 + attributes.length + 1)) = cs.drop close := by
    have hdrop : inner = cs.drop (name.length + 1 + attributes.length + 1) := by
      rw [Nat.add_assoc, ← List.drop_drop, hrest, List.drop_length_add_append, List.drop_one,
        List.tail_cons]
    rw [hdrop, List.drop_drop]
    congr 1
    omega
  cases hfind : findIgnoringCase? (closingTag name) inner with
  | some n => simp [elementAt?, openingTag?_of_split hopens hrest hfirst, hfind]
  | none =>
      have hnot := findIgnoringCase?_eq_none hfind (close - (name.length + 1 + attributes.length + 1))
      rw [hinner, hcloses] at hnot
      cases hnot

/-- An element is no longer than the text in which it stands. -/
theorem Element.StandsAt.length_le {e : Element} {cs opening rest : List Char}
    (h : e.StandsAt name cs opening rest) : e.length name ≤ cs.length := by
  have hclosing := Chars.length_le_of_startsIgnoringCase h.closes
  rw [h.text_eq]
  simp only [Element.length, Element.bodyStart, List.length_append, List.length_cons,
    h.length_opening]
  omega

theorem length_take_of_elementAt? {cs : List Char} {e : Element}
    (h : elementAt? name cs = some e) : (cs.take (e.length name)).length = e.length name :=
  have ⟨_, _, hstands⟩ := elementAt?_eq_some h
  List.length_take_of_le hstands.length_le

/-! ### The elements of a document -/

/-- Where an element ends. -/
def Placed.stop (name : List Char) (p : Placed) : Nat := p.place + p.element.length name

/-- Elements are placed from the first place on. -/
theorem le_place_of_mem_placedElements {pieces : List Segment} {place : Nat} {p : Placed}
    (h : p ∈ placedElements place pieces) : place ≤ p.place := by
  induction pieces generalizing place with
  | nil => cases h
  | cons piece pieces ih =>
      cases piece with
      | char c => exact Nat.le_of_succ_le (ih h)
      | element e text =>
          rcases List.mem_cons.mp h with rfl | h
          · exact Nat.le_refl _
          · exact (Nat.le_add_right _ _).trans (ih h)

/-- What is found is an element at its place. -/
theorem elementAt?_of_mem_placedElements {cs : List Char} {place : Nat} {p : Placed}
    (h : p ∈ placedElements place (segments name cs)) :
    elementAt? name (cs.drop (p.place - place)) = some p.element := by
  fun_induction segments name cs generalizing place with
  | case1 => cases h
  | case2 c rest _ ih =>
      have hle : place + 1 ≤ p.place := le_place_of_mem_placedElements h
      have hoffset : p.place - place = p.place - (place + 1) + 1 := by omega
      rw [hoffset, List.drop_succ_cons]
      exact ih h
  | case3 c rest e he ih =>
      rcases List.mem_cons.mp h with rfl | h
      · rw [Nat.sub_self]
        exact he
      · have hle := le_place_of_mem_placedElements h
        have hhere := ih h
        rw [length_take_of_elementAt? he] at hle hhere
        have hoffset : p.place - place = e.length name + (p.place - (place + e.length name)) := by
          omega
        rw [hoffset, ← List.drop_drop]
        exact hhere

/-- The elements that are found lie apart, in order. -/
theorem pairwise_placedElements (cs : List Char) (place : Nat) :
    (placedElements place (segments name cs)).Pairwise fun p q => p.stop name ≤ q.place := by
  fun_induction segments name cs generalizing place with
  | case1 => exact .nil
  | case2 c rest _ ih => exact ih (place + 1)
  | case3 c rest e he ih =>
      refine List.pairwise_cons.mpr ⟨fun q hq => ?_, ih _⟩
      have hle := le_place_of_mem_placedElements hq
      rw [length_take_of_elementAt? he] at hle
      exact hle

/-- Outside of what is found no element starts. -/
theorem elementAt?_eq_none_of_placedElements {cs : List Char} (place n : Nat)
    (h : ∀ p ∈ placedElements place (segments name cs),
      place + n < p.place ∨ p.stop name ≤ place + n) :
    elementAt? name (cs.drop n) = none := by
  fun_induction segments name cs generalizing place n with
  | case1 => rw [List.drop_nil]; rfl
  | case2 c rest hnone ih =>
      cases n with
      | zero => exact hnone
      | succ n =>
          refine ih (place + 1) n fun p hp => ?_
          rw [Nat.add_assoc, Nat.add_comm 1 n]
          exact h p hp
  | case3 c rest e he ih =>
      obtain ⟨hout, hrest⟩ := List.forall_mem_cons.mp h
      -- the place is not inside the element, so it is behind it
      have hbehind : e.length name ≤ n := by
        simp only [Placed.stop] at hout
        omega
      have hoffset : n = e.length name + (n - e.length name) := by omega
      rw [hoffset, ← List.drop_drop]
      refine ih (place + ((c :: rest).take (e.length name)).length) _ fun p hp => ?_
      rw [length_take_of_elementAt? he, Nat.add_assoc, ← hoffset]
      exact hrest p hp

/-- Elements do not overlap, and they are listed by place. -/
theorem pairwise_elements (name text : List Char) :
    (elements name text).Pairwise fun p q => p.stop name ≤ q.place :=
  pairwise_placedElements text 0

/-- An element that is listed begins at its place. -/
theorem elementAt?_of_mem_elements {text : List Char} {p : Placed} (h : p ∈ elements name text) :
    elementAt? name (text.drop p.place) = some p.element :=
  elementAt?_of_mem_placedElements h

/-- No element begins outside of those listed. -/
theorem elementAt?_eq_none_of_outside {text : List Char} {place : Nat}
    (h : ∀ p ∈ elements name text, place < p.place ∨ p.stop name ≤ place) :
    elementAt? name (text.drop place) = none := by
  refine elementAt?_eq_none_of_placedElements 0 place fun p hp => ?_
  rw [Nat.zero_add]
  exact h p hp

/-- A document is what stands before an element, and the element with what follows. -/
theorem standsAt_of_mem_elements {text : List Char} {p : Placed} (h : p ∈ elements name text) :
    ∃ before cs opening rest, text = before ++ cs ∧ before.length = p.place ∧
      p.element.StandsAt name cs opening rest := by
  obtain ⟨opening, rest, hstands⟩ := elementAt?_eq_some (elementAt?_of_mem_elements h)
  have hpos := Nat.lt_of_lt_of_le (p.element.length_pos name) hstands.length_le
  rw [List.length_drop] at hpos
  exact ⟨text.take p.place, text.drop p.place, opening, rest, (List.take_append_drop _ _).symm,
    List.length_take_of_le (by omega), hstands⟩

/-- **Bodies are pieces of the document**, at the places of their elements. -/
theorem body_of_mem_elements {text : List Char} {p : Placed} (h : p ∈ elements name text) :
    ∃ before after, text = before ++ p.element.body ++ after ∧
      before.length = p.place + p.element.bodyStart name := by
  obtain ⟨before, cs, opening, rest, rfl, hlength, hstands⟩ := standsAt_of_mem_elements h
  refine ⟨before ++ (opening ++ p.element.attributes ++ ['>']), rest, ?_, ?_⟩
  · rw [hstands.text_eq]
    simp
  · simp only [List.length_append, hlength, hstands.length_opening, List.length_singleton,
      Element.bodyStart]

/-! ### Elements blotted out -/

/-- A character at which no element begins stays. -/
theorem blotOut_of_none {c : Char} {rest : List Char} (h : elementAt? name (c :: rest) = none) :
    blotOut name (c :: rest) = c :: blotOut name rest := by
  rw [blotOut, segments, h]
  rfl

/-- An element is blotted out whole, but its line ends stay. -/
theorem blotOut_of_some {c : Char} {rest : List Char} {e : Element}
    (h : elementAt? name (c :: rest) = some e) :
    blotOut name (c :: rest) =
      ((c :: rest).take (e.length name)).map (fun d => if d == '\n' then '\n' else ' ') ++
        blotOut name ((c :: rest).drop (e.length name)) := by
  rw [blotOut, segments, h]
  rfl

/-- Where something other than a blank is left, it is what stood there, and it is in no element. -/
theorem ink_of_blotOut_placed {cs : List Char} (place n : Nat) {c : Char} (hblank : c ≠ ' ')
    (hnewline : c ≠ '\n') (h : (blotOut name cs)[n]? = some c) :
    cs[n]? = some c ∧ ∀ p ∈ placedElements place (segments name cs),
      place + n < p.place ∨ p.stop name ≤ place + n := by
  fun_induction segments name cs generalizing place n with
  | case1 => rw [blotOut, segments] at h; cases h
  | case2 d rest hnone ih =>
      rw [blotOut_of_none hnone] at h
      cases n with
      | zero =>
          refine ⟨h, fun p hp => .inl ?_⟩
          exact le_place_of_mem_placedElements hp
      | succ n =>
          obtain ⟨hthere, hout⟩ := ih (place + 1) n h
          refine ⟨hthere, fun p hp => ?_⟩
          rw [← Nat.add_assoc, Nat.add_right_comm]
          exact hout p hp
  | case3 d rest e he ih =>
      have hlength := length_take_of_elementAt? he
      rw [blotOut_of_some he] at h
      by_cases hinside : n < e.length name
      · -- inside of the element there are only blanks and newlines
        rw [List.getElem?_append_left (by rw [List.length_map, hlength]; exact hinside),
          List.getElem?_map] at h
        obtain ⟨d, -, hd⟩ := Option.map_eq_some_iff.mp h
        split at hd
        · exact absurd hd.symm hnewline
        · exact absurd hd.symm hblank
      · rw [List.getElem?_append_right (by rw [List.length_map, hlength]; omega), List.length_map,
          hlength] at h
        obtain ⟨hthere, hout⟩ := ih (place + e.length name) (n - e.length name) h
        have hoffset : e.length name + (n - e.length name) = n := by omega
        rw [List.getElem?_drop, hoffset] at hthere
        refine ⟨hthere, List.forall_mem_cons.mpr ⟨.inr ?_, fun p hp => ?_⟩⟩
        · simp only [Placed.stop]
          omega
        · rw [hlength] at hp
          have hp' := hout p hp
          rwa [Nat.add_assoc, hoffset] at hp'

/-- What is left of a document with its elements blotted out, but for blanks and newlines, stands
outside of the elements as it did before. -/
theorem ink_of_blotOut {text : List Char} {n : Nat} {c : Char} (hblank : c ≠ ' ')
    (hnewline : c ≠ '\n') (h : (blotOut name text)[n]? = some c) :
    text[n]? = some c ∧ ∀ p ∈ elements name text, n < p.place ∨ p.stop name ≤ n := by
  obtain ⟨hthere, hout⟩ := ink_of_blotOut_placed 0 n hblank hnewline h
  refine ⟨hthere, fun p hp => ?_⟩
  rw [← Nat.zero_add n]
  exact hout p hp

end Document

end Concordance
