import Concordance.Json.Token
import Concordance.Json.Writer
import Concordance.Proofs.Attempt
import Concordance.Proofs.Chars.Numeral
import Mathlib.Tactic.SplitIfs

/-!
# Written values as tokens

What is written of a value is read as the tokens of the value, whatever blanks the layout puts between
them (`tokens?_writeValue`).

An atom has no end of its own: it ends where something else begins. So a state of the reader is said
to stand *after* some tokens if it is between tokens or at the end of an atom that can be read. A text
*starts* some tokens if it can be read from between tokens, and *goes on* with some tokens if it can
be read after any others; the second kind can be put after a text of either kind.
-/

namespace Concordance

/-- The number is what its text spells. -/
def Number.ReadsBack (n : Number) : Prop :=
  Json.atom? (n.write Json.spelling) = some (.number n)

namespace Json

/-- A value that can be stored: its numbers read back, and no object has a key twice. -/
inductive Storable : Json → Prop where
  | null : Storable .null
  | bool (b : Bool) : Storable (.bool b)
  | number {n : Number} : n.ReadsBack → Storable (.number n)
  | text (s : String) : Storable (.text s)
  | array {items : List Json} : (∀ v ∈ items, Storable v) → Storable (.array items)
  | object {fields : List (String × Json)} : (fields.map Prod.fst).Nodup →
      (∀ f ∈ fields, Storable f.2) → Storable (.object fields)

mutual

/-- The tokens of a value. -/
def tokensOf : Json → List Token
  | .text s => [.text s]
  | .array [] => [.openArray, .closeArray]
  | .array (v :: rest) => .openArray :: (tokensOf v ++ itemTokens rest ++ [.closeArray])
  | .object [] => [.openObject, .closeObject]
  | .object (f :: rest) => .openObject :: (fieldTokens f ++ fieldsTokens rest ++ [.closeObject])
  | .null => [.atom .null]
  | .bool b => [.atom (.bool b)]
  | .number n => [.atom (.number n)]

/-- The tokens of the items after the first. -/
def itemTokens : List Json → List Token
  | [] => []
  | v :: rest => .comma :: (tokensOf v ++ itemTokens rest)

/-- The tokens of the fields after the first. -/
def fieldsTokens : List (String × Json) → List Token
  | [] => []
  | f :: rest => .comma :: (fieldTokens f ++ fieldsTokens rest)

/-- The tokens of a field. -/
def fieldTokens : String × Json → List Token
  | (key, v) => .text key :: .colon :: tokensOf v

end

/-! ### States after tokens -/

/-- A character that ends an atom. -/
def isBreak (c : Char) : Bool :=
  (mark? c).isSome || isSpace c || c == '"'

/-- The reader stands after some tokens, last first: between tokens, or at the end of an atom. -/
inductive After : LexState → List Token → Prop where
  | between (tokens : List Token) : After ⟨tokens, .between⟩ tokens
  | atom {tokens : List Token} {chars : List Char} {v : Json} :
      atom? chars.reverse = some v → After ⟨tokens, .atom chars⟩ (.atom v :: tokens)

/-- From between tokens, the text is read as the tokens. -/
def Starts (cs : List Char) (tokens : List Token) : Prop :=
  ∀ before, ∃ s, cs.foldlM lexStep ⟨before, .between⟩ = some s ∧ After s (tokens.reverse ++ before)

/-- After any tokens, the text is read as the tokens. -/
def GoesOn (cs : List Char) (tokens : List Token) : Prop :=
  ∀ s before, After s before →
    ∃ s', cs.foldlM lexStep s = some s' ∧ After s' (tokens.reverse ++ before)

variable {cs ds : List Char} {tokens more : List Token} {c : Char}

theorem GoesOn.starts (h : GoesOn cs tokens) : Starts cs tokens :=
  fun before => h _ before (.between before)

theorem GoesOn.nil : GoesOn [] [] :=
  fun s _ hs => ⟨s, rfl, hs⟩

/-- What goes on is read after what has been read. -/
theorem GoesOn.after {start s : LexState} {before : List Token} (h : GoesOn ds more)
    (hs : cs.foldlM lexStep start = some s) (hafter : After s (tokens.reverse ++ before)) :
    ∃ s', (cs ++ ds).foldlM lexStep start = some s' ∧
      After s' ((tokens ++ more).reverse ++ before) := by
  obtain ⟨s', hs', hafter'⟩ := h s _ hafter
  refine ⟨s', ?_, ?_⟩
  · rw [Attempt.foldlM_append_of_some hs, hs']
  · rw [List.reverse_append, List.append_assoc]
    exact hafter'

/-- A text that starts with some tokens, followed by one that goes on with others. -/
theorem Starts.append (h : Starts cs tokens) (h' : GoesOn ds more) :
    Starts (cs ++ ds) (tokens ++ more) := by
  intro before
  obtain ⟨s, hs, hafter⟩ := h before
  exact h'.after hs hafter

/-- The same for a text that goes on. -/
theorem GoesOn.append (h : GoesOn cs tokens) (h' : GoesOn ds more) :
    GoesOn (cs ++ ds) (tokens ++ more) := by
  intro s before hbefore
  obtain ⟨s', hs, hafter⟩ := h s before hbefore
  exact h'.after hs hafter

/-- What ends an atom is read after it as it is between tokens. -/
theorem lexStep_of_isBreak {s : LexState} (h : After s tokens) (hc : isBreak c) :
    lexStep s c = some (lexBetween tokens c) := by
  cases h with
  | between => rfl
  | atom hv =>
      change (if isBreak c then _ else _) = _
      rw [if_pos hc, hv]
      rfl

/-- A mark ends what stands before it. -/
theorem GoesOn.mark {token : Token} (hmark : mark? c = some token) (h : Starts cs tokens) :
    GoesOn (c :: cs) (token :: tokens) := by
  intro s before hbefore
  have hc : isBreak c := by simp [isBreak, hmark]
  have hstep : lexStep s c = some ⟨token :: before, .between⟩ := by
    rw [lexStep_of_isBreak hbefore hc, lexBetween, hmark]
  obtain ⟨s', hs, hafter⟩ := h (token :: before)
  refine ⟨s', ?_, ?_⟩
  · rw [Attempt.foldlM_cons_of_some hstep, hs]
  · rw [List.reverse_cons, List.append_assoc]
    exact hafter

/-- White space between tokens is passed by. -/
theorem lexBetween_space (hc : isSpace c) : lexBetween tokens c = ⟨tokens, .between⟩ := by
  have hmark : mark? c = none := by
    simp only [isSpace, Bool.or_eq_true, beq_iff_eq] at hc
    rcases hc with ((rfl | rfl) | rfl) | rfl <;> rfl
  rw [lexBetween, hmark]
  simp [hc]

/-- Blanks between tokens are passed over. -/
theorem foldlM_spaces (hcs : ∀ c ∈ cs, isSpace c) :
    cs.foldlM lexStep ⟨tokens, .between⟩ = some ⟨tokens, .between⟩ := by
  induction cs with
  | nil => rfl
  | cons c cs ih =>
      obtain ⟨hc, hcs⟩ := List.forall_mem_cons.mp hcs
      have hstep : lexStep ⟨tokens, .between⟩ c = some ⟨tokens, .between⟩ :=
        congrArg some (lexBetween_space hc)
      rw [Attempt.foldlM_cons_of_some hstep, ih hcs]

/-- Blanks may stand after a text. -/
theorem GoesOn.spaces (hcs : ∀ c ∈ cs, isSpace c) : GoesOn cs [] := by
  intro s before hbefore
  cases cs with
  | nil => exact ⟨s, rfl, hbefore⟩
  | cons c cs =>
      obtain ⟨hc, hcs⟩ := List.forall_mem_cons.mp hcs
      have hstep : lexStep s c = some ⟨before, .between⟩ := by
        rw [lexStep_of_isBreak hbefore (by simp [isBreak, hc]), lexBetween_space hc]
      refine ⟨⟨before, .between⟩, ?_, .between before⟩
      rw [Attempt.foldlM_cons_of_some hstep, foldlM_spaces hcs]

/-- Blanks may stand before a text. -/
theorem Starts.spaces (hds : ∀ c ∈ ds, isSpace c) (h : Starts cs tokens) :
    Starts (ds ++ cs) tokens := by
  intro before
  rw [Attempt.foldlM_append_of_some (foldlM_spaces hds)]
  exact h before

/-- The tokens of a text that starts them. -/
theorem Starts.tokens?_eq (h : Starts cs tokens) : tokens? cs = some tokens := by
  obtain ⟨s, hs, hafter⟩ := h []
  rw [List.append_nil] at hafter
  rw [tokens?, hs]
  generalize hlast : tokens.reverse = last at hafter
  rw [List.reverse_eq_iff] at hlast
  subst hlast
  cases hafter with
  | between => rfl
  | atom hv =>
      change (atom? _ >>= _) = _
      rw [hv]
      rfl

/-! ### Texts -/

section Texts

variable {before : List Token} {codes : List Nat}

/-- The hexadecimal digits of a code point, as far as they are read. -/
theorem foldlM_hexNumeral (width lacking value n : Nat) :
    (Chars.hexNumeral width n).foldlM lexStep
        ⟨before, .unicode codes (width + (lacking + 1)) value⟩ =
      some ⟨before, .unicode codes (lacking + 1) (value * 16 ^ width + n % 16 ^ width)⟩ := by
  induction width generalizing lacking n with
  | zero => simp [Chars.hexNumeral, Nat.mod_one]
  | succ width ih =>
      have hstep : ∀ v, lexStep ⟨before, .unicode codes (lacking + 1 + 1) v⟩
          (Chars.hexChar (n % 16)) =
          some ⟨before, .unicode codes (lacking + 1) (v * 16 + n % 16)⟩ := by
        intro v
        simp [lexStep, Chars.hexValue?_hexChar (Nat.mod_lt n (by decide))]
      have hmod : n % 16 ^ (width + 1) = n / 16 % 16 ^ width * 16 + n % 16 := by
        rw [Nat.pow_succ, Nat.mul_comm, Nat.mod_mul]
        omega
      have hvalue : (value * 16 ^ width + n / 16 % 16 ^ width) * 16 + n % 16 =
          value * 16 ^ (width + 1) + n % 16 ^ (width + 1) := by
        rw [hmod, Nat.pow_succ, Nat.add_mul, Nat.mul_assoc]
        omega
      rw [Chars.hexNumeral, show width + 1 + (lacking + 1) = width + (lacking + 1 + 1) by omega,
        Attempt.foldlM_append_of_some (ih (lacking + 1) (n / 16)),
        Attempt.foldlM_cons_of_some (hstep _), hvalue]
      rfl

/-- A control character that has no letter of its own. -/
theorem foldlM_unicode {n : Nat} (hn : n < 0x10000) :
    ('\\' :: 'u' :: Chars.hexNumeral 4 n).foldlM lexStep ⟨before, .text codes⟩ =
      some ⟨before, .text (n :: codes)⟩ := by
  have hlast : ∀ v, lexStep ⟨before, .unicode codes 1 v⟩ (Chars.hexChar (n % 16)) =
      some ⟨before, .text ((v * 16 + n % 16) :: codes)⟩ := by
    intro v
    simp [lexStep, Chars.hexValue?_hexChar (Nat.mod_lt n (by decide))]
  have hvalue : (0 * 16 ^ 3 + n / 16 % 16 ^ 3) * 16 + n % 16 = n := by omega
  have hslash : lexStep ⟨before, .text codes⟩ '\\' = some ⟨before, .escape codes⟩ := rfl
  have hu : lexStep ⟨before, .escape codes⟩ 'u' =
      some ⟨before, .unicode codes (3 + (0 + 1)) 0⟩ := rfl
  rw [Attempt.foldlM_cons_of_some hslash, Attempt.foldlM_cons_of_some hu, Chars.hexNumeral,
    Attempt.foldlM_append_of_some (foldlM_hexNumeral 3 0 0 (n / 16)),
    Attempt.foldlM_cons_of_some (hlast _), hvalue]
  rfl

/-- **One character** of a text, escaped or not, is read as the character. -/
theorem foldlM_escapeChar (c : Char) :
    (escapeChar c).foldlM lexStep ⟨before, .text codes⟩ =
      some ⟨before, .text (c.toNat :: codes)⟩ := by
  unfold escapeChar
  split_ifs with hquote hslash hline hreturn htab hback hfeed hcontrol
  · rw [beq_iff_eq.mp hquote]; rfl
  · rw [beq_iff_eq.mp hslash]; rfl
  · rw [beq_iff_eq.mp hline]; rfl
  · rw [beq_iff_eq.mp hreturn]; rfl
  · rw [beq_iff_eq.mp htab]; rfl
  · rw [beq_iff_eq.mp hback]; rfl
  · rw [beq_iff_eq.mp hfeed]; rfl
  · exact foldlM_unicode (by omega)
  · have hstep : lexStep ⟨before, .text codes⟩ c = some ⟨before, .text (c.toNat :: codes)⟩ := by
      simp only [lexStep, hquote, hslash, hcontrol, if_false, Bool.false_eq_true]
    exact Attempt.foldlM_cons_of_some hstep []

/-- **The escaped characters of a text** are read as the text. -/
theorem foldlM_escaped (cs : List Char) :
    (cs.flatMap escapeChar).foldlM lexStep ⟨before, .text codes⟩ =
      some ⟨before, .text ((cs.map Char.toNat).reverse ++ codes)⟩ := by
  induction cs generalizing codes with
  | nil => rfl
  | cons c cs ih =>
      rw [List.flatMap_cons, Attempt.foldlM_append_of_some (foldlM_escapeChar c), ih,
        List.map_cons, List.reverse_cons, List.append_assoc, List.singleton_append]

/-- The code points of characters are those characters: none of them is a surrogate. -/
theorem joinSurrogates_map_toNat (cs : List Char) : joinSurrogates (cs.map Char.toNat) = cs := by
  have hback : ∀ c : Char, joinSurrogates.charOf c.toNat = c := by
    intro c
    have hvalid : c.toNat.isValidChar := c.valid
    rw [joinSurrogates.charOf, if_pos hvalid, Char.ofNat_toNat]
  induction cs with
  | nil => rfl
  | cons c cs ih =>
      cases cs with
      | nil => rw [List.map_singleton, joinSurrogates, hback]
      | cons d cs =>
          have hplain : ¬ (0xd800 ≤ c.toNat ∧ c.toNat ≤ 0xdbff) := by
            have hvalid : c.toNat < 0xd800 ∨ 0xdfff < c.toNat ∧ c.toNat < 0x110000 := c.valid
            omega
          rw [List.map_cons, List.map_cons, joinSurrogates, if_neg (by simp; omega), hback]
          exact congrArg (c :: ·) ih

/-- **A text** is read as itself. -/
theorem Starts.text (s : String) : Starts (writeText s) [.text s] := by
  intro before
  refine ⟨⟨.text s :: before, .between⟩, ?_, .between _⟩
  have hopen : lexStep ⟨before, .between⟩ '"' = some ⟨before, .text []⟩ := rfl
  have hclose : lexStep ⟨before, .text ((s.toList.map Char.toNat).reverse ++ [])⟩ '"' =
      some ⟨.text s :: before, .between⟩ := by
    simp [lexStep, joinSurrogates_map_toNat]
  rw [writeText, Attempt.foldlM_cons_of_some hopen,
    Attempt.foldlM_append_of_some (foldlM_escaped s.toList)]
  exact Attempt.foldlM_cons_of_some hclose []

end Texts

/-! ### Atoms -/

section Atoms

/-- An atom is read up to the next break. -/
theorem foldlM_atom {before : List Token} {chars : List Char}
    (hcs : ∀ c ∈ cs, isBreak c = false) :
    cs.foldlM lexStep ⟨before, .atom chars⟩ = some ⟨before, .atom (cs.reverse ++ chars)⟩ := by
  induction cs generalizing chars with
  | nil => rfl
  | cons c cs ih =>
      obtain ⟨hc, hcs⟩ := List.forall_mem_cons.mp hcs
      have hstep : lexStep ⟨before, .atom chars⟩ c = some ⟨before, .atom (c :: chars)⟩ := by
        change (if isBreak c then _ else _) = _
        rw [hc]
        rfl
      rw [Attempt.foldlM_cons_of_some hstep, ih hcs, List.reverse_cons, List.append_assoc,
        List.singleton_append]

/-- **An atom** is read as the value that it spells. -/
theorem Starts.atom {v : Json} (hne : cs ≠ []) (hcs : cs.any isBreak = false)
    (hv : atom? cs = some v) : Starts cs [.atom v] := by
  intro before
  have hall : ∀ c ∈ cs, isBreak c = false := by simpa using hcs
  cases cs with
  | nil => exact absurd rfl hne
  | cons c cs =>
      obtain ⟨hc, hrest⟩ := List.forall_mem_cons.mp hall
      have hstep : lexStep ⟨before, .between⟩ c = some ⟨before, .atom [c]⟩ := by
        simp only [isBreak, Bool.or_eq_false_iff, Option.isSome_eq_false_iff,
          Option.isNone_iff_eq_none] at hc
        simp [lexStep, lexBetween, hc]
      refine ⟨⟨before, .atom (cs.reverse ++ [c])⟩, ?_, .atom ?_⟩
      · rw [Attempt.foldlM_cons_of_some hstep, foldlM_atom hrest]
      · rw [List.reverse_append, List.reverse_reverse]
        exact hv

/-- A character of a number. -/
def isNumeric (c : Char) : Bool :=
  Chars.isAsciiDigit c || ['-', '+', '.', 'e'].contains c

/-- A number has no breaks in it. -/
theorem isBreak_of_isNumeric (h : isNumeric c) : isBreak c = false := by
  have hnone : ['[', ']', '\x7b', '\x7d', ',', ':', ' ', '\t', '\n', '\r', '"'].any isNumeric =
      false := by decide
  have hall : ∀ d ∈ ['[', ']', '\x7b', '\x7d', ',', ':', ' ', '\t', '\n', '\r', '"'], c ≠ d := by
    rintro d hd rfl
    exact List.any_eq_false.mp hnone c hd h
  simp only [List.forall_mem_cons] at hall
  simp [isBreak, mark?, isSpace, hall]

theorem isNumeric_of_mem_numeral {n : Nat} (hc : c ∈ Chars.numeral n) : isNumeric c := by
  rw [isNumeric, Chars.isAsciiDigit_of_mem_numeral hc, Bool.true_or]

theorem isNumeric_of_mem_integer {i : Int} (hc : c ∈ Chars.integer i) : isNumeric c := by
  cases i with
  | ofNat n => exact isNumeric_of_mem_numeral hc
  | negSucc n =>
      rcases List.mem_cons.mp hc with rfl | hc
      · rfl
      · exact isNumeric_of_mem_numeral hc

theorem isNumeric_of_mem_paddedNumeral {width n : Nat} (hc : c ∈ Chars.paddedNumeral width n) :
    isNumeric c := by
  rcases List.mem_append.mp hc with hc | hc
  · rw [List.eq_of_mem_replicate hc]
    rfl
  · exact isNumeric_of_mem_numeral hc

/-- A decimal is written with numeric characters. -/
theorem isNumeric_of_mem_writeDecimal (d : Decimal) :
    ∀ c ∈ Number.writeDecimal d, isNumeric c := by
  have htake : ∀ k, ∀ c ∈ (Chars.numeral d.digits).take k, isNumeric c :=
    fun k c hc => isNumeric_of_mem_numeral (List.mem_of_mem_take hc)
  have hdrop : ∀ k, ∀ c ∈ (Chars.numeral d.digits).drop k, isNumeric c :=
    fun k c hc => isNumeric_of_mem_numeral (List.mem_of_mem_drop hc)
  have hzeros : ∀ k, ∀ c ∈ List.replicate k '0', isNumeric c := by
    intro k c hc
    rw [List.eq_of_mem_replicate hc]
    rfl
  have hsign : ∀ (negative : Bool) (cs : List Char), (∀ c ∈ cs, isNumeric c) →
      ∀ c ∈ (if negative then '-' :: cs else cs), isNumeric c := by
    intro negative cs hcs
    cases negative with
    | false => exact hcs
    | true => exact List.forall_mem_cons.mpr ⟨rfl, hcs⟩
  refine hsign _ _ ?_
  generalize (if d.digits = 0 then (1 : Int) else _) = point
  split
  · split
    · simp only [List.forall_mem_cons, List.forall_mem_append]
      exact ⟨rfl, rfl, hzeros _, fun _ => isNumeric_of_mem_numeral⟩
    · simp only [List.forall_mem_cons, List.forall_mem_append]
      refine ⟨⟨htake _, hzeros _⟩, rfl, ?_⟩
      split
      · exact List.forall_mem_cons.mpr ⟨rfl, List.forall_mem_nil _⟩
      · exact hdrop _
  · simp only [List.forall_mem_cons, List.forall_mem_append]
    refine ⟨⟨htake _, ?_⟩, rfl, ?_, fun _ => isNumeric_of_mem_paddedNumeral⟩
    · split
      · exact List.forall_mem_cons.mpr ⟨rfl, hdrop _⟩
      · exact List.forall_mem_nil _
    · split
      · rfl
      · rfl

/-- The text of a number has no character that ends an atom. -/
theorem any_isBreak_write (n : Number) : (n.write spelling).any isBreak = false := by
  have hnumeric : ∀ cs : List Char, (∀ c ∈ cs, isNumeric c) → cs.any isBreak = false := by
    intro cs h
    rw [List.any_eq_false]
    intro c hc
    rw [isBreak_of_isNumeric (h c hc)]
    exact Bool.false_ne_true
  cases n with
  | integer i => exact hnumeric _ fun c hc => isNumeric_of_mem_integer hc
  | real d => exact hnumeric _ (isNumeric_of_mem_writeDecimal d)
  | infinite negative =>
      cases negative with
      | false => decide
      | true => decide
  | undefined => decide

/-- The text of a number that reads back starts the number. -/
theorem Starts.number {n : Number} (h : n.ReadsBack) :
    Starts (n.write spelling) [.atom (.number n)] := by
  refine .atom ?_ (any_isBreak_write n) h
  intro hnil
  rw [Number.ReadsBack, hnil] at h
  cases h

end Atoms

/-! ### Values -/

section Values

variable {layout : Layout} {level : Nat}

/-- The items of an array, each behind a comma and a layout of white space. -/
theorem GoesOn.items {items : List Json} (hl : ∀ c ∈ layout level, isSpace c)
    (h : ∀ v ∈ items, Starts (writeValue layout level v) (tokensOf v)) :
    GoesOn (writeItems layout level items) (itemTokens items) := by
  induction items with
  | nil => exact .nil
  | cons v rest ih =>
      obtain ⟨hv, hrest⟩ := List.forall_mem_cons.mp h
      rw [writeItems, itemTokens]
      exact .mark rfl (((Starts.spaces hl hv)).append (ih hrest))

/-- A field of an object: its key, a colon, and its value. -/
theorem Starts.field {f : String × Json} (h : Starts (writeValue layout level f.2) (tokensOf f.2)) :
    Starts (writeField layout level f) (fieldTokens f) := by
  have hblank : ∀ c ∈ [' '], isSpace c := List.forall_mem_cons.mpr ⟨rfl, List.forall_mem_nil _⟩
  rw [writeField, fieldTokens]
  exact (Starts.text f.1).append (.mark rfl (Starts.spaces hblank h))

/-- The fields of an object, each behind a comma and a layout of white space. -/
theorem GoesOn.fields {fields : List (String × Json)} (hl : ∀ c ∈ layout level, isSpace c)
    (h : ∀ f ∈ fields, Starts (writeValue layout level f.2) (tokensOf f.2)) :
    GoesOn (writeFields layout level fields) (fieldsTokens fields) := by
  induction fields with
  | nil => exact .nil
  | cons f rest ih =>
      obtain ⟨hf, hrest⟩ := List.forall_mem_cons.mp h
      rw [writeFields, fieldsTokens]
      exact .mark rfl ((Starts.spaces hl (.field hf)).append (ih hrest))

/-- What stands between an opening and a closing mark, with blanks on both sides. -/
theorem Starts.enclosed {opening closing : Char} {first last : Token} {inner outer : List Char}
    (hopening : mark? opening = some first) (hclosing : mark? closing = some last)
    (hinner : ∀ c ∈ inner, isSpace c) (houter : ∀ c ∈ outer, isSpace c)
    (h : Starts cs tokens) (h' : GoesOn ds more) :
    Starts (opening :: (inner ++ cs ++ ds ++ outer ++ [closing]))
      (first :: (tokens ++ more ++ [last])) := by
  have hend : GoesOn (outer ++ [closing]) ([] ++ [last]) :=
    (GoesOn.spaces houter).append (.mark hclosing GoesOn.nil.starts)
  have hparts := ((Starts.spaces hinner h).append h').append hend
  rw [← List.append_assoc] at hparts
  exact (GoesOn.mark hopening hparts).starts

/-- **Written values are read as their tokens**, at every level of every layout of blanks. -/
theorem Storable.starts {v : Json} (hl : ∀ level, ∀ c ∈ layout level, isSpace c)
    (h : Storable v) : Starts (writeValue layout level v) (tokensOf v) := by
  induction h generalizing level with
  | null =>
      have hnull : Starts "null".toList [.atom .null] := .atom (by decide) (by decide) rfl
      exact hnull
  | bool b =>
      have hbool : Starts (if b then "true" else "false").toList [.atom (.bool b)] := by
        cases b with
        | false => exact .atom (by decide) (by decide) rfl
        | true => exact .atom (by decide) (by decide) rfl
      exact hbool
  | number h => exact .number h
  | text s => exact .text s
  | @array items _ ih =>
      cases items with
      | nil => exact (GoesOn.mark rfl (GoesOn.mark rfl GoesOn.nil.starts).starts).starts
      | cons v rest =>
          rw [writeValue, tokensOf]
          refine .enclosed rfl rfl (hl _) (hl _) (ih v List.mem_cons_self) (.items (hl _) ?_)
          exact fun w hw => ih w (List.mem_cons_of_mem v hw)
  | @object fields _ _ ih =>
      cases fields with
      | nil => exact (GoesOn.mark rfl (GoesOn.mark rfl GoesOn.nil.starts).starts).starts
      | cons f rest =>
          rw [writeValue, tokensOf]
          refine .enclosed rfl rfl (hl _) (hl _) (.field (ih f List.mem_cons_self))
            (.fields (hl _) ?_)
          exact fun g hg => ih g (List.mem_cons_of_mem f hg)

theorem isSpace_of_mem_indented : ∀ c ∈ indented level, isSpace c :=
  List.forall_mem_cons.mpr ⟨rfl, fun c hc => by rw [List.eq_of_mem_replicate hc]; rfl⟩

/-- The tokens of a written document. -/
theorem tokens?_writeValue {v : Json} (h : Storable v) :
    tokens? (writeValue indented 0 v) = some (tokensOf v) :=
  (h.starts fun _ => isSpace_of_mem_indented).tokens?_eq

end Values

end Json

end Concordance
