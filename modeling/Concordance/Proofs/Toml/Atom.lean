import Concordance.Proofs.Chars.Numeral
import Concordance.Toml.Value

/-!
# Written texts and integers read back

A text that is written in a document is read back, unless it has a control character in it: the
writer puts a backslash before a backslash and a double quote only, and the reader takes no control
characters but the tab (`text?_writeText`). An integer is always read back (`atom?_integer`).

A document is read after its line ends have been joined, so the statements are about joined texts
(`Chars.joinReturns`). The only places where a carriage return may stand are the texts, and there the
reader fails at it, or at the newline that it was joined with.
-/

namespace Concordance

namespace Chars

/-- Only a carriage return is joined with what follows it. -/
theorem joinReturns_cons {c : Char} (h : c ≠ '\r') (cs : List Char) :
    joinReturns (c :: cs) = c :: joinReturns cs := by
  cases cs with
  | nil => rfl
  | cons d cs => rw [joinReturns, if_neg (by simp [h])]

/-- Returns are joined only where there are some. -/
theorem joinReturns_append {cs : List Char} (h : '\r' ∉ cs) (rest : List Char) :
    joinReturns (cs ++ rest) = cs ++ joinReturns rest := by
  induction cs with
  | nil => rfl
  | cons c cs ih =>
      rw [List.mem_cons, not_or] at h
      rw [List.cons_append, joinReturns_cons (Ne.symm h.1), ih h.2, List.cons_append]

/-- Texts are joined one by one if the second does not start with a newline. -/
theorem joinReturns_append_of_head {rest : List Char} (h : rest.head? ≠ some '\n')
    (cs : List Char) : joinReturns (cs ++ rest) = joinReturns cs ++ joinReturns rest := by
  fun_induction joinReturns cs with
  | case1 => rfl
  | case2 c =>
      cases rest with
      | nil => rfl
      | cons d rest =>
          have hd : d ≠ '\n' := fun hd => h (congrArg some hd)
          rw [List.singleton_append, joinReturns, if_neg (by simp [hd])]
          rfl
  | case3 c d cs hboth ih =>
      rw [List.cons_append, List.cons_append, joinReturns, if_pos hboth, ih]
      rfl
  | case4 c d cs hnot ih =>
      rw [List.cons_append] at ih
      rw [List.cons_append, List.cons_append, joinReturns, if_neg hnot, ih]
      rfl

/-- A longer text is not joined to a shorter one. -/
theorem length_joinReturns_le (cs rest : List Char) :
    (joinReturns cs).length ≤ (joinReturns (cs ++ rest)).length := by
  fun_induction joinReturns cs with
  | case1 => exact Nat.zero_le _
  | case2 c =>
      cases rest with
      | nil => exact Nat.le_refl _
      | cons d rest =>
          rw [List.singleton_append, joinReturns]
          split <;> exact Nat.succ_le_succ (Nat.zero_le _)
  | case3 c d cs hboth ih =>
      rw [List.cons_append, List.cons_append, joinReturns, if_pos hboth]
      exact Nat.succ_le_succ ih
  | case4 c d cs hnot ih =>
      rw [List.cons_append, List.cons_append, joinReturns, if_neg hnot]
      exact Nat.succ_le_succ ih

/-- A newline is never lost. -/
theorem succ_length_joinReturns_le (cs rest : List Char) :
    (joinReturns rest).length + 1 ≤ (joinReturns (cs ++ '\n' :: rest)).length := by
  have hnewline : joinReturns ('\n' :: rest) = '\n' :: joinReturns rest :=
    joinReturns_cons (by decide) rest
  fun_induction joinReturns cs with
  | case1 =>
      rw [List.nil_append, hnewline]
      exact Nat.le_refl _
  | case2 c =>
      rw [List.singleton_append, joinReturns]
      split
      · exact Nat.le_refl _
      · rw [hnewline]
        exact Nat.le_succ _
  | case3 c d cs hboth ih =>
      rw [List.cons_append, List.cons_append, joinReturns, if_pos hboth]
      exact Nat.le_succ_of_le ih
  | case4 c d cs hnot ih =>
      rw [List.cons_append, List.cons_append, joinReturns, if_neg hnot]
      exact Nat.le_succ_of_le ih

/-- A carriage return leaves a line end behind. -/
theorem exists_joinReturns_return (cs : List Char) :
    ∃ c rest, joinReturns ('\r' :: cs) = c :: rest ∧ (c = '\r' ∨ c = '\n') := by
  cases cs with
  | nil => exact ⟨'\r', [], rfl, .inl rfl⟩
  | cons d cs =>
      rw [joinReturns]
      by_cases hd : d = '\n'
      · exact ⟨'\n', _, if_pos (by simp [hd]), .inr rfl⟩
      · exact ⟨'\r', _, if_neg (by simp [hd]), .inl rfl⟩

end Chars

namespace Toml

open Chars (joinReturns)

/-- What may follow a value: the end of the text or of the line, a comma, or a closing bracket. -/
inductive Stops : List Char → Prop
  | nil : Stops []
  | comma (rest : List Char) : Stops (',' :: rest)
  | bracket (rest : List Char) : Stops (']' :: rest)
  | newline (rest : List Char) : Stops ('\n' :: rest)

theorem Stops.joinReturns {rest : List Char} (h : Stops rest) : Stops (joinReturns rest) := by
  cases h with
  | nil => exact .nil
  | comma rest =>
      rw [Chars.joinReturns_cons (by decide)]
      exact .comma _
  | bracket rest =>
      rw [Chars.joinReturns_cons (by decide)]
      exact .bracket _
  | newline rest =>
      rw [Chars.joinReturns_cons (by decide)]
      exact .newline _

/-! ### Texts -/

/-- A character as it is written between double quotes. -/
def escaped (c : Char) : List Char := if c == '\\' || c == '"' then ['\\', c] else [c]

theorem writeText_eq (s : String) : writeText s = '"' :: (s.toList.flatMap escaped ++ ['"']) := rfl

/-- Whether a text has no control characters. -/
def hasNoControl (cs : List Char) : Bool := cs.all fun c => !isControl c

theorem basic?_quote (rest : List Char) : basic? ('"' :: rest) = some ([], rest) := by
  rw [basic?, if_pos (by rfl)]

/-- What is escaped is read as itself. -/
theorem basic?_escape {c : Char} (hc : c = '\\' ∨ c = '"') (rest : List Char) :
    basic? ('\\' :: c :: rest) = (basic? rest).map fun (cs, rest) => (c :: cs, rest) := by
  have hescape : escape? (c :: rest) = some (c, rest) := by
    rcases hc with rfl | rfl <;> rfl
  rw [basic?, if_neg (by decide), if_pos (by rfl)]
  split
  · next hnone =>
    rw [hescape] at hnone
    cases hnone
  · next d rest' hsome =>
    rw [hescape] at hsome
    cases hsome
    rfl

/-- A character that needs no escape is read as itself, unless it is a control character. -/
theorem basic?_plain {c : Char} (hc : ¬ (c = '\\' ∨ c = '"')) (rest : List Char) :
    basic? (c :: rest) =
      if isControl c then none else (basic? rest).map fun (cs, rest) => (c :: cs, rest) := by
  rw [not_or] at hc
  rw [basic?, if_neg (by simpa using hc.2), if_neg (by simpa using hc.1)]

/-- **A text between double quotes** is read back if it has no control characters, and else not at
all. -/
theorem basic?_flatMap_escaped (cs rest : List Char) :
    basic? (joinReturns (cs.flatMap escaped ++ '"' :: rest)) =
      if hasNoControl cs then some (cs, joinReturns rest) else none := by
  induction cs with
  | nil =>
      rw [List.flatMap_nil, List.nil_append, Chars.joinReturns_cons (by decide), basic?_quote]
      rfl
  | cons c cs ih =>
      rw [List.flatMap_cons, List.append_assoc, escaped]
      by_cases hmark : c = '\\' ∨ c = '"'
      · have hreturn : c ≠ '\r' := by rcases hmark with rfl | rfl <;> decide
        have hcontrol : isControl c = false := by rcases hmark with rfl | rfl <;> rfl
        rw [if_pos (by simpa using hmark), List.cons_append, List.cons_append, List.nil_append,
          Chars.joinReturns_cons (by decide), Chars.joinReturns_cons hreturn, basic?_escape hmark, ih]
        by_cases hcs : hasNoControl cs <;> simp_all [hasNoControl]
      · rw [if_neg (by simpa using hmark), List.cons_append, List.nil_append]
        by_cases hreturn : c = '\r'
        · -- the reader stops at what the carriage return has become
          subst hreturn
          obtain ⟨d, more, hjoin, hd⟩ := Chars.exists_joinReturns_return (cs.flatMap escaped ++ '"' :: rest)
          have hplain : ¬ (d = '\\' ∨ d = '"') := by rcases hd with rfl | rfl <;> decide
          have hcontrol : isControl d := by rcases hd with rfl | rfl <;> rfl
          rw [hjoin, basic?_plain hplain, if_pos hcontrol]
          rfl
        · rw [Chars.joinReturns_cons hreturn, basic?_plain hmark, ih]
          by_cases hcontrol : isControl c = true
          · simp [hasNoControl, hcontrol]
          · by_cases hcs : hasNoControl cs <;> simp_all [hasNoControl]

/-- A text of one line starts with one double quote, or with two if it is empty. -/
theorem text?_quote {rest : List Char} (h : ∀ more, rest ≠ '"' :: '"' :: more) :
    text? ('"' :: rest) = basic? rest := by
  rw [text?]
  exact fun more hmore => h more hmore

/-- **A text is read as it was written,** if it has no control characters. -/
theorem text?_writeText (s : String) {rest : List Char} (hrest : Stops rest) :
    text? (joinReturns (writeText s ++ rest)) =
      if hasNoControl s.toList then some (s.toList, joinReturns rest) else none := by
  rw [writeText_eq, List.cons_append, List.append_assoc, List.singleton_append,
    Chars.joinReturns_cons (by decide), text?_quote, basic?_flatMap_escaped]
  intro more hmore
  cases hs : s.toList with
  | nil =>
      rw [hs, List.flatMap_nil, List.nil_append, Chars.joinReturns_cons (by decide)] at hmore
      have hstops := hrest.joinReturns
      rw [(List.cons.inj hmore).2] at hstops
      cases hstops
  | cons c cs =>
      rw [hs, List.flatMap_cons, List.append_assoc, escaped] at hmore
      by_cases hmark : c = '\\' ∨ c = '"'
      · rw [if_pos (by simpa using hmark), List.cons_append, Chars.joinReturns_cons (by decide)]
          at hmore
        exact absurd (List.cons.inj hmore).1 (by decide)
      · rw [if_neg (by simpa using hmark), List.cons_append, List.nil_append] at hmore
        by_cases hreturn : c = '\r'
        · subst hreturn
          obtain ⟨d, _, hjoin, hd⟩ := Chars.exists_joinReturns_return (cs.flatMap escaped ++ '"' :: rest)
          rw [hjoin] at hmore
          obtain rfl := (List.cons.inj hmore).1
          rcases hd with h | h <;> exact absurd h (by decide)
        · rw [Chars.joinReturns_cons hreturn] at hmore
          exact hmark (.inr (List.cons.inj hmore).1)

/-! ### Integers -/

/-- Digits that are followed by what stops a value are read as long as they last. -/
theorem moreDigits_append {ds rest : List Char} (hds : ∀ c ∈ ds, Chars.isAsciiDigit c)
    (hrest : Stops rest) : moreDigits Chars.isAsciiDigit (ds ++ rest) = (ds, rest) := by
  induction ds with
  | nil =>
      cases hrest with
      | nil => rfl
      | comma rest => cases rest <;> rfl
      | bracket rest => cases rest <;> rfl
      | newline rest => cases rest <;> rfl
  | cons c ds ih =>
      obtain ⟨hc, hds⟩ := List.forall_mem_cons.mp hds
      have ih := ih hds
      rw [List.cons_append]
      cases hcs : ds ++ rest with
      | nil =>
          obtain ⟨rfl, rfl⟩ := List.append_eq_nil_iff.mp hcs
          rw [moreDigits, if_pos hc]
      | cons d cs =>
          rw [hcs] at ih
          rw [moreDigits, if_pos hc, ih]

/-- A numeral is read up to where it stops. -/
theorem whole?_numeral (n : Nat) {rest : List Char} (hrest : Stops rest) :
    whole? (Chars.numeral n ++ rest) = some (Chars.numeral n, rest) := by
  rcases Nat.eq_zero_or_pos n with rfl | hpos
  · rw [Chars.numeral_zero]
    rfl
  · have hdigit : ∀ c ∈ Chars.numeral n, Chars.isAsciiDigit c :=
      fun c hc => Chars.isAsciiDigit_of_mem_numeral hc
    have hhead := Chars.head?_numeral_ne_zero hpos
    cases hn : Chars.numeral n with
    | nil => exact absurd hn (Chars.numeral_ne_nil n)
    | cons c cs =>
        rw [hn] at hdigit hhead
        obtain ⟨hc, hcs⟩ := List.forall_mem_cons.mp hdigit
        have hne : c ≠ '0' := fun h => hhead (congrArg some h)
        rw [List.cons_append, whole?, if_neg (by simpa using hne), someDigits?, if_pos hc,
          moreDigits_append hcs hrest]

/-- What stops a value is neither a fraction nor an exponent. -/
theorem Stops.no_more {rest : List Char} (h : Stops rest) :
    fraction? rest = none ∧ exponent? rest = none := by
  cases h <;> exact ⟨rfl, rfl⟩

/-- The text of an integer starts with a digit or a minus sign. -/
theorem exists_integer_cons (i : Int) :
    ∃ c cs, Chars.integer i = c :: cs ∧ (Chars.isAsciiDigit c ∨ c = '-') := by
  cases i with
  | ofNat n =>
      change ∃ c cs, Chars.numeral n = c :: cs ∧ _
      cases hn : Chars.numeral n with
      | nil => exact absurd hn (Chars.numeral_ne_nil n)
      | cons c cs =>
          have hc : c ∈ Chars.numeral n := by rw [hn]; exact List.mem_cons_self
          exact ⟨c, cs, rfl, .inl (Chars.isAsciiDigit_of_mem_numeral hc)⟩
  | negSucc n => exact ⟨'-', _, rfl, .inr rfl⟩

theorem decimal?_integer (i : Int) {rest : List Char} (hrest : Stops rest) :
    decimal? (Chars.integer i ++ rest) = some (.integer i, rest) := by
  obtain ⟨hfraction, hexponent⟩ := hrest.no_more
  cases i with
  | ofNat n =>
      obtain ⟨c, cs, hn, hc⟩ := exists_integer_cons (.ofNat n)
      change Chars.numeral n = c :: cs at hn
      have hdigit : Chars.isAsciiDigit c := by
        apply Chars.isAsciiDigit_of_mem_numeral (n := n)
        rw [hn]
        exact List.mem_cons_self
      have hminus : c ≠ '-' := by rintro rfl; exact absurd hdigit (by decide)
      have hplus : c ≠ '+' := by rintro rfl; exact absurd hdigit (by decide)
      have hhead : (Chars.numeral n ++ rest).head? = some c := by rw [hn]; rfl
      change decimal? (Chars.numeral n ++ rest) = _
      simp only [decimal?, hhead, Option.some_beq_some, beq_false_of_ne hminus,
        beq_false_of_ne hplus, Bool.or_self, Bool.false_eq_true, if_false, whole?_numeral n hrest,
        Option.bind_eq_bind, Option.bind_some, hfraction, hexponent, Option.map_none,
        Option.getD_none, Option.isNone_none, Bool.and_self, if_true, Chars.numeralValue_numeral]
      rfl
  | negSucc n =>
      change decimal? ('-' :: (Chars.numeral (n + 1) ++ rest)) = _
      simp only [decimal?, List.head?_cons, Option.some_beq_some, beq_self_eq_true, Bool.true_or,
        if_true, List.drop_succ_cons, List.drop_zero, whole?_numeral (n + 1) hrest,
        Option.bind_eq_bind, Option.bind_some, hfraction, hexponent, Option.map_none,
        Option.getD_none, Option.isNone_none, Bool.and_self, Chars.numeralValue_numeral]
      rfl

/-- An integer in base ten does not look like one in another base. -/
theorem based?_integer (i : Int) {rest : List Char} (hrest : Stops rest) :
    based? (Chars.integer i ++ rest) = none := by
  have hother : ∀ c cs, c ≠ '0' → based? (c :: cs) = none := by
    intro c cs hc
    rw [based?]
    · exact fun _ h => hc (List.cons.inj h).1
    · exact fun _ h => hc (List.cons.inj h).1
    · exact fun _ h => hc (List.cons.inj h).1
  cases i with
  | ofNat n =>
      change based? (Chars.numeral n ++ rest) = none
      rcases Nat.eq_zero_or_pos n with rfl | hpos
      · rw [Chars.numeral_zero]
        cases hrest <;> rfl
      · have hhead := Chars.head?_numeral_ne_zero hpos
        cases hn : Chars.numeral n with
        | nil => exact absurd hn (Chars.numeral_ne_nil n)
        | cons c cs =>
            rw [hn] at hhead
            exact hother c _ fun h => hhead (congrArg some h)
  | negSucc n => exact hother '-' _ (by decide)

/-- An integer is read as it was written. -/
theorem number?_integer (i : Int) {rest : List Char} (hrest : Stops rest) :
    number? (Chars.integer i ++ rest) = some (.integer i, rest) := by
  rw [number?, based?_integer i hrest, decimal?_integer i hrest]
  rfl

/-- Digits of a date or a time that are found at the start of an integer are digits of it. -/
theorem of_digits? {width n : Nat} {ds rest cs : List Char} (hrest : Stops rest)
    (h : Moment.digits? width (ds ++ rest) = some (n, cs)) :
    width ≤ ds.length ∧ cs = ds.drop width ++ rest := by
  unfold Moment.digits? at h
  dsimp only at h
  split at h
  · next hcond =>
    rw [Bool.and_eq_true, beq_iff_eq, List.all_eq_true] at hcond
    obtain ⟨hlength, hall⟩ := hcond
    have hle : width ≤ ds.length := by
      apply Nat.le_of_not_lt
      intro hlt
      have hlong : width ≤ ds.length + rest.length := by
        rw [List.length_take, List.length_append] at hlength
        omega
      cases rest with
      | nil => exact absurd hlong (Nat.not_le_of_lt hlt)
      | cons c rest =>
          -- the first character after the digits would be a digit as well
          have hmem : c ∈ (ds ++ c :: rest).take width := by
            rw [List.take_append, List.mem_append]
            right
            obtain ⟨k, hk⟩ : ∃ k, width - ds.length = k + 1 := ⟨width - ds.length - 1, by omega⟩
            rw [hk, List.take_succ_cons]
            exact List.mem_cons_self
          have hc := hall c hmem
          cases hrest <;> exact absurd hc (by decide)
    cases h
    exact ⟨hle, List.drop_append_of_le_length hle⟩
  · cases h

/-- After digits comes no mark of a date or a time. -/
theorem after?_digits {ds rest : List Char} (hds : ∀ c ∈ ds, Chars.isAsciiDigit c)
    (hrest : Stops rest) {mark : Char} (hmark : mark = '-' ∨ mark = ':') :
    Moment.after? mark (ds ++ rest) = none := by
  cases ds with
  | nil => cases hrest <;> rcases hmark with rfl | rfl <;> rfl
  | cons c ds =>
      have hc := (List.forall_mem_cons.mp hds).1
      rw [List.cons_append, Moment.after?, if_neg]
      rintro hmark'
      rw [beq_iff_eq] at hmark'
      subst hmark'
      rcases hmark with rfl | rfl <;> exact absurd hc (by decide)

/-- An integer is no moment. -/
theorem moment?_integer (i : Int) {rest : List Char} (hrest : Stops rest) :
    Moment.read? (Chars.integer i ++ rest) = none := by
  cases i with
  | ofNat n =>
      change Moment.read? (Chars.numeral n ++ rest) = none
      have hdigits : ∀ c ∈ Chars.numeral n, Chars.isAsciiDigit c :=
        fun c hc => Chars.isAsciiDigit_of_mem_numeral hc
      have hfails : ∀ {width k : Nat} {cs : List Char} {mark : Char}, mark = '-' ∨ mark = ':' →
          Moment.digits? width (Chars.numeral n ++ rest) = some (k, cs) →
          Moment.after? mark cs = none := by
        intro width k cs mark hmark h
        obtain ⟨-, rfl⟩ := of_digits? hrest h
        exact after?_digits (fun c hc => hdigits c (List.mem_of_mem_drop hc)) hrest hmark
      have hdate : Moment.date? (Chars.numeral n ++ rest) = none := by
        rw [Moment.date?]
        cases hyear : Moment.digits? 4 (Chars.numeral n ++ rest) with
        | none => rfl
        | some found =>
            obtain ⟨year, cs⟩ := found
            simp only [Option.bind_eq_bind, Option.bind_some, hfails (.inl rfl) hyear,
              Option.bind_none]
      have hclock : Moment.clock? (Chars.numeral n ++ rest) = none := by
        rw [Moment.clock?]
        cases hhour : Moment.digits? 2 (Chars.numeral n ++ rest) with
        | none => rfl
        | some found =>
            obtain ⟨hour, cs⟩ := found
            simp only [Option.bind_eq_bind, Option.bind_some, hfails (.inr rfl) hhour,
              Option.bind_none]
      rw [Moment.read?, hdate, hclock]
      rfl
  | negSucc n =>
      have hminus : ∀ width cs, Moment.digits? (width + 1) ('-' :: cs) = none := by
        intro width cs
        rw [Moment.digits?, List.take_succ_cons, List.all_cons,
          show Chars.isAsciiDigit '-' = false from rfl, Bool.false_and, Bool.and_false]
        rfl
      change Moment.read? ('-' :: (Chars.numeral (n + 1) ++ rest)) = none
      rw [Moment.read?, Moment.date?, hminus, Moment.clock?, hminus]
      rfl

theorem atom?_integer (i : Int) {rest : List Char} (hrest : Stops rest) :
    atom? (Chars.integer i ++ rest) = some (.number (.integer i), rest) := by
  obtain ⟨c, cs, hi, hc⟩ := exists_integer_cons i
  have hne : ∀ d, Chars.isAsciiDigit d = false → d ≠ '-' → c ≠ d := by
    rintro d hd hminus rfl
    rcases hc with hc | hc
    · rw [hd] at hc
      cases hc
    · exact hminus hc
  have hquotes : ((Chars.integer i ++ rest).head? == some '"' ||
      (Chars.integer i ++ rest).head? == some '\'') = false := by
    rw [hi, List.cons_append, List.head?_cons]
    simp [hne '"' (by decide) (by decide), hne '\'' (by decide) (by decide)]
  have htrue : "true".toList.isPrefixOf (Chars.integer i ++ rest) = false := by
    rw [hi]
    exact Bool.and_eq_false_imp.mpr fun h =>
      absurd (beq_iff_eq.mp h).symm (hne 't' (by decide) (by decide))
  have hfalse : "false".toList.isPrefixOf (Chars.integer i ++ rest) = false := by
    rw [hi]
    exact Bool.and_eq_false_imp.mpr fun h =>
      absurd (beq_iff_eq.mp h).symm (hne 'f' (by decide) (by decide))
  rw [atom?, hquotes, htrue, hfalse, moment?_integer i hrest, number?_integer i hrest]
  rfl

end Toml

end Concordance
