import Concordance.Proofs.Json.Token
import Concordance.Proofs.Number.Shortest
import Mathlib.Data.List.TakeWhile

/-!
# Written numbers read back

An integer is what its numeral spells. A decimal may be spelled with zeros at its end that it does not
have, but what is read has the same magnitude (`exists_number?_writeDecimal`). A real of double
precision is the shortest decimal of its value, so it is rounded back to itself
(`Number.Representable.readsBack`).
-/

namespace Concordance

namespace Json

variable {cs ds : List Char} {negative : Bool} {whole rest fraction tail : List Char}

/-- What has only characters of numbers is read as a number. -/
theorem atom?_of_isNumeric (h : ∀ c ∈ cs, isNumeric c) : atom? cs = (number? cs).map .number := by
  have hne : ∀ w : List Char, w.all isNumeric = false → cs ≠ w := by
    rintro w hw rfl
    rw [List.all_eq_true.mpr h] at hw
    cases hw
  rw [atom?, if_neg (hne _ (by decide)), if_neg (hne _ (by decide)), if_neg (hne _ (by decide)),
    if_neg (hne _ (by decide)), if_neg (hne _ (by decide)), if_neg (hne _ (by decide))]

/-- Digits end where something else begins. -/
theorem spanDigits_append (hds : ∀ c ∈ ds, Chars.isAsciiDigit c)
    (hrest : ∀ c, rest.head? = some c → Chars.isAsciiDigit c = false) :
    spanDigits (ds ++ rest) = (ds, rest) := by
  have hstop : rest.takeWhile Chars.isAsciiDigit = [] ∧ rest.dropWhile Chars.isAsciiDigit = rest := by
    cases rest with
    | nil => exact ⟨rfl, rfl⟩
    | cons c rest => simp [hrest c rfl]
  rw [spanDigits, List.takeWhile_append_of_pos hds, List.dropWhile_append_of_pos hds, hstop.1,
    hstop.2, List.append_nil]

/-- The digits before the point: there is one, and a zero at the start stands alone. -/
structure IsWhole (cs : List Char) : Prop where
  digits : ∀ c ∈ cs, Chars.isAsciiDigit c
  ne_nil : cs ≠ []
  plain : 1 < cs.length → cs.head? ≠ some '0'

theorem isWhole_numeral (n : Nat) : IsWhole (Chars.numeral n) where
  digits _ hc := Chars.isAsciiDigit_of_mem_numeral hc
  ne_nil := Chars.numeral_ne_nil n
  plain hlength := by
    have hten := Chars.numeral_of_length hlength
    exact Chars.head?_numeral_ne_zero (by omega)

theorem IsWhole.isPlain (h : IsWhole whole) :
    (whole.isEmpty || (1 < whole.length && whole.head? == some '0')) = false := by
  rw [Bool.or_eq_false_iff, Bool.and_eq_false_imp, List.isEmpty_eq_false_iff]
  exact ⟨h.ne_nil, fun hlength => beq_eq_false_iff_ne.mpr (h.plain (of_decide_eq_true hlength))⟩

/-- The sign before the digits. -/
theorem IsWhole.head?_signed (h : IsWhole whole) (negative : Bool) (rest : List Char) :
    ((if negative then '-' :: (whole ++ rest) else whole ++ rest).head? == some '-') = negative := by
  cases negative with
  | true => rfl
  | false =>
      obtain ⟨c, whole, rfl⟩ := List.exists_cons_of_ne_nil h.ne_nil
      refine beq_eq_false_iff_ne.mpr fun hhead => ?_
      have hdigit := h.digits c List.mem_cons_self
      rw [Option.some.inj hhead] at hdigit
      cases hdigit

theorem IsWhole.spanDigits_signed (h : IsWhole whole) (negative : Bool) (rest : List Char)
    (hrest : ∀ c, rest.head? = some c → Chars.isAsciiDigit c = false) :
    spanDigits (if negative then
        (if negative then '-' :: (whole ++ rest) else whole ++ rest).drop 1
      else if negative then '-' :: (whole ++ rest) else whole ++ rest) = (whole, rest) := by
  have hspan := spanDigits_append h.digits hrest
  cases negative with
  | true => exact hspan
  | false => exact hspan

/-! ### Integers -/

/-- Digits alone are read as an integer. -/
theorem number?_whole (h : IsWhole whole) (negative : Bool) :
    number? (if negative then '-' :: whole else whole) =
      some (.integer (if negative then -(Chars.numeralValue whole : Int)
        else Chars.numeralValue whole)) := by
  have hsign := h.head?_signed negative []
  have hspan := h.spanDigits_signed negative [] (fun c hc => by cases hc)
  rw [List.append_nil] at hsign hspan
  simp only [number?, hsign, hspan, h.isPlain, Bool.false_eq_true, if_false, List.isEmpty_nil,
    if_true]

/-- **An integer** is what its numeral spells. -/
theorem readsBack_integer (i : Int) : (Number.integer i).ReadsBack := by
  have hnumeric : ∀ c ∈ Chars.integer i, isNumeric c := fun c hc => isNumeric_of_mem_integer hc
  have hnumber : number? (Chars.integer i) = some (.integer i) := by
    cases i with
    | ofNat n =>
        refine (number?_whole (isWhole_numeral n) false).trans ?_
        rw [Chars.numeralValue_numeral]
        rfl
    | negSucc n =>
        refine (number?_whole (isWhole_numeral (n + 1)) true).trans ?_
        rw [Chars.numeralValue_numeral]
        rfl
  rw [Number.ReadsBack, Number.write, atom?_of_isNumeric hnumeric, hnumber]
  rfl

/-! ### Decimals -/

/-- The digits behind the point, with the point. -/
def pointed (fraction : List Char) : List Char :=
  if fraction.isEmpty then [] else '.' :: fraction

/-- A text that spells a magnitude: digits with a point or an exponent. -/
inductive Spells : List Char → ℚ → Prop where
  | parts {whole fraction tail : List Char} {e : Int} :
      IsWhole whole → (∀ c ∈ fraction, Chars.isAsciiDigit c) → (fraction ≠ [] ∨ tail ≠ []) →
      (∀ c, tail.head? = some c → Chars.isAsciiDigit c = false ∧ c ≠ '.') →
      exponent? tail = some e →
      Spells (whole ++ (pointed fraction ++ tail))
        (Chars.numeralValue (whole ++ fraction) * 10 ^ (e - fraction.length))

/-- **Digits with a point or an exponent** are read as a decimal. -/
theorem number?_decimal {e : Int} (h : IsWhole whole) (negative : Bool)
    (hfraction : ∀ c ∈ fraction, Chars.isAsciiDigit c) (hne : fraction ≠ [] ∨ tail ≠ [])
    (htail : ∀ c, tail.head? = some c → Chars.isAsciiDigit c = false ∧ c ≠ '.')
    (he : exponent? tail = some e) :
    number? (if negative then '-' :: (whole ++ (pointed fraction ++ tail))
        else whole ++ (pointed fraction ++ tail)) =
      some (.ofDecimal ⟨negative, Chars.numeralValue (whole ++ fraction), e - fraction.length⟩) := by
  have hsign := h.head?_signed negative (pointed fraction ++ tail)
  have hspan := h.spanDigits_signed negative (pointed fraction ++ tail)
  cases fraction with
  | nil =>
      have htail' := hne.resolve_left (fun h => h rfl)
      have hpoint : (tail.head? == some '.') = false :=
        beq_eq_false_iff_ne.mpr fun hhead => (htail _ hhead).2 rfl
      have hempty : tail.isEmpty = false := List.isEmpty_eq_false_iff.mpr htail'
      have hrest : spanDigits tail = ([], tail) :=
        spanDigits_append (List.forall_mem_nil _) fun c hc => (htail c hc).1
      simp only [pointed, List.isEmpty_nil, if_true, List.nil_append] at hsign hspan ⊢
      simp only [number?, hsign, hspan fun c hc => (htail c hc).1, h.isPlain, hempty, hpoint, hrest,
        he, Bool.false_eq_true, if_false, List.isEmpty_nil]
      rfl
  | cons c fraction =>
      have hrest : spanDigits (c :: fraction ++ tail) = (c :: fraction, tail) :=
        spanDigits_append hfraction fun c hc => (htail c hc).1
      have hpointed : pointed (c :: fraction) ++ tail = '.' :: (c :: fraction ++ tail) := rfl
      rw [hpointed] at hsign hspan ⊢
      have hspan := hspan (by rintro d hd; cases hd; rfl)
      have hpoint : (('.' :: (c :: fraction ++ tail)).head? == some '.') = true := rfl
      have hdrop : ('.' :: (c :: fraction ++ tail)).drop 1 = c :: fraction ++ tail := rfl
      simp only [number?, hsign, hspan, h.isPlain, hpoint, hdrop, hrest, he, Bool.false_eq_true,
        if_false, if_true, List.isEmpty_cons]
      rfl

/-- The exponent is what is written behind the mark. -/
theorem exponent?_written (e : Int) :
    exponent? ('e' :: (if e < 0 then '-' else '+') :: Chars.paddedNumeral 2 e.natAbs) = some e := by
  have hnumeral : Chars.isNumeral (Chars.paddedNumeral 2 e.natAbs) := by
    rw [Chars.isNumeral, Bool.and_eq_true, Bool.not_eq_true', List.isEmpty_eq_false_iff,
      List.all_eq_true]
    refine ⟨List.append_ne_nil_of_right_ne_nil _ (Chars.numeral_ne_nil _), fun c hc => ?_⟩
    rcases List.mem_append.mp hc with hc | hc
    · rw [List.eq_of_mem_replicate hc]
      rfl
    · exact Chars.isAsciiDigit_of_mem_numeral hc
  have hvalue : Chars.numeralValue (Chars.paddedNumeral 2 e.natAbs) = e.natAbs := by
    rw [Chars.paddedNumeral, Chars.numeralValue_append, Chars.numeralValue_replicate_zero,
      Chars.numeralValue_numeral, Nat.zero_mul, Nat.zero_add]
  by_cases he : e < 0
  · simp [exponent?, he, hnumeral, hvalue, abs_of_neg he]
  · simp [exponent?, he, hnumeral, hvalue, abs_of_nonneg (not_lt.mp he)]

/-- The beginning of a whole number is one. -/
theorem IsWhole.take (h : IsWhole whole) {k : Nat} (hk : 0 < k) : IsWhole (whole.take k) where
  digits c hc := h.digits c (List.mem_of_mem_take hc)
  ne_nil hnil := by
    rcases List.take_eq_nil_iff.mp hnil with hzero | hnil
    · omega
    · exact h.ne_nil hnil
  plain hlength := by
    rw [List.head?_take, if_neg hk.ne']
    rw [List.length_take] at hlength
    exact h.plain (by omega)

/-- Zeros may follow what does not start with one. -/
theorem IsWhole.append_zeros (h : IsWhole whole) {k : Nat} (hk : k ≠ 0 → whole.head? ≠ some '0') :
    IsWhole (whole ++ List.replicate k '0') where
  digits c hc := by
    rcases List.mem_append.mp hc with hc | hc
    · exact h.digits c hc
    · rw [List.eq_of_mem_replicate hc]
      rfl
  ne_nil := List.append_ne_nil_of_left_ne_nil h.ne_nil _
  plain hlength := by
    rw [List.head?_append_of_ne_nil _ h.ne_nil]
    by_cases hzero : k = 0
    · subst hzero
      exact h.plain (by simpa using hlength)
    · exact hk hzero

/-- What spells a magnitude is read as a decimal of that magnitude. -/
theorem Spells.exists_number? {body : List Char} {x : ℚ} (h : Spells body x) (negative : Bool) :
    ∃ d : Decimal, number? (if negative then '-' :: body else body) = some (.ofDecimal d) ∧
      d.negative = negative ∧ d.magnitude = x := by
  cases h with
  | parts hwhole hfraction hne htail he =>
      exact ⟨_, number?_decimal hwhole negative hfraction hne htail he, rfl, rfl⟩

/-- Digits on both sides of the point. -/
theorem Spells.positional (h : IsWhole whole) (hfraction : ∀ c ∈ fraction, Chars.isAsciiDigit c)
    (hne : fraction ≠ []) :
    Spells (whole ++ '.' :: fraction)
      (Chars.numeralValue (whole ++ fraction) * 10 ^ (-(fraction.length : Int))) := by
  have hnone : ∀ c, ([] : List Char).head? = some c → Chars.isAsciiDigit c = false ∧ c ≠ '.' := by
    intro c hc
    cases hc
  have hparts := Spells.parts h hfraction (.inl hne) hnone rfl
  rw [pointed, List.isEmpty_eq_false_iff.mpr hne, Int.zero_sub, List.append_nil] at hparts
  exact hparts

section Written

variable {d : Decimal} {point : Int}

theorem isAsciiDigit_of_mem_zeros {k : Nat} : ∀ c ∈ List.replicate k '0', Chars.isAsciiDigit c := by
  intro c hc
  rw [List.eq_of_mem_replicate hc]
  rfl

/-- The point stands before the digits. -/
theorem spells_before (hpoint : point = (Chars.numeral d.digits).length + d.exponent)
    (hle : point ≤ 0) :
    Spells ('0' :: '.' :: (List.replicate (-point).toNat '0' ++ Chars.numeral d.digits))
      d.magnitude := by
  have hdigits := (isWhole_numeral d.digits).digits
  have hzero : IsWhole ['0'] := Chars.numeral_zero ▸ isWhole_numeral 0
  have hspells := Spells.positional hzero
    (List.forall_mem_append.mpr ⟨isAsciiDigit_of_mem_zeros, hdigits⟩)
    (List.append_ne_nil_of_right_ne_nil (List.replicate (-point).toNat '0')
      (Chars.numeral_ne_nil d.digits))
  have hexponent : -((List.replicate (-point).toNat '0' ++ Chars.numeral d.digits).length : Int) =
      d.exponent := by
    rw [List.length_append, List.length_replicate]
    omega
  have hvalue : Chars.numeralValue
      (['0'] ++ (List.replicate (-point).toNat '0' ++ Chars.numeral d.digits)) = d.digits := by
    rw [Chars.numeralValue_append, Chars.numeralValue_append, Chars.numeralValue_replicate_zero,
      Chars.numeralValue_numeral]
    simp [Chars.numeralValue, Chars.digitValue]
  rw [hexponent, hvalue] at hspells
  exact hspells

/-- The point stands between the digits. -/
theorem spells_between (hpoint : point = (Chars.numeral d.digits).length + d.exponent)
    (hpos : 0 < point) (hlt : point < (Chars.numeral d.digits).length) :
    Spells ((Chars.numeral d.digits).take point.toNat ++
      '.' :: (Chars.numeral d.digits).drop point.toNat) d.magnitude := by
  have hwhole := isWhole_numeral d.digits
  have hne : (Chars.numeral d.digits).drop point.toNat ≠ [] := by
    rw [ne_eq, List.drop_eq_nil_iff]
    omega
  have hspells := Spells.positional (hwhole.take (k := point.toNat) (by omega))
    (fun c hc => hwhole.digits c (List.mem_of_mem_drop hc)) hne
  have hexponent : -(((Chars.numeral d.digits).drop point.toNat).length : Int) = d.exponent := by
    rw [List.length_drop]
    omega
  rw [List.take_append_drop, Chars.numeralValue_numeral, hexponent] at hspells
  exact hspells

/-- The point stands behind the digits and zeros. -/
theorem spells_behind {k : Nat} (hk : d.digits = 0 ∧ k = 0 ∨ d.digits ≠ 0 ∧ (k : Int) = d.exponent) :
    Spells (Chars.numeral d.digits ++ List.replicate k '0' ++ ['.', '0']) d.magnitude := by
  have hwhole : IsWhole (Chars.numeral d.digits ++ List.replicate k '0') := by
    refine (isWhole_numeral d.digits).append_zeros fun hne => ?_
    exact Chars.head?_numeral_ne_zero (by omega)
  have hzero : ∀ c ∈ ['0'], Chars.isAsciiDigit c := isAsciiDigit_of_mem_zeros (k := 1)
  have hspells := Spells.positional hwhole hzero (List.cons_ne_nil _ _)
  have hvalue : (Chars.numeralValue (Chars.numeral d.digits ++ List.replicate k '0' ++ ['0']) : ℚ) *
      10 ^ (-((['0'].length : Nat) : Int)) = d.magnitude := by
    have hlast : Chars.numeralValue ['0'] = 0 := rfl
    rw [Chars.numeralValue_append, Chars.numeralValue_append, Chars.numeralValue_replicate_zero,
      Chars.numeralValue_numeral, hlast, List.length_replicate, List.length_singleton,
      Decimal.magnitude]
    rcases hk with ⟨hdigits, -⟩ | ⟨-, hexponent⟩
    · simp [hdigits]
    · rw [← hexponent, zpow_natCast]
      push_cast
      simp
  rw [hvalue] at hspells
  exact hspells

/-- One digit stands before the point, and the exponent says where it belongs. -/
theorem spells_exponent :
    Spells ((Chars.numeral d.digits).take 1 ++
        (if 1 < (Chars.numeral d.digits).length then '.' :: (Chars.numeral d.digits).drop 1 else []) ++
        'e' :: (if (Chars.numeral d.digits).length + d.exponent - 1 < 0 then '-' else '+') ::
          Chars.paddedNumeral 2 ((Chars.numeral d.digits).length + d.exponent - 1).natAbs)
      d.magnitude := by
  have hwhole := isWhole_numeral d.digits
  have hlength : 0 < (Chars.numeral d.digits).length := List.length_pos_iff.mpr hwhole.ne_nil
  have hpointed : (if 1 < (Chars.numeral d.digits).length then
      '.' :: (Chars.numeral d.digits).drop 1 else []) = pointed ((Chars.numeral d.digits).drop 1) := by
    rw [pointed]
    by_cases hone : 1 < (Chars.numeral d.digits).length
    · rw [if_pos hone, if_neg (by rw [List.isEmpty_iff, List.drop_eq_nil_iff]; omega)]
    · rw [if_neg hone, if_pos (by rw [List.isEmpty_iff, List.drop_eq_nil_iff]; omega)]
  have hmark : ∀ (cs : List Char) (c : Char), ('e' :: cs).head? = some c →
      Chars.isAsciiDigit c = false ∧ c ≠ '.' := by
    intro cs c hc
    cases hc
    decide
  have hfraction : ∀ c ∈ (Chars.numeral d.digits).drop 1, Chars.isAsciiDigit c :=
    fun c hc => hwhole.digits c (List.mem_of_mem_drop hc)
  have hspells := Spells.parts (hwhole.take (k := 1) (by decide)) hfraction
    (.inr (List.cons_ne_nil _ _)) (hmark _)
    (exponent?_written ((Chars.numeral d.digits).length + d.exponent - 1))
  have hexponent : (Chars.numeral d.digits).length + d.exponent - 1 -
      (((Chars.numeral d.digits).drop 1).length : Int) = d.exponent := by
    rw [List.length_drop]
    omega
  rw [List.take_append_drop, Chars.numeralValue_numeral, hexponent, ← hpointed,
    ← List.append_assoc] at hspells
  exact hspells

/-- **A written decimal** is read as one of the same sign and magnitude. -/
theorem exists_number?_writeDecimal (d : Decimal) :
    ∃ d' : Decimal, number? (Number.writeDecimal d) = some (.ofDecimal d') ∧
      d'.negative = d.negative ∧ d'.magnitude = d.magnitude := by
  refine Spells.exists_number? ?_ d.negative
  by_cases hdigits : d.digits = 0
  · have hzero : Chars.numeral d.digits = ['0'] := by rw [hdigits, Chars.numeral_zero]
    have hspells := spells_behind (k := 0) (.inl ⟨hdigits, rfl⟩)
    rw [hzero] at hspells
    rw [if_pos hdigits, hzero]
    exact hspells
  · rw [if_neg hdigits]
    generalize hpoint : ((Chars.numeral d.digits).length : Int) + d.exponent = point
    split
    · split
      · next hle => exact spells_before hpoint.symm hle
      · next hgt =>
        dsimp only
        by_cases hlt : point < (Chars.numeral d.digits).length
        · have hzeros : point.toNat - ((Chars.numeral d.digits).take point.toNat).length = 0 := by
            rw [List.length_take]
            omega
          have hrest : ((Chars.numeral d.digits).drop point.toNat).isEmpty = false := by
            rw [List.isEmpty_eq_false_iff, ne_eq, List.drop_eq_nil_iff]
            omega
          have hspells := spells_between hpoint.symm (by omega) hlt
          rw [hzeros, hrest, List.replicate_zero, List.append_nil]
          exact hspells
        · have hall : (Chars.numeral d.digits).take point.toNat = Chars.numeral d.digits :=
            List.take_of_length_le (by omega)
          have hrest : (Chars.numeral d.digits).drop point.toNat = [] :=
            List.drop_of_length_le (by omega)
          rw [hall, hrest]
          exact spells_behind (.inr ⟨hdigits, by omega⟩)
    · rw [← hpoint]
      exact spells_exponent

end Written

/-- A real reads back if all decimals of its sign and magnitude are rounded to it. -/
theorem readsBack_real {d : Decimal}
    (h : ∀ d' : Decimal, d'.negative = d.negative → d'.magnitude = d.magnitude →
      Number.ofDecimal d' = .real d) : (Number.real d).ReadsBack := by
  obtain ⟨d', hnumber, hsign, hmagnitude⟩ := exists_number?_writeDecimal d
  rw [Number.ReadsBack, Number.write, atom?_of_isNumeric (isNumeric_of_mem_writeDecimal d), hnumber,
    h d' hsign hmagnitude]
  rfl

/-- An infinite number is read back. -/
theorem readsBack_infinite (negative : Bool) : (Number.infinite negative).ReadsBack := by
  cases negative with
  | false => rfl
  | true => rfl

/-- **A decimal rounded to double precision reads back.** -/
theorem readsBack_ofDecimal (d : Decimal) : (Number.ofDecimal d).ReadsBack := by
  rcases Number.ofDecimal_cases d with h | h | ⟨b, hb, hm, h⟩
  · rw [h]
    exact readsBack_infinite d.negative
  · rw [h]
    refine readsBack_real fun d' hsign hmagnitude => ?_
    have hzero : d'.magnitude = 0 := by
      rw [hmagnitude, Decimal.magnitude, Nat.cast_zero, zero_mul]
    rw [Number.ofDecimal_zero hzero, hsign]
  · rw [h]
    refine readsBack_real fun d' hsign hmagnitude => ?_
    obtain ⟨k, p, hshortest, hholds⟩ := Decimal.exists_shortest_eq hb hm d.negative
    obtain ⟨htrim, hvalue⟩ := Decimal.trim_spec d.negative k p
    rw [hshortest, htrim] at hsign
    rw [hshortest, hvalue] at hmagnitude
    rw [Number.ofDecimal_of_holds hb hm (hmagnitude ▸ hholds), hsign]

end Json

/-- A number that a document can hold: its reals are of double precision. -/
inductive Number.Representable : Number → Prop where
  | integer (i : Int) : Representable (.integer i)
  | real (d : Decimal) : Representable (.ofDecimal d)
  | infinite (negative : Bool) : Representable (.infinite negative)
  | undefined : Representable .undefined

/-- **Numbers read back.** -/
theorem Number.Representable.readsBack {n : Number} (h : n.Representable) : n.ReadsBack := by
  cases h with
  | integer i => exact Json.readsBack_integer i
  | real d => exact Json.readsBack_ofDecimal d
  | infinite negative => exact Json.readsBack_infinite negative
  | undefined => rfl

end Concordance
