import Concordance.Proofs.Toml.Atom

/-!
# Written values read back

A written value is read back if all its texts are, at any depth of nesting. The main statement,
`value?_write`, says both what is read of a clean value and that nothing is read of any other.
-/

namespace Concordance.Toml

open Chars (joinReturns)

/-- A value with a written form of its own: no moment, no table, and no number but an integer. -/
inductive Writable : Toml → Prop
  | bool (b : Bool) : Writable (.bool b)
  | integer (i : Int) : Writable (.number (.integer i))
  | text (s : String) : Writable (.text s)
  | array {items : List Toml} (h : ∀ v ∈ items, Writable v) : Writable (.array items)

mutual

/-- Whether no text in a value has a control character. -/
def isClean : Toml → Bool
  | .text s => hasNoControl s.toList
  | .array items => areClean items
  | _ => true

/-- Whether no text in some values has a control character. -/
def areClean : List Toml → Bool
  | [] => true
  | v :: rest => isClean v && areClean rest

end

/-- A character at which the reader of an array takes up an item. -/
def opensItem (c : Char) : Bool :=
  !(isSpace c || c == '\n' || c == '\r' || c == '#' || c == ']')

/-- A written value starts where the reader takes up an item. -/
theorem Writable.exists_write_cons {v : Toml} (hv : Writable v) :
    ∃ c cs, v.write = c :: cs ∧ opensItem c := by
  cases hv with
  | bool b => cases b <;> exact ⟨_, _, rfl, by decide⟩
  | integer i =>
      obtain ⟨c, cs, hi, hc⟩ := exists_integer_cons i
      refine ⟨c, cs, hi, ?_⟩
      rcases hc with hdigit | rfl
      · have hne : ∀ d, Chars.isAsciiDigit d = false → c ≠ d := by
          rintro d hd rfl
          rw [hd] at hdigit
          cases hdigit
        simp [opensItem, isSpace, hne ' ' (by decide), hne '\t' (by decide), hne '\n' (by decide),
          hne '\r' (by decide), hne '#' (by decide), hne ']' (by decide)]
      · decide
  | text s => exact ⟨'"', _, rfl, by decide⟩
  | array h => exact ⟨'[', _, rfl, by decide⟩

/-- Nothing is skipped before an item. -/
theorem skipLines?_item {c : Char} (hc : opensItem c) (cs : List Char) :
    skipLines? false (c :: cs) = some (c :: cs) := by
  simp only [opensItem, Bool.not_eq_true', Bool.or_eq_false_iff] at hc
  obtain ⟨⟨⟨⟨hspace, hnewline⟩, -⟩, hcomment⟩, -⟩ := hc
  rw [skipLines?, if_neg (by decide), hspace, hnewline, hcomment]
  rfl

/-- What follows a value is not skipped either. -/
theorem skipLines?_mark {c : Char} (hc : c = ',' ∨ c = ']') (cs : List Char) :
    skipLines? false (c :: cs) = some (c :: cs) := by
  rcases hc with rfl | rfl <;> rfl

/-- The value is read back from its text, whatever may follow, unless it is not clean. -/
def ReadsBack (v : Toml) : Prop :=
  ∀ {fuel : Nat} {rest : List Char}, Stops rest →
    (joinReturns v.write).length < fuel →
    value? fuel (joinReturns (v.write ++ rest)) =
      if v.isClean then some (v, joinReturns rest) else none

/-- An item and what follows it, as the reader of an array takes them. -/
theorem items?_succ {v : Toml} (hv : Writable v) (hread : v.ReadsBack) {fuel : Nat}
    (hfuel : (joinReturns v.write).length < fuel) {c : Char} (hc : c = ',' ∨ c = ']')
    (rest : List Char) :
    items? (fuel + 1) (joinReturns (v.write ++ c :: rest)) =
      if v.isClean then
        if c = ',' then (items? fuel (joinReturns rest)).map fun (vs, rest) => (v :: vs, rest)
        else some ([v], joinReturns rest)
      else none := by
  obtain ⟨d, ds, hwrite, hd⟩ := hv.exists_write_cons
  have hstops : Stops (c :: rest) := by rcases hc with rfl | rfl <;> constructor
  have hreturn : d ≠ '\r' := by rintro rfl; exact absurd hd (by decide)
  have hbracket : d ≠ ']' := by rintro rfl; exact absurd hd (by decide)
  have hvalue := hread hstops hfuel
  have hjoin : joinReturns (v.write ++ c :: rest) = d :: joinReturns (ds ++ c :: rest) := by
    rw [hwrite, List.cons_append, Chars.joinReturns_cons hreturn]
  have hrest : joinReturns (c :: rest) = c :: joinReturns rest := by
    rcases hc with rfl | rfl <;> exact Chars.joinReturns_cons (by decide) rest
  rw [hjoin, hrest] at hvalue
  rw [hjoin, items?, skipLines?_item hd, Option.bind_eq_bind, Option.bind_some]
  split
  · next heq => exact absurd (List.cons.inj heq).1 hbracket
  · rw [hvalue]
    by_cases hclean : v.isClean = true
    · rw [if_pos hclean, if_pos hclean, Option.bind_eq_bind, Option.bind_some]
      dsimp only
      rw [skipLines?_mark hc, Option.bind_some]
      rcases hc with rfl | rfl
      · rw [if_pos rfl]
        change (items? fuel (joinReturns rest)).bind (fun x => some (v :: x.1, x.2)) = _
        cases items? fuel (joinReturns rest) <;> rfl
      · rw [if_neg (by decide)]
        rfl
    · rw [if_neg hclean, if_neg hclean]
      rfl

/-- A blank before an item is skipped. -/
theorem items?_space (fuel : Nat) (cs : List Char) : items? fuel (' ' :: cs) = items? fuel cs := by
  cases fuel with
  | zero => rfl
  | succ fuel =>
      have hskip : skipLines? false (' ' :: cs) = skipLines? false cs := rfl
      rw [items?, items?, hskip]

/-- **The items of an array** are read back one after the other. -/
theorem items?_writeItems {items : List Toml} (hitems : ∀ v ∈ items, Writable v)
    (hread : ∀ v ∈ items, ReadsBack v) {fuel : Nat}
    (hfuel : (joinReturns (writeItems items)).length + 1 < fuel) (rest : List Char) :
    items? fuel (joinReturns (writeItems items ++ ']' :: rest)) =
      if areClean items then some (items, joinReturns rest) else none := by
  induction items generalizing fuel with
  | nil =>
      obtain ⟨fuel, rfl⟩ : ∃ k, fuel = k + 1 := ⟨fuel - 1, by omega⟩
      rw [writeItems, List.nil_append, Chars.joinReturns_cons (by decide), items?,
        skipLines?_mark (.inr rfl)]
      rfl
  | cons v items ih =>
      obtain ⟨hv, hitems⟩ := List.forall_mem_cons.mp hitems
      obtain ⟨hreadv, hread⟩ := List.forall_mem_cons.mp hread
      obtain ⟨fuel, rfl⟩ : ∃ k, fuel = k + 1 := ⟨fuel - 1, by omega⟩
      cases items with
      | nil =>
          rw [writeItems] at hfuel ⊢
          rw [items?_succ hv hreadv (by omega) (.inr rfl), areClean, areClean, Bool.and_true]
          rfl
      | cons w items =>
          have htext : writeItems (v :: w :: items) ++ ']' :: rest =
              v.write ++ ',' :: ' ' :: (writeItems (w :: items) ++ ']' :: rest) := by
            rw [writeItems, List.append_assoc, List.append_assoc]
            rfl
          have hlength : (joinReturns (writeItems (v :: w :: items))).length =
              (joinReturns v.write).length + 2 + (joinReturns (writeItems (w :: items))).length := by
            rw [writeItems, List.append_assoc]
            change (joinReturns (v.write ++ ',' :: ' ' :: writeItems (w :: items))).length = _
            rw [Chars.joinReturns_append_of_head (by simp), List.length_append,
              Chars.joinReturns_cons (by decide), Chars.joinReturns_cons (by decide)]
            simp only [List.length_cons]
            omega
          rw [hlength] at hfuel
          have hall : areClean (v :: w :: items) = (v.isClean && areClean (w :: items)) := by
            rw [areClean]
          rw [htext, items?_succ hv hreadv (by omega) (.inl rfl), if_pos rfl,
            Chars.joinReturns_cons (by decide), items?_space, ih hitems hread (by omega), hall]
          by_cases hclean : v.isClean = true
          · rw [if_pos hclean, hclean, Bool.true_and]
            by_cases hrest : areClean (w :: items) = true
            · rw [if_pos hrest, if_pos hrest]
              rfl
            · rw [if_neg hrest, if_neg hrest]
              rfl
          · rw [if_neg hclean, if_neg (by simp [hclean])]

/-- A value that starts with neither a bracket nor a brace has no parts. -/
theorem value?_atom {c : Char} (hbracket : c ≠ '[') (hbrace : c ≠ '\x7b') (fuel : Nat)
    (cs : List Char) : value? (fuel + 1) (c :: cs) = atom? (c :: cs) := by
  rw [value?]
  · exact fun _ h => hbracket (List.cons.inj h).1
  · exact fun _ h => hbrace (List.cons.inj h).1

/-- The texts of numbers and truth values have no carriage return. -/
theorem return_notMem_integer (i : Int) : '\r' ∉ Chars.integer i := by
  have hnumeral : ∀ n, '\r' ∉ Chars.numeral n := fun n h =>
    absurd (Chars.isAsciiDigit_of_mem_numeral h) (by decide)
  cases i with
  | ofNat n => exact hnumeral n
  | negSucc n => exact List.not_mem_cons_of_ne_of_not_mem (by decide) (hnumeral (n + 1))

/-- **A written value reads back**, whatever may follow it, if it is clean; else nothing is read. -/
theorem value?_write {v : Toml} (hv : Writable v) : v.ReadsBack := by
  induction hv with
  | bool b =>
      intro fuel rest hrest hfuel
      obtain ⟨fuel, rfl⟩ : ∃ k, fuel = k + 1 := ⟨fuel - 1, by omega⟩
      have hreturn : '\r' ∉ write (.bool b) := by cases b <;> decide
      rw [Chars.joinReturns_append hreturn]
      cases b <;> rfl
  | integer i =>
      intro fuel rest hrest hfuel
      obtain ⟨fuel, rfl⟩ : ∃ k, fuel = k + 1 := ⟨fuel - 1, by omega⟩
      obtain ⟨c, cs, hi, hc⟩ := exists_integer_cons i
      have hbracket : c ≠ '[' := by rintro rfl; revert hc; decide
      have hbrace : c ≠ '\x7b' := by rintro rfl; revert hc; decide
      change value? (fuel + 1) (joinReturns (Chars.integer i ++ rest)) = _
      rw [Chars.joinReturns_append (return_notMem_integer i)]
      have hatom := atom?_integer i hrest.joinReturns
      rw [hi, List.cons_append] at hatom ⊢
      rw [value?_atom hbracket hbrace, hatom]
      rfl
  | text s =>
      intro fuel rest hrest hfuel
      obtain ⟨fuel, rfl⟩ : ∃ k, fuel = k + 1 := ⟨fuel - 1, by omega⟩
      have htext := text?_writeText s hrest
      change value? (fuel + 1) (joinReturns (writeText s ++ rest)) = _
      rw [writeText_eq, List.cons_append, Chars.joinReturns_cons (by decide)] at htext ⊢
      rw [value?_atom (by decide) (by decide), atom?, if_pos (by rfl), htext, isClean]
      by_cases hclean : hasNoControl s.toList = true
      · simp only [if_pos hclean, Option.map_some, String.ofList_toList]
      · rw [if_neg hclean, if_neg hclean]
        rfl
  | @array items hitems ih =>
      intro fuel rest hrest hfuel
      obtain ⟨fuel, rfl⟩ : ∃ k, fuel = k + 1 := ⟨fuel - 1, by omega⟩
      have hlength : (joinReturns (write (.array items))).length =
          (joinReturns (writeItems items)).length + 2 := by
        rw [write, Chars.joinReturns_cons (by decide),
          Chars.joinReturns_append_of_head (by decide), List.length_cons, List.length_append]
        rfl
      have htext : write (.array items) ++ rest = '[' :: (writeItems items ++ ']' :: rest) := by
        rw [write, List.cons_append, List.append_assoc]
        rfl
      rw [htext, Chars.joinReturns_cons (by decide), value?,
        items?_writeItems hitems ih (by omega), isClean]
      by_cases hclean : areClean items = true
      · rw [if_pos hclean, if_pos hclean]
        rfl
      · rw [if_neg hclean, if_neg hclean]
        rfl

end Concordance.Toml
