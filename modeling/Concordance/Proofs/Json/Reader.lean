import Concordance.Json.Reader
import Concordance.Proofs.Json.Token

/-!
# Written values read back

The tokens of a value, read wherever a value may stand, put the value in its place: the array or object
around it, or the result of the reading. So a document that was written of a value is read as that value
(`ofChars?_writeValue`).
-/

namespace Concordance.Json

variable {fields : List (String × Json)} {stack : List Frame} {v : Json}

/-- A key that no field has is put at the end. -/
theorem putField_of_not_mem {key : String} (h : key ∉ fields.map Prod.fst) :
    putField key v fields = fields ++ [(key, v)] := by
  induction fields with
  | nil => rfl
  | cons f rest ih =>
      rw [List.map_cons, List.mem_cons, not_or] at h
      rw [putField, if_neg (Ne.symm h.1), ih h.2, List.cons_append]

theorem foldlM_single (s : ReadState) (t : Token) : [t].foldlM readStep s = readStep s t := by
  rw [List.foldlM_cons]
  exact bind_pure _

/-- Where a value may stand, the tokens of the value put it in its place. -/
def Reads (v : Json) : Prop :=
  ∀ stack want result, want = .value ∨ want = .valueOrClose →
    (tokensOf v).foldlM readStep ⟨stack, want, result⟩ = place stack v

/-- Reading the items of an array, each behind a comma. -/
theorem foldlM_itemTokens {items acc : List Json} (h : ∀ v ∈ items, Reads v) :
    (itemTokens items).foldlM readStep ⟨.array acc :: stack, .commaOrClose, none⟩ =
      some ⟨.array (items.reverse ++ acc) :: stack, .commaOrClose, none⟩ := by
  induction items generalizing acc with
  | nil => rfl
  | cons v rest ih =>
      obtain ⟨hv, hrest⟩ := List.forall_mem_cons.mp h
      have hcomma : readStep ⟨.array acc :: stack, .commaOrClose, none⟩ .comma =
          some ⟨.array acc :: stack, .value, none⟩ := rfl
      have hplaced : (tokensOf v).foldlM readStep ⟨.array acc :: stack, .value, none⟩ =
          some ⟨.array (v :: acc) :: stack, .commaOrClose, none⟩ :=
        hv _ _ _ (.inl rfl)
      rw [itemTokens, Attempt.foldlM_cons_of_some hcomma, Attempt.foldlM_append_of_some hplaced,
        ih hrest, List.reverse_cons, List.append_assoc, List.singleton_append]

/-- Reading a field of an object whose key is new. -/
theorem foldlM_fieldTokens {f : String × Json} {want : Want}
    (hwant : want = .key ∨ want = .keyOrClose) (hkey : f.1 ∉ fields.map Prod.fst)
    (h : Reads f.2) :
    (fieldTokens f).foldlM readStep ⟨.object fields :: stack, want, none⟩ =
      some ⟨.object (fields ++ [f]) :: stack, .commaOrClose, none⟩ := by
  have hname : readStep ⟨.object fields :: stack, want, none⟩ (.text f.1) =
      some ⟨.member fields f.1 :: stack, .colon, none⟩ := by
    rcases hwant with rfl | rfl
    · rfl
    · rfl
  have hcolon : readStep ⟨.member fields f.1 :: stack, .colon, none⟩ .colon =
      some ⟨.member fields f.1 :: stack, .value, none⟩ := rfl
  rw [fieldTokens, Attempt.foldlM_cons_of_some hname, Attempt.foldlM_cons_of_some hcolon,
    h _ _ _ (.inl rfl), place, putField_of_not_mem hkey]

/-- Reading further fields of an object, each behind a comma. -/
theorem foldlM_fieldsTokens {more : List (String × Json)}
    (hkeys : ((fields ++ more).map Prod.fst).Nodup) (h : ∀ f ∈ more, Reads f.2) :
    (fieldsTokens more).foldlM readStep ⟨.object fields :: stack, .commaOrClose, none⟩ =
      some ⟨.object (fields ++ more) :: stack, .commaOrClose, none⟩ := by
  induction more generalizing fields with
  | nil =>
      rw [List.append_nil]
      rfl
  | cons f rest ih =>
      obtain ⟨hf, hrest⟩ := List.forall_mem_cons.mp h
      have hcomma : readStep ⟨.object fields :: stack, .commaOrClose, none⟩ .comma =
          some ⟨.object fields :: stack, .key, none⟩ := rfl
      have hkey : f.1 ∉ fields.map Prod.fst := by
        rw [List.map_append, List.nodup_append] at hkeys
        exact fun hmem => hkeys.2.2 _ hmem _ (List.mem_cons_self) rfl
      rw [List.append_cons] at hkeys ⊢
      rw [fieldsTokens, Attempt.foldlM_cons_of_some hcomma,
        Attempt.foldlM_append_of_some (foldlM_fieldTokens (.inl rfl) hkey hf), ih hkeys hrest]

/-- **The tokens of a value are read as the value**, wherever it stands. -/
theorem Storable.reads (h : Storable v) : Reads v := by
  induction h with
  | null => rintro stack want result (rfl | rfl) <;> exact foldlM_single _ _
  | bool b => rintro stack want result (rfl | rfl) <;> exact foldlM_single _ _
  | number h => rintro stack want result (rfl | rfl) <;> exact foldlM_single _ _
  | text s => rintro stack want result (rfl | rfl) <;> exact foldlM_single _ _
  | @array items _ ih =>
      intro stack want result hwant
      have hopen : readStep ⟨stack, want, result⟩ .openArray =
          some ⟨.array [] :: stack, .valueOrClose, none⟩ := by
        rcases hwant with rfl | rfl
        · rfl
        · rfl
      cases items with
      | nil =>
          rw [tokensOf, Attempt.foldlM_cons_of_some hopen]
          exact foldlM_single _ _
      | cons v rest =>
          obtain ⟨hv, hrest⟩ := List.forall_mem_cons.mp ih
          have hplaced : (tokensOf v).foldlM readStep ⟨.array [] :: stack, .valueOrClose, none⟩ =
              some ⟨.array [v] :: stack, .commaOrClose, none⟩ :=
            hv _ _ _ (.inr rfl)
          rw [tokensOf, Attempt.foldlM_cons_of_some hopen, List.append_assoc,
            Attempt.foldlM_append_of_some hplaced,
            Attempt.foldlM_append_of_some (foldlM_itemTokens hrest), foldlM_single]
          change place stack (.array (rest.reverse ++ [v]).reverse) = _
          rw [List.reverse_append, List.reverse_reverse]
          rfl
  | @object fields hkeys _ ih =>
      intro stack want result hwant
      have hopen : readStep ⟨stack, want, result⟩ .openObject =
          some ⟨.object [] :: stack, .keyOrClose, none⟩ := by
        rcases hwant with rfl | rfl
        · rfl
        · rfl
      cases fields with
      | nil =>
          rw [tokensOf, Attempt.foldlM_cons_of_some hopen]
          exact foldlM_single _ _
      | cons f rest =>
          obtain ⟨hf, hrest⟩ := List.forall_mem_cons.mp ih
          rw [tokensOf, Attempt.foldlM_cons_of_some hopen, List.append_assoc,
            Attempt.foldlM_append_of_some (foldlM_fieldTokens (.inr rfl) List.not_mem_nil hf),
            Attempt.foldlM_append_of_some (foldlM_fieldsTokens hkeys hrest), foldlM_single]
          rfl

/-- **The tokens of a value** are read as the value. -/
theorem ofTokens?_tokensOf (h : Storable v) : ofTokens? (tokensOf v) = some v := by
  rw [ofTokens?, h.reads _ _ _ (.inl rfl)]
  rfl

/-- **Written documents read back.** -/
theorem ofChars?_writeValue (h : Storable v) : ofChars? (writeValue indented 0 v) = some v := by
  rw [ofChars?, tokens?_writeValue h]
  exact ofTokens?_tokensOf h

end Concordance.Json
