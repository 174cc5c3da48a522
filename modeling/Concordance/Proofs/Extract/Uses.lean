import Concordance.Extract.Basic
import Concordance.Proofs.Attempt
import Concordance.Proofs.Extract.Name

/-!
# Where references, imports and exports come from

A reference is to the name that one tree below the node is; an import and an export are made by one
tree below it. Nothing else is ever recorded, whatever the family.
-/

namespace Concordance.Extract

variable {ctx : Context}

/-- A reference to the name that some tree below a tree is. -/
def ReferredIn (ctx : Context) (t : Tree) (u : Reference) : Prop :=
  ∃ name ∈ t.preorder, ∃ kind, u = reference ctx kind name

/-- A call of some plain name below a tree. -/
def CalledIn (ctx : Context) (t : Tree) (u : Reference) : Prop :=
  ∃ name ∈ t.preorder, name.isIdentifier = true ∧ ctx.text name ≠ "" ∧ u = reference ctx .call name

/-- An import that some tree below a tree makes. -/
def ImportedIn (ctx : Context) (t : Tree) (i : Import) : Prop :=
  ∃ u ∈ t.preorder, ∃ source specifiers kind, i = importAt ctx u source specifiers kind

/-- An export that some tree below a tree makes. -/
def ExportedIn (ctx : Context) (t : Tree) (x : Export) : Prop :=
  ∃ u ∈ t.preorder, ∃ name kind source, x = exportAt ctx u name kind source

/-! ### References -/

section References

variable {t : Tree} {u : Reference}

/-- What is called stands below the call. -/
theorem callee?_mem_preorder {fields : List String} {c : Tree} (h : callee? t fields = some c) :
    c ∈ t.preorder := by
  rw [callee?, Option.orElse_eq_orElse, Option.orElse_eq_or, Option.or_eq_some_iff] at h
  rcases h with h | ⟨-, h⟩
  · obtain ⟨field, -, hfield⟩ := List.exists_of_findSome?_eq_some h
    exact Tree.field?_mem_preorder hfield
  · have hmem := List.mem_of_mem_head? h
    exact Tree.mem_preorder_of_mem_namedChildren (List.mem_filter.mp hmem).1

/-- A call refers to a name that stands in it. -/
theorem referredIn_of_mem_callReference {fields : List String}
    (hu : u ∈ callReference ctx t fields) : ReferredIn ctx t u := by
  unfold callReference at hu
  split at hu
  · cases hu
  · next name hname =>
    split at hu
    · cases hu
    · obtain ⟨c, hc, htarget⟩ := Option.bind_eq_some_iff.mp hname
      have hbelow : name ∈ t.preorder :=
        Tree.mem_preorder_trans (callee?_mem_preorder hc) (Tree.target?_mem_preorder htarget)
      exact ⟨name, hbelow, .call, List.mem_singleton.mp hu⟩

/-- The references to the types that some trees below a tree name. -/
theorem referredIn_of_mem_typeReferences {kind : ReferenceKind} {ts : List Tree}
    (hts : ∀ v ∈ ts, v ∈ t.preorder) (hu : u ∈ typeReferences ctx kind ts) :
    ReferredIn ctx t u := by
  obtain ⟨name, hname, rfl⟩ := List.mem_map.mp hu
  obtain ⟨v, hv, htarget⟩ := List.mem_filterMap.mp hname
  exact ⟨name, Tree.mem_preorder_trans (hts v hv) (Tree.target?_mem_preorder htarget), kind, rfl⟩

theorem namedChildren_below {v : Tree} (hv : v ∈ t.preorder) :
    ∀ c ∈ v.namedChildren, c ∈ t.preorder :=
  fun _ hc => Tree.mem_preorder_trans hv (Tree.mem_preorder_of_mem_namedChildren hc)

/-- So does a decorator. -/
theorem referredIn_of_mem_decoratorReference (hu : u ∈ decoratorReference ctx t) :
    ReferredIn ctx t u := by
  refine referredIn_of_mem_typeReferences (fun v hv => ?_) hu
  obtain ⟨e, he, hv⟩ := Option.bind_eq_some_iff.mp (Option.mem_toList.mp hv)
  have hbelow : e ∈ t.preorder :=
    Tree.mem_preorder_of_mem_namedChildren (List.mem_of_mem_head? he)
  split at hv
  · exact Tree.mem_preorder_trans hbelow (Tree.field?_mem_preorder hv)
  · cases hv
    exact hbelow

/-- So does a heritage in ECMAScript. -/
theorem Ecmascript.referredIn_of_mem_heritageReferences (hu : u ∈ heritageReferences ctx t) :
    ReferredIn ctx t u := by
  rcases List.mem_append.mp hu with hu | hu
  · refine referredIn_of_mem_typeReferences (fun v hv => ?_) hu
    split at hv
    · next clause hclause => exact namedChildren_below (Tree.childOf?_mem_preorder hclause) v hv
    · have hmem := List.mem_of_mem_take hv
      exact Tree.mem_preorder_of_mem_namedChildren (List.mem_filter.mp hmem).1
  · refine referredIn_of_mem_typeReferences (fun v hv => ?_) hu
    cases hclause : t.childOf? ["implements_clause"] with
    | none => rw [hclause] at hv; cases hv
    | some clause =>
        rw [hclause] at hv
        exact namedChildren_below (Tree.childOf?_mem_preorder hclause) v hv

/-- So does an element that is a component. -/
theorem Ecmascript.referredIn_of_mem_componentReference (hu : u ∈ componentReference ctx t) :
    ReferredIn ctx t u := by
  unfold componentReference at hu
  split at hu
  · cases hu
  · next name hname =>
    obtain ⟨c, hc, htarget⟩ := Option.bind_eq_some_iff.mp hname
    split at hu
    · exact ⟨name, Tree.mem_preorder_trans (Tree.field?_mem_preorder hc)
        (Tree.target?_mem_preorder htarget), .component, List.mem_singleton.mp hu⟩
    · cases hu

/-- Every other reference in ECMAScript is to a name that stands in the node. -/
theorem Ecmascript.referredIn_of_mem_otherReferences (hu : u ∈ otherReferences ctx t) :
    ReferredIn ctx t u := by
  unfold otherReferences at hu
  split at hu
  · exact referredIn_of_mem_heritageReferences hu
  · split at hu
    · exact referredIn_of_mem_decoratorReference hu
    · split at hu
      · exact referredIn_of_mem_componentReference hu
      · cases hu

/-- So it is in Python. -/
theorem Python.referredIn_of_mem_otherReferences (hu : u ∈ otherReferences ctx t) :
    ReferredIn ctx t u := by
  unfold otherReferences at hu
  split at hu
  · exact referredIn_of_mem_decoratorReference hu
  · split at hu
    · split at hu
      · cases hu
      · next list hlist =>
        exact referredIn_of_mem_typeReferences (fun v hv =>
          namedChildren_below (Tree.field?_mem_preorder hlist) v (List.mem_filter.mp hv).1) hu
    · cases hu

/-- So it is on the JVM. -/
theorem Jvm.referredIn_of_mem_otherReferences (hu : u ∈ otherReferences ctx t) :
    ReferredIn ctx t u := by
  unfold otherReferences at hu
  split at hu
  · exact referredIn_of_mem_typeReferences (namedChildren_below t.self_mem_preorder) hu
  · split at hu
    · refine referredIn_of_mem_typeReferences (namedChildren_below ?_) hu
      cases hlist : t.childOf? ["type_list"] with
      | none => exact t.self_mem_preorder
      | some list => exact Tree.childOf?_mem_preorder hlist
    · cases hu

/-- So it is in PHP. -/
theorem Php.referredIn_of_mem_otherReferences (hu : u ∈ otherReferences ctx t) :
    ReferredIn ctx t u := by
  unfold otherReferences at hu
  split at hu
  · exact referredIn_of_mem_typeReferences (namedChildren_below t.self_mem_preorder) hu
  · split at hu
    · exact referredIn_of_mem_typeReferences (namedChildren_below t.self_mem_preorder) hu
    · cases hu

/-- So it is in Ruby. -/
theorem Ruby.referredIn_of_mem_otherReferences (hu : u ∈ otherReferences ctx t) :
    ReferredIn ctx t u := by
  unfold otherReferences at hu
  split at hu
  · exact referredIn_of_mem_typeReferences (namedChildren_below t.self_mem_preorder) hu
  · cases hu

/-- So it is in Rust. -/
theorem Rust.referredIn_of_mem_otherReferences (hu : u ∈ otherReferences ctx t) :
    ReferredIn ctx t u := by
  unfold otherReferences at hu
  split at hu
  · exact referredIn_of_mem_typeReferences
      (fun _ hv => Tree.field?_mem_preorder (Option.mem_toList.mp hv)) hu
  · cases hu

/-- **In every family** the other references of a node are to names that stand in it. -/
theorem referredIn_of_mem_otherReferences (hu : u ∈ otherReferences ctx t) :
    ReferredIn ctx t u := by
  unfold otherReferences at hu
  split at hu
  case h_1 => exact Ecmascript.referredIn_of_mem_otherReferences hu
  case h_2 => exact Python.referredIn_of_mem_otherReferences hu
  case h_3 => exact Jvm.referredIn_of_mem_otherReferences hu
  case h_4 => exact Php.referredIn_of_mem_otherReferences hu
  case h_5 => exact Ruby.referredIn_of_mem_otherReferences hu
  case h_6 => exact Rust.referredIn_of_mem_otherReferences hu
  case h_7 => cases hu

/-- **One tree.** Its references are to names below it. -/
theorem referredIn_of_mem_references (hu : u ∈ references ctx t) : ReferredIn ctx t u := by
  unfold references at hu
  split at hu
  · exact referredIn_of_mem_callReference hu
  · exact referredIn_of_mem_typeReferences
      (fun _ hv => callee?_mem_preorder (Option.mem_toList.mp hv)) hu
  · exact referredIn_of_mem_otherReferences hu

/-! Only calls are calls: what is called is a plain name that is not empty. -/

/-- The reference of a call is to the name that is called. -/
theorem calledIn_of_mem_callReference {fields : List String}
    (hu : u ∈ callReference ctx t fields) : CalledIn ctx t u := by
  unfold callReference at hu
  split at hu
  · cases hu
  · next name hname =>
    split at hu
    · cases hu
    · next hkept =>
      obtain ⟨c, hc, htarget⟩ := Option.bind_eq_some_iff.mp hname
      have hbelow : name ∈ t.preorder :=
        Tree.mem_preorder_trans (callee?_mem_preorder hc) (Tree.target?_mem_preorder htarget)
      have htext : ctx.text name ≠ "" := by
        intro hempty
        rw [hempty] at hkept
        cases hfamily : ctx.family <;> simp [hfamily, ignoredCallees] at hkept
      exact ⟨name, hbelow, Tree.isIdentifier_of_target? htarget, htext, List.mem_singleton.mp hu⟩

theorem kind_ne_call_of_mem_typeReferences {kind : ReferenceKind} {ts : List Tree}
    (hkind : kind ≠ .call) (hu : u ∈ typeReferences ctx kind ts) : u.kind ≠ .call := by
  obtain ⟨name, -, rfl⟩ := List.mem_map.mp hu
  exact hkind

theorem Ecmascript.kind_ne_call_of_mem_otherReferences (hu : u ∈ otherReferences ctx t) :
    u.kind ≠ .call := by
  unfold otherReferences at hu
  split at hu
  · rcases List.mem_append.mp hu with hu | hu
    · exact kind_ne_call_of_mem_typeReferences (by decide) hu
    · exact kind_ne_call_of_mem_typeReferences (by decide) hu
  · split at hu
    · exact kind_ne_call_of_mem_typeReferences (by decide) hu
    · split at hu
      · unfold componentReference at hu
        split at hu
        · cases hu
        · split at hu
          · rw [List.mem_singleton.mp hu]
            exact (by decide : ReferenceKind.component ≠ .call)
          · cases hu
      · cases hu

theorem Python.kind_ne_call_of_mem_otherReferences (hu : u ∈ otherReferences ctx t) :
    u.kind ≠ .call := by
  unfold otherReferences at hu
  split at hu
  · exact kind_ne_call_of_mem_typeReferences (by decide) hu
  · split at hu
    · split at hu
      · cases hu
      · exact kind_ne_call_of_mem_typeReferences (by decide) hu
    · cases hu

/-- The other references of a node are no calls. -/
theorem kind_ne_call_of_mem_otherReferences (hu : u ∈ otherReferences ctx t) :
    u.kind ≠ .call := by
  have htypes {c : Prop} [Decidable c] {kind : ReferenceKind} {ts : List Tree} {rest : List Reference}
      (hkind : kind ≠ .call) (hrest : u ∈ rest → u.kind ≠ .call)
      (hu : u ∈ if c then typeReferences ctx kind ts else rest) : u.kind ≠ .call := by
    split at hu
    · exact kind_ne_call_of_mem_typeReferences hkind hu
    · exact hrest hu
  have hnone : u ∈ ([] : List Reference) → u.kind ≠ .call := fun h => absurd h List.not_mem_nil
  unfold otherReferences at hu
  split at hu
  case h_1 => exact Ecmascript.kind_ne_call_of_mem_otherReferences hu
  case h_2 => exact Python.kind_ne_call_of_mem_otherReferences hu
  case h_3 => exact htypes (by decide) (htypes (by decide) hnone) hu
  case h_4 => exact htypes (by decide) (htypes (by decide) hnone) hu
  case h_5 => exact htypes (by decide) hnone hu
  case h_6 => exact htypes (by decide) hnone hu
  case h_7 => exact hnone hu

/-- **One tree.** Its calls are of plain names below it. -/
theorem calledIn_of_mem_references (hu : u ∈ references ctx t) (hkind : u.kind = .call) :
    CalledIn ctx t u := by
  unfold references at hu
  split at hu
  · exact calledIn_of_mem_callReference hu
  · exact absurd hkind (kind_ne_call_of_mem_typeReferences (by decide) hu)
  · exact absurd hkind (kind_ne_call_of_mem_otherReferences hu)

end References

/-! ### Imports -/

section Imports

variable {n : Node} {t : Tree} {i : Import}

/-- An import that a tree itself makes. -/
theorem ImportedIn.here {source : String} {specifiers : List ImportSpecifier} {kind : ImportKind}
    (h : i ∈ [importAt ctx t source specifiers kind]) : ImportedIn ctx t i :=
  ⟨t, t.self_mem_preorder, source, specifiers, kind, List.mem_singleton.mp h⟩

/-- What an import statement imports stands at its node. -/
theorem Ecmascript.importedIn_of_mem_importStatement (hi : i ∈ importStatement ctx t) :
    ImportedIn ctx t i := by
  unfold importStatement at hi
  split at hi
  · cases hi
  · dsimp only at hi
    split at hi
    · exact .here hi
    · exact .here hi

/-- So does what a call of `require` imports. -/
theorem Ecmascript.importedIn_of_mem_requireCall (hi : i ∈ requireCall ctx n) :
    ImportedIn ctx n.tree i := by
  unfold requireCall at hi
  split at hi
  · split at hi
    · cases hi
    · split at hi
      · cases hi
      · dsimp only at hi
        split at hi
        · exact .here hi
        · exact .here hi
  · cases hi

/-- Every import in ECMAScript stands at its node. -/
theorem Ecmascript.importedIn_of_mem_imports (hi : i ∈ imports ctx n) :
    ImportedIn ctx n.tree i := by
  unfold imports at hi
  split at hi
  · exact importedIn_of_mem_importStatement hi
  · split at hi
    · exact importedIn_of_mem_requireCall hi
    · cases hi

/-- So it is in Python. -/
theorem Python.importedIn_of_mem_imports (hi : i ∈ imports ctx t) : ImportedIn ctx t i := by
  unfold imports at hi
  split at hi
  · obtain ⟨spec, -, rfl⟩ := List.mem_map.mp hi
    exact .here (List.mem_singleton_self _)
  · split at hi
    · split at hi
      · cases hi
      · split at hi
        · exact .here hi
        · exact .here hi
    · cases hi

/-- So it is in Go. -/
theorem Go.importedIn_of_mem_imports (hi : i ∈ imports ctx t) : ImportedIn ctx t i := by
  unfold imports at hi
  split at hi
  · cases hi
  · split at hi
    · cases hi
    · dsimp only at hi
      split at hi
      · exact .here hi
      · exact .here hi

/-- So it is in Rust. -/
theorem Rust.importedIn_of_mem_imports (hi : i ∈ imports ctx t) : ImportedIn ctx t i := by
  unfold imports at hi
  split at hi
  · cases hi
  · split at hi
    · cases hi
    · obtain ⟨source, -, rfl⟩ := List.mem_map.mp hi
      exact .here (List.mem_singleton_self _)

/-- So it is on the JVM. -/
theorem Jvm.importedIn_of_mem_imports (hi : i ∈ imports ctx t) : ImportedIn ctx t i := by
  unfold imports at hi
  dsimp only at hi
  split at hi
  · split at hi
    · cases hi
    · split at hi
      · exact .here hi
      · exact .here hi
  · split at hi
    · split at hi
      · cases hi
      · split at hi
        · exact .here hi
        · exact .here hi
    · cases hi

/-- So it is in C#. -/
theorem CSharp.importedIn_of_mem_imports (hi : i ∈ imports ctx t) : ImportedIn ctx t i := by
  unfold imports at hi
  split at hi
  · cases hi
  · split at hi
    · cases hi
    · exact .here hi

/-- So it is in PHP. -/
theorem Php.importedIn_of_mem_imports (hi : i ∈ imports ctx t) : ImportedIn ctx t i := by
  unfold imports at hi
  split at hi
  · cases hi
  · obtain ⟨clause, hclause, hi⟩ := List.mem_filterMap.mp hi
    obtain ⟨binding, -, hi⟩ := Option.bind_eq_some_iff.mp hi
    exact ⟨clause, Tree.mem_preorder_of_mem_childrenOf hclause, _, _, _, (Option.some.inj hi).symm⟩

/-- So it is in C and C++. -/
theorem C.importedIn_of_mem_imports (hi : i ∈ imports ctx t) : ImportedIn ctx t i := by
  unfold imports at hi
  split at hi
  · cases hi
  · split at hi
    · cases hi
    · exact .here hi

/-- So it is in Ruby. -/
theorem Ruby.importedIn_of_mem_imports (hi : i ∈ imports ctx t) : ImportedIn ctx t i := by
  unfold imports at hi
  split at hi
  · cases hi
  · split at hi
    · split at hi
      · cases hi
      · split at hi
        · cases hi
        · exact .here hi
    · cases hi

/-- **One node.** Its imports are made by trees below it. -/
theorem importedIn_of_mem_imports (hi : i ∈ imports ctx n) : ImportedIn ctx n.tree i := by
  unfold imports at hi
  split at hi
  case h_1 => exact Ecmascript.importedIn_of_mem_imports hi
  case h_2 => exact Python.importedIn_of_mem_imports hi
  case h_3 => exact Go.importedIn_of_mem_imports hi
  case h_4 => exact Rust.importedIn_of_mem_imports hi
  case h_5 => exact Jvm.importedIn_of_mem_imports hi
  case h_6 => exact CSharp.importedIn_of_mem_imports hi
  case h_7 => exact Php.importedIn_of_mem_imports hi
  case h_8 => exact C.importedIn_of_mem_imports hi
  case h_9 => exact Ruby.importedIn_of_mem_imports hi
  case h_10 => cases hi

end Imports

/-! ### Exports -/

section Exports

variable {n : Node} {t : Tree} {x : Export}

theorem Ecmascript.spec_mem_preorder {clause spec : Tree} {name : String}
    (h : (spec, name) ∈ clauseNames ctx clause) : spec ∈ clause.preorder := by
  obtain ⟨u, hu, hpair⟩ := List.mem_map.mp h
  cases hpair
  exact Tree.mem_preorder_of_mem_childrenOf hu

/-- What is handed on from another source is an export of the node. -/
theorem Ecmascript.exportedIn_of_mem_handedOn {source : String}
    (hx : x ∈ handedOn ctx t (t.childOf? ["export_clause"]) source) : ExportedIn ctx t x := by
  unfold handedOn at hx
  split at hx
  · exact ⟨t, t.self_mem_preorder, _, _, _, List.mem_singleton.mp hx⟩
  · next clause hclause =>
    obtain ⟨⟨spec, name⟩, hspec, rfl⟩ := List.mem_map.mp hx
    exact ⟨spec, Tree.mem_preorder_trans (Tree.childOf?_mem_preorder hclause)
      (spec_mem_preorder hspec), _, _, _, rfl⟩

/-- So is what is exported by name. -/
theorem Ecmascript.exportedIn_of_mem_ownExports
    (hx : x ∈ ownExports ctx t (t.childOf? ["export_clause"])) : ExportedIn ctx t x := by
  unfold ownExports at hx
  dsimp only at hx
  split at hx
  · obtain ⟨name, -, rfl⟩ := List.mem_map.mp hx
    exact ⟨t, t.self_mem_preorder, _, _, _, rfl⟩
  · next clause _ hclause =>
    obtain ⟨⟨spec, name⟩, hspec, rfl⟩ := List.mem_map.mp hx
    exact ⟨spec, Tree.mem_preorder_trans (Tree.childOf?_mem_preorder hclause)
      (spec_mem_preorder hspec), _, _, _, rfl⟩
  · split at hx
    · exact ⟨t, t.self_mem_preorder, _, _, _, List.mem_singleton.mp hx⟩
    · cases hx

/-- Every export in ECMAScript stands at its node. -/
theorem Ecmascript.exportedIn_of_mem_exports (hx : x ∈ exports ctx t) : ExportedIn ctx t x := by
  unfold exports at hx
  split at hx
  · cases hx
  · dsimp only at hx
    split at hx
    · exact exportedIn_of_mem_handedOn hx
    · exact exportedIn_of_mem_ownExports hx

/-- So it is in Python. -/
theorem Python.exportedIn_of_mem_exports (hx : x ∈ exports ctx n) :
    ExportedIn ctx n.tree x := by
  unfold exports at hx
  split at hx
  · next left right statement _ hright _ =>
    split at hx
    · obtain ⟨item, hitem, rfl⟩ := List.mem_map.mp hx
      have hbelow := namedChildren_below (Tree.field?_mem_preorder hright) item
        (List.mem_filter.mp hitem).1
      exact ⟨item, hbelow, _, _, _, rfl⟩
    · cases hx
  · cases hx

/-- **One node.** Its exports are made by trees below it. -/
theorem exportedIn_of_mem_exports (hx : x ∈ exports ctx n) : ExportedIn ctx n.tree x := by
  unfold exports at hx
  split at hx
  · exact Ecmascript.exportedIn_of_mem_exports hx
  · exact Python.exportedIn_of_mem_exports hx
  · cases hx

end Exports

/-! ### A whole tree -/

section Whole

variable {t : Tree} {e : Extraction}

/-- The references, imports and exports of a tree are those of the nodes of its walk. -/
theorem exists_of_mem_extract (h : extract ctx t = .ok e) :
    (∀ u ∈ e.references, ∃ n, Node.Of t n ∧ u ∈ references ctx n.tree) ∧
      (∀ i ∈ e.imports, ∃ n, Node.Of t n ∧ i ∈ imports ctx n) ∧
      ∀ x ∈ e.exports, ∃ n, Node.Of t n ∧ x ∈ exports ctx n := by
  obtain ⟨declared, -, h⟩ := Attempt.exists_of_bind_eq_ok h
  cases h
  refine ⟨fun u hu => ?_, fun i hi => ?_, fun x hx => ?_⟩
  · obtain ⟨n, hn, hu⟩ := List.mem_flatMap.mp hu
    exact ⟨n, Node.of_mem_walk hn, hu⟩
  · obtain ⟨n, hn, hi⟩ := List.mem_flatMap.mp hi
    exact ⟨n, Node.of_mem_walk hn, hi⟩
  · obtain ⟨n, hn, hx⟩ := List.mem_flatMap.mp hx
    exact ⟨n, Node.of_mem_walk hn, hx⟩

/-- **Every reference** is to a name that stands in the tree. -/
theorem referredIn_of_mem_extract (h : extract ctx t = .ok e) {u : Reference}
    (hu : u ∈ e.references) : ReferredIn ctx t u := by
  obtain ⟨n, hn, hu⟩ := (exists_of_mem_extract h).1 u hu
  obtain ⟨name, hname, hkind⟩ := referredIn_of_mem_references hu
  exact ⟨name, Tree.mem_preorder_trans hn.tree_mem_preorder hname, hkind⟩

/-- **Every call** is that of a node of the tree. -/
theorem calledIn_of_mem_extract (h : extract ctx t = .ok e) {u : Reference}
    (hu : u ∈ e.references) (hkind : u.kind = .call) : CalledIn ctx t u := by
  obtain ⟨n, hn, hu⟩ := (exists_of_mem_extract h).1 u hu
  obtain ⟨name, hname, hcalled⟩ := calledIn_of_mem_references hu hkind
  exact ⟨name, Tree.mem_preorder_trans hn.tree_mem_preorder hname, hcalled⟩

/-- **Every import** stands at a node of the tree. -/
theorem importedIn_of_mem_extract (h : extract ctx t = .ok e) {i : Import}
    (hi : i ∈ e.imports) : ImportedIn ctx t i := by
  obtain ⟨n, hn, hi⟩ := (exists_of_mem_extract h).2.1 i hi
  obtain ⟨u, hu, hmade⟩ := importedIn_of_mem_imports hi
  exact ⟨u, Tree.mem_preorder_trans hn.tree_mem_preorder hu, hmade⟩

/-- **Every export** stands at a node of the tree. -/
theorem exportedIn_of_mem_extract (h : extract ctx t = .ok e) {x : Export}
    (hx : x ∈ e.exports) : ExportedIn ctx t x := by
  obtain ⟨n, hn, hx⟩ := (exists_of_mem_extract h).2.2 x hx
  obtain ⟨u, hu, hmade⟩ := exportedIn_of_mem_exports hx
  exact ⟨u, Tree.mem_preorder_trans hn.tree_mem_preorder hu, hmade⟩

end Whole

end Concordance.Extract
