import Concordance.Proofs.Extract.Member
import Concordance.Proofs.Extract.Recorded

/-!
# Two passes over what types build on

The pass over declarations records in the symbol of a type what the type builds on, the pass over
references makes a reference of it. The first sees an entry of a clause if the declaration is read by
this clause (`Extract.recorded`), the second if the clause is of a kind that has references
(`Extract.referred`).

They do not always see the same. An interface that extends others has a clause of its own, without
references in the ECMAScript and the JVM family. And where a clause lists several bases only the one
that leads it is recorded, though there are references to all. `Extract.heritage_compared` says for
every entry that either pass sees whether the other does.
-/

namespace Concordance.Extract

/-! ### What the references are to -/

/-- The types that a clause lists as bases. -/
def listedBases (family : Family) (c : Tree) : List Tree :=
  match family with
  | .ecmascript =>
    if c.kind == "class_heritage" then
      match c.childOf? ["extends_clause"] with
      | some clause => clause.namedChildren
      | none => (c.namedChildren.filter fun u => u.kind != "implements_clause").take 1
    else []
  | .python => if c.kind == "class_definition" then Python.bases c else []
  | .jvm | .ruby => if c.kind == "superclass" then c.namedChildren else []
  | .php => if c.kind == "base_clause" then c.namedChildren else []
  | _ => []

/-- The types that a clause lists as interfaces. -/
def listedInterfaces (family : Family) (c : Tree) : List Tree :=
  match family with
  | .ecmascript =>
    if c.kind == "class_heritage" then
      ((c.childOf? ["implements_clause"]).map Tree.namedChildren).getD []
    else []
  | .jvm =>
    if c.kind == "super_interfaces" then ((c.childOf? ["type_list"]).getD c).namedChildren else []
  | .php => if c.kind == "class_interface_clause" then c.namedChildren else []
  | .rust => if c.kind == "impl_item" then (c.field? "trait").toList else []
  | _ => []

/-- The entries of a clause to which there are references. -/
def referred (family : Family) (c : Tree) : List HeritageEntry :=
  entriesOf c .base (listedBases family c) ++ entriesOf c .implemented (listedInterfaces family c)

/-- The reference to an entry, if it comes down to a plain name. -/
def HeritageEntry.reference? (ctx : Context) (x : HeritageEntry) : Option Reference :=
  x.type.target?.map (reference ctx x.kind)

/-- The references of a clause are those to its types. -/
theorem filterMap_reference?_entriesOf (ctx : Context) (clause : Tree) (kind : ReferenceKind)
    (types : List Tree) :
    (entriesOf clause kind types).filterMap (HeritageEntry.reference? ctx) =
      typeReferences ctx kind types := by
  rw [entriesOf, List.filterMap_map, typeReferences, List.map_filterMap]
  rfl

variable {ctx : Context} {s : Symbol} {t d : Tree}

/-! ### References to what types build on -/

/-- Whether a reference is to a type that another builds on. -/
def isHeritage (r : Reference) : Bool := r.kind == .base || r.kind == .implemented

/-- The kinds of clauses that have references. -/
def clauseKinds : Family → List String
  | .ecmascript => ["class_heritage"]
  | .python => ["class_definition"]
  | .jvm => ["superclass", "super_interfaces"]
  | .php => ["base_clause", "class_interface_clause"]
  | .ruby => ["superclass"]
  | .rust => ["impl_item"]
  | _ => []

variable {family : Family} {c : Tree}

/-- Trees of other kinds list nothing. -/
theorem listed_eq_nil (h : (clauseKinds family).contains c.kind = false) :
    listedBases family c = [] ∧ listedInterfaces family c = [] := by
  cases family <;> simp_all [clauseKinds, listedBases, listedInterfaces]

/-- The references to what a node lists are those to its bases and to its interfaces. -/
theorem filterMap_referred (ctx : Context) (family : Family) (c : Tree) :
    (referred family c).filterMap (HeritageEntry.reference? ctx) =
      typeReferences ctx .base (listedBases family c) ++
        typeReferences ctx .implemented (listedInterfaces family c) := by
  rw [referred, List.filterMap_append, filterMap_reference?_entriesOf,
    filterMap_reference?_entriesOf]

/-- All references to types are of the kind that is asked for. -/
theorem filter_typeReferences (ctx : Context) (kind : ReferenceKind) (ts : List Tree) :
    (typeReferences ctx kind ts).filter isHeritage =
      if kind = .base ∨ kind = .implemented then typeReferences ctx kind ts else [] := by
  have hall : ∀ r ∈ typeReferences ctx kind ts,
      isHeritage r = (kind == .base || kind == .implemented) := by
    intro r hr
    obtain ⟨name, -, rfl⟩ := List.mem_map.mp hr
    rfl
  split
  · next hkind => exact List.filter_eq_self.mpr fun r hr => by rw [hall r hr]; simpa using hkind
  · next hkind => exact List.filter_eq_nil_iff.mpr fun r hr => by rw [hall r hr]; simpa using hkind

/-- The references of a clause are to all that it lists. -/
theorem filter_listed (ctx : Context) (bases interfaces : List Tree) :
    (typeReferences ctx .base bases ++ typeReferences ctx .implemented interfaces).filter
        isHeritage =
      typeReferences ctx .base bases ++ typeReferences ctx .implemented interfaces := by
  rw [List.filter_append, filter_typeReferences, filter_typeReferences]
  rfl

/-- References of other sorts are left out. -/
theorem filter_eq_nil_of_kind (kind : ReferenceKind) (hkind : kind ≠ .base ∧ kind ≠ .implemented)
    {rs : List Reference} (h : ∀ r ∈ rs, r.kind = kind) : rs.filter isHeritage = [] := by
  refine List.filter_eq_nil_iff.mpr fun r hr => ?_
  rw [isHeritage, h r hr]
  simpa using hkind

/-- In ECMAScript, among the references of a node those of heritage are to its bases and interfaces.
-/
theorem Ecmascript.filter_otherReferences (ctx : Context) (c : Tree) :
    (otherReferences ctx c).filter isHeritage =
      typeReferences ctx .base (listedBases .ecmascript c) ++
        typeReferences ctx .implemented (listedInterfaces .ecmascript c) := by
  unfold otherReferences
  split
  · next hkind =>
    rw [listedBases, listedInterfaces, if_pos hkind, if_pos hkind]
    exact filter_listed ctx _ _
  · next hkind =>
    -- what is left are decorators and components, which are no heritage
    rw [listedBases, listedInterfaces, if_neg hkind, if_neg hkind]
    split
    · exact filter_typeReferences ctx .decorator _
    · split
      · refine filter_eq_nil_of_kind .component (by decide) fun r hr => ?_
        unfold componentReference at hr
        split at hr
        · cases hr
        · split at hr
          · cases List.mem_singleton.mp hr
            rfl
          · cases hr
      · rfl

/-- So it is in Python. -/
theorem Python.filter_otherReferences (ctx : Context) (c : Tree) :
    (otherReferences ctx c).filter isHeritage =
      typeReferences ctx .base (listedBases .python c) ++
        typeReferences ctx .implemented (listedInterfaces .python c) := by
  unfold otherReferences
  split
  · next hkind =>
    have hdecorator : c.kind = "decorator" := eq_of_beq hkind
    rw [listedBases, hdecorator]
    exact filter_typeReferences ctx .decorator _
  · split
    · next hkind =>
      rw [listedBases, if_pos hkind, bases]
      cases c.field? "superclasses" with
      | none => rfl
      | some list =>
          refine (filter_typeReferences ctx .base _).trans ?_
          exact (List.append_nil _).symm
    · next hkind =>
      rw [listedBases, if_neg hkind]
      rfl

/-- On the JVM a node refers to nothing else but what it calls. -/
theorem Jvm.otherReferences_eq (ctx : Context) (c : Tree) :
    otherReferences ctx c = typeReferences ctx .base (listedBases .jvm c) ++
      typeReferences ctx .implemented (listedInterfaces .jvm c) := by
  unfold otherReferences listedBases listedInterfaces
  split
  · next hkind =>
    have hclause : c.kind = "superclass" := eq_of_beq hkind
    rw [hclause]
    exact (List.append_nil _).symm
  · split <;> rfl

/-- So it is in PHP. -/
theorem Php.otherReferences_eq (ctx : Context) (c : Tree) :
    otherReferences ctx c = typeReferences ctx .base (listedBases .php c) ++
      typeReferences ctx .implemented (listedInterfaces .php c) := by
  unfold otherReferences listedBases listedInterfaces
  split
  · next hkind =>
    have hclause : c.kind = "base_clause" := eq_of_beq hkind
    rw [hclause]
    exact (List.append_nil _).symm
  · split <;> rfl

/-- So it is in Ruby. -/
theorem Ruby.otherReferences_eq (ctx : Context) (c : Tree) :
    otherReferences ctx c = typeReferences ctx .base (listedBases .ruby c) ++
      typeReferences ctx .implemented (listedInterfaces .ruby c) := by
  unfold otherReferences listedBases
  split
  · exact (List.append_nil _).symm
  · rfl

/-- So it is in Rust. -/
theorem Rust.otherReferences_eq (ctx : Context) (c : Tree) :
    otherReferences ctx c = typeReferences ctx .base (listedBases .rust c) ++
      typeReferences ctx .implemented (listedInterfaces .rust c) := by
  unfold otherReferences listedInterfaces
  split <;> rfl

/-- **The references of heritage** of a node, in every family, are to the bases and interfaces that
it lists. -/
theorem filter_otherReferences (ctx : Context) (c : Tree) :
    (otherReferences ctx c).filter isHeritage =
      typeReferences ctx .base (listedBases ctx.family c) ++
        typeReferences ctx .implemented (listedInterfaces ctx.family c) := by
  unfold otherReferences
  cases hctx : ctx.family with
  | ecmascript => exact Ecmascript.filter_otherReferences ctx c
  | python => exact Python.filter_otherReferences ctx c
  | jvm => exact (congrArg _ (Jvm.otherReferences_eq ctx c)).trans (filter_listed ctx _ _)
  | php => exact (congrArg _ (Php.otherReferences_eq ctx c)).trans (filter_listed ctx _ _)
  | ruby => exact (congrArg _ (Ruby.otherReferences_eq ctx c)).trans (filter_listed ctx _ _)
  | rust => exact (congrArg _ (Rust.otherReferences_eq ctx c)).trans (filter_listed ctx _ _)
  | go | csharp | c | generic => rfl

/-- Calls and instantiations are no clauses. -/
theorem listed_eq_nil_of_lookup {table : List (String × List String)} {fields : List String}
    (htable : ∀ kind ∈ table.map Prod.fst, kind ∉ clauseKinds family)
    (h : table.lookup c.kind = some fields) :
    listedBases family c = [] ∧ listedInterfaces family c = [] := by
  have hkind : (table.map Prod.fst).contains c.kind = true := by
    rw [contains_map_fst_eq, h]
    rfl
  exact listed_eq_nil (contains_eq_false_of_contains hkind htable)

/-- **The references of a tree** to types that others build on are those to the entries that it
lists. -/
theorem filter_references (ctx : Context) (c : Tree) :
    (references ctx c).filter isHeritage =
      (referred ctx.family c).filterMap (HeritageEntry.reference? ctx) := by
  rw [filterMap_referred]
  unfold references
  split
  -- a tree of a kind that makes calls or instances is no clause, so neither side has anything
  · next fields hlookup =>
    have hcalls : ∀ kind ∈ (callFields ctx.family).map Prod.fst, kind ∉ clauseKinds ctx.family := by
      cases ctx.family <;> decide
    obtain ⟨hbases, hinterfaces⟩ := listed_eq_nil_of_lookup hcalls hlookup
    rw [hbases, hinterfaces]
    refine filter_eq_nil_of_kind .call (by decide) fun r hr => ?_
    unfold callReference at hr
    split at hr
    · cases hr
    · split at hr
      · cases hr
      · cases List.mem_singleton.mp hr
        rfl
  · next fields hlookup =>
    have hmakes : ∀ kind ∈ (instantiationFields ctx.family).map Prod.fst,
        kind ∉ clauseKinds ctx.family := by
      cases ctx.family <;> decide
    obtain ⟨hbases, hinterfaces⟩ := listed_eq_nil_of_lookup hmakes hlookup
    rw [hbases, hinterfaces]
    exact filter_typeReferences ctx .instantiated _
  · exact filter_otherReferences ctx c

/-- All references of a tree to types that others build on, in the order of the source. -/
theorem filter_references_of_extract {e : Extraction} (h : extract ctx t = .ok e) :
    e.references.filter isHeritage =
      (t.preorder.flatMap (referred ctx.family)).filterMap (HeritageEntry.reference? ctx) := by
  unfold extract at h
  obtain ⟨symbols, -, h⟩ := Attempt.exists_of_bind_eq_ok h
  cases h
  rw [List.filterMap_flatMap, ← Node.map_tree_walk, List.flatMap_map, List.filter_flatMap]
  exact congrArg (List.flatMap · _) (funext fun n => filter_references ctx n.tree)

/-! ### The passes compared -/

/-- Whether the references come to an entry that a symbol records: its clause is of the right kind,
and in the ECMAScript family the entry is a named child of it. -/
def HeritageEntry.isReferred (family : Family) (x : HeritageEntry) : Bool :=
  match family with
  | .ecmascript => x.clause.kind == "class_heritage" && x.type.info.named
  | .jvm => x.clause.kind == if x.kind = .base then "superclass" else "super_interfaces"
  | .ruby => x.clause.kind == "superclass"
  | _ => true

/-- An entry is read by a declaration: from the clause that the declaration is read by, and a base
only if it leads the clause, except in Python. -/
structure HeritageEntry.IsRead (family : Family) (d : Tree) (x : HeritageEntry) : Prop where
  heir : (heirKinds family).contains d.kind = true
  base : x.kind = .base → baseClause? family d = some x.clause ∧
    (family = .python ∨ leading? family x.clause = some x.type)
  interface : x.kind = .implemented → interfaceClause? family d = some x.clause

variable {x : HeritageEntry}

/-- What a node refers to is what it lists as bases and as interfaces. -/
theorem mem_referred_iff : x ∈ referred family c ↔ x.clause = c ∧
    (x.kind = .base ∧ x.type ∈ listedBases family c ∨
      x.kind = .implemented ∧ x.type ∈ listedInterfaces family c) := by
  rw [referred, List.mem_append, mem_entriesOf_iff, mem_entriesOf_iff]
  constructor
  · rintro (⟨hclause, h⟩ | ⟨hclause, h⟩)
    · exact ⟨hclause, .inl h⟩
    · exact ⟨hclause, .inr h⟩
  · rintro ⟨hclause, h | h⟩
    · exact .inl ⟨hclause, h⟩
    · exact .inr ⟨hclause, h⟩

/-- The entries of a clause that may be missing. -/
theorem mem_clause_iff {clause? : Option Tree} {kind : ReferenceKind} {types : Tree → List Tree} :
    x ∈ (clause?.map fun c => entriesOf c kind (types c)).getD [] ↔
      clause? = some x.clause ∧ x.kind = kind ∧ x.type ∈ types x.clause := by
  cases clause? with
  | none => simp
  | some c =>
      rw [Option.map_some, Option.getD_some, mem_entriesOf_iff, Option.some_inj]
      constructor
      · rintro ⟨rfl, h⟩
        exact ⟨rfl, h⟩
      · rintro ⟨rfl, h⟩
        exact ⟨rfl, h⟩

/-- What is recorded of a type: the bases and the interfaces that are taken from its clauses. -/
theorem mem_recorded_iff : x ∈ recorded family d ↔ (heirKinds family).contains d.kind = true ∧
    (x.kind = .base ∧ baseClause? family d = some x.clause ∧ x.type ∈ takenBases family x.clause ∨
      x.kind = .implemented ∧ interfaceClause? family d = some x.clause ∧
        x.type ∈ takenInterfaces family x.clause) := by
  unfold recorded
  split
  · next hkind =>
    rw [List.mem_append, mem_clause_iff, mem_clause_iff]
    simp only [hkind, true_and]
    exact or_congr and_left_comm and_left_comm
  · next hkind => exact iff_of_false List.not_mem_nil fun h => hkind h.1

/-- A type that comes down to a plain name is no comment. -/
theorem isComment_of_target? {name : Tree} (h : t.target? = some name) : t.isComment = false := by
  have hplain : ∀ kind ∈ Tree.identifierKinds ++ Tree.genericKinds ++ Tree.qualifiedKinds,
      Text.contains "comment" kind = false := by decide +kernel
  suffices hkind : t.kind ∈ Tree.identifierKinds ++ Tree.genericKinds ++ Tree.qualifiedKinds from
    hplain t.kind hkind
  rw [Tree.target?] at h
  split at h
  · next hidentifier =>
    have hmem : t.kind ∈ Tree.identifierKinds := List.contains_iff_mem.mp hidentifier
    simp [hmem]
  · split at h
    · cases h
    · next carrier hcarrier =>
      unfold Tree.nameCarrier? at hcarrier
      split at hcarrier
      · cases hcarrier
      · split at hcarrier
        · next hgeneric =>
          have hmem : t.kind ∈ Tree.genericKinds := List.contains_iff_mem.mp hgeneric
          simp [hmem]
        · split at hcarrier
          · next hqualified =>
            have hmem : t.kind ∈ Tree.qualifiedKinds := List.contains_iff_mem.mp hqualified
            simp [hmem]
          · cases hcarrier

theorem mem_uncommented_iff {ts : List Tree} {b : Tree} :
    b ∈ uncommented ts ↔ b ∈ ts ∧ b.isComment = false := by
  simp [uncommented]

section Listed

variable {b : Tree}

/-- The entry that leads a heritage is listed if it is a named child of its clause. -/
theorem Ecmascript.mem_listedBases_iff (hkind : (c.kind == "class_heritage") = true)
    (h : leading? .ecmascript c = some b) :
    b ∈ listedBases .ecmascript c ↔ b.info.named = true := by
  rw [listedBases, if_pos hkind]
  unfold leading? firstHeritage? at h
  cases hclause : c.childOf? ["extends_clause"] with
  | none =>
      rw [hclause] at h
      have hmem : b ∈ c.namedChildren.filter fun u => u.kind != "implements_clause" :=
        List.mem_of_head? h
      have hnamed : b.info.named = true := (List.mem_filter.mp (List.mem_filter.mp hmem).1).2
      refine iff_of_true ?_ hnamed
      obtain ⟨rest, hrest⟩ := List.head?_eq_some_iff.mp h
      simp [hrest]
  | some clause =>
      rw [hclause] at h
      have hchild : b ∈ clause.children := by
        simp only [Option.orElse_eq_orElse, Option.orElse_eq_or, Option.or_eq_some_iff] at h
        rcases h with hvalue | ⟨-, hfirst⟩
        · exact Tree.mem_of_field? hvalue
        · exact Tree.mem_of_mem_namedChildren (List.mem_of_head? hfirst)
      constructor
      · intro hmem
        exact (List.mem_filter.mp hmem).2
      · intro hnamed
        exact List.mem_filter.mpr ⟨hchild, hnamed⟩

/-- **Which recorded bases are listed** for references. -/
theorem mem_listedBases_iff (hheir : (heirKinds family).contains d.kind = true)
    (hclause : baseClause? family d = some c) (hb : b ∈ takenBases family c) :
    b ∈ listedBases family c ↔ HeritageEntry.isReferred family ⟨c, .base, b⟩ = true := by
  cases family with
  | ecmascript =>
      unfold takenBases at hb
      unfold HeritageEntry.isReferred
      dsimp only at hb ⊢
      split at hb
      · next hkind =>
        rw [hkind, Bool.true_and]
        exact Ecmascript.mem_listedBases_iff hkind (Option.mem_toList.mp hb)
      · next hkind =>
        -- the clause of an interface, which lists nothing for references
        rw [listedBases, if_neg hkind, Bool.eq_false_iff.mpr hkind]
        simp
  | python =>
      cases hclause
      have hkind : (d.kind == "class_definition") = true := by simpa [heirKinds] using hheir
      rw [listedBases, if_pos hkind]
      exact iff_of_true hb rfl
  | jvm =>
      have hmem : b ∈ c.namedChildren := List.mem_of_head? (Option.mem_toList.mp hb)
      unfold listedBases HeritageEntry.isReferred
      dsimp only
      rw [if_pos rfl]
      split
      · next hkind => exact iff_of_true hmem hkind
      · next hkind => exact iff_of_false List.not_mem_nil hkind
  | php =>
      have hkind : c.kind = "base_clause" := kind_of_childOf? hclause
      have hmem : b ∈ uncommented c.namedChildren := List.mem_of_head? (Option.mem_toList.mp hb)
      rw [listedBases, hkind]
      exact iff_of_true (mem_uncommented_iff.mp hmem).1 rfl
  | ruby =>
      have hmem : b ∈ c.namedChildren := List.mem_of_head? (Option.mem_toList.mp hb)
      unfold listedBases HeritageEntry.isReferred
      dsimp only
      split
      · next hkind => exact iff_of_true hmem hkind
      · next hkind => exact iff_of_false List.not_mem_nil hkind
  | rust | go | csharp | c | generic => cases hclause

/-- **Which recorded interfaces are listed** for references. -/
theorem mem_listedInterfaces_iff (hheir : (heirKinds family).contains d.kind = true)
    (hclause : interfaceClause? family d = some c) (hb : b ∈ takenInterfaces family c) :
    b ∈ listedInterfaces family c ↔
      HeritageEntry.isReferred family ⟨c, .implemented, b⟩ = true := by
  cases family with
  | ecmascript =>
      have hkind : c.kind = "class_heritage" := kind_of_childOf? hclause
      have hmem := (mem_uncommented_iff.mp hb).1
      have hnamed : b.info.named = true := by
        cases hlist : c.childOf? ["implements_clause"] with
        | none =>
            rw [hlist] at hmem
            cases hmem
        | some list =>
            rw [hlist] at hmem
            exact (List.mem_filter.mp hmem).2
      unfold listedInterfaces HeritageEntry.isReferred
      dsimp only
      rw [hkind, hnamed]
      exact iff_of_true hmem rfl
  | jvm =>
      have hmem := (mem_uncommented_iff.mp hb).1
      unfold listedInterfaces HeritageEntry.isReferred
      dsimp only
      rw [if_neg (by decide : ¬ ReferenceKind.implemented = .base)]
      split
      · next hkind => exact iff_of_true hmem hkind
      · -- the interfaces that an interface extends
        next hkind => exact iff_of_false List.not_mem_nil hkind
  | php =>
      have hkind : c.kind = "class_interface_clause" := kind_of_childOf? hclause
      rw [listedInterfaces, hkind]
      exact iff_of_true (mem_uncommented_iff.mp hb).1 rfl
  | rust =>
      cases hclause
      have hkind : (d.kind == "impl_item") = true := by simpa [heirKinds] using hheir
      rw [listedInterfaces, if_pos hkind]
      exact iff_of_true (mem_uncommented_iff.mp hb).1 rfl
  | python | ruby | go | csharp | c | generic => cases hclause

/-- Which of the bases that a clause lists are taken from it. -/
theorem mem_takenBases_iff (hb : b ∈ listedBases family c) :
    b ∈ takenBases family c ↔ family = .python ∨ leading? family c = some b := by
  cases family with
  | ecmascript =>
      unfold listedBases at hb
      dsimp only at hb
      split at hb
      · next hkind =>
        rw [takenBases, if_pos hkind, Option.mem_toList]
        simp
      · cases hb
  | python =>
      unfold listedBases at hb
      dsimp only at hb
      split at hb
      · exact iff_of_true hb (.inl rfl)
      · cases hb
  | _ => simp [takenBases]

/-- All interfaces that a clause lists are taken from it. -/
theorem mem_takenInterfaces (hb : b ∈ listedInterfaces family c) (hplain : b.isComment = false) :
    b ∈ takenInterfaces family c := by
  cases family with
  | ecmascript | jvm | php | rust =>
      unfold listedInterfaces at hb
      dsimp only at hb
      split at hb
      · exact mem_uncommented_iff.mpr ⟨hb, hplain⟩
      · cases hb
  | python | ruby | go | csharp | c | generic => cases hb

end Listed

/-- Whether there is a reference to an entry that a symbol records. -/
theorem mem_referred_clause_iff (hx : x ∈ recorded family d) :
    x ∈ referred family x.clause ↔ x.isReferred family = true := by
  obtain ⟨hheir, ⟨hkind, hclause, htype⟩ | ⟨hkind, hclause, htype⟩⟩ := mem_recorded_iff.mp hx
  · obtain ⟨clause, kind, type⟩ := x
    cases hkind
    rw [← mem_listedBases_iff hheir hclause htype, mem_referred_iff]
    simp
  · obtain ⟨clause, kind, type⟩ := x
    cases hkind
    rw [← mem_listedInterfaces_iff hheir hclause htype, mem_referred_iff]
    simp

/-- Whether an entry that has a reference is recorded by a declaration. -/
theorem mem_recorded_iff_isRead (hx : x ∈ referred family c) (hplain : x.type.isComment = false) :
    x ∈ recorded family d ↔ x.IsRead family d := by
  obtain ⟨rfl, ⟨hkind, htype⟩ | ⟨hkind, htype⟩⟩ := mem_referred_iff.mp hx
  · have hother : x.kind ≠ .implemented := by
      rw [hkind]
      decide
    rw [mem_recorded_iff, mem_takenBases_iff htype]
    constructor
    · rintro ⟨hheir, ⟨-, h⟩ | ⟨h, -⟩⟩
      · exact ⟨hheir, fun _ => h, fun h => absurd h hother⟩
      · exact absurd h hother
    · intro h
      exact ⟨h.heir, .inl ⟨hkind, h.base hkind⟩⟩
  · have hother : x.kind ≠ .base := by
      rw [hkind]
      decide
    rw [mem_recorded_iff]
    constructor
    · rintro ⟨hheir, ⟨h, -⟩ | ⟨-, h, -⟩⟩
      · exact absurd h hother
      · exact ⟨hheir, fun h => absurd h hother, fun _ => h⟩
    · intro h
      exact ⟨h.heir, .inr ⟨hkind, h.interface hkind, mem_takenInterfaces htype hplain⟩⟩

/-- The clause with the bases of a type stands in it. -/
theorem mem_preorder_of_baseClause? (h : baseClause? family d = some c) : c ∈ d.preorder := by
  have hkind {kind : String} (h : d.childOf? [kind] = some c) := Tree.childOf?_mem_preorder h
  cases family with
  | ecmascript =>
      simp only [baseClause?, Option.orElse_eq_orElse, Option.orElse_eq_or,
        Option.or_eq_some_iff] at h
      rcases h with h | ⟨-, h⟩
      · exact hkind h
      · exact hkind h
  | python =>
      cases h
      exact d.self_mem_preorder
  | jvm =>
      unfold baseClause? at h
      dsimp only at h
      split at h
      · cases h
      · exact Tree.field?_mem_preorder h
  | php => exact hkind h
  | ruby => exact Tree.field?_mem_preorder h
  | rust | go | csharp | c | generic => cases h

/-- So does the clause with its interfaces. -/
theorem mem_preorder_of_interfaceClause? (h : interfaceClause? family d = some c) :
    c ∈ d.preorder := by
  cases family with
  | ecmascript => exact Tree.childOf?_mem_preorder h
  | jvm =>
      simp only [interfaceClause?, Option.orElse_eq_orElse, Option.orElse_eq_or,
        Option.or_eq_some_iff] at h
      rcases h with h | ⟨-, h⟩
      · exact Tree.field?_mem_preorder h
      · exact Tree.childOf?_mem_preorder h
  | php => exact Tree.childOf?_mem_preorder h
  | rust =>
      cases h
      exact d.self_mem_preorder
  | python | ruby | go | csharp | c | generic => cases h

/-- The clauses from which a declaration is read stand below it. -/
theorem clause_mem_preorder (hx : x ∈ recorded family d) : x.clause ∈ d.preorder := by
  obtain ⟨-, ⟨-, hclause, -⟩ | ⟨-, hclause, -⟩⟩ := mem_recorded_iff.mp hx
  · exact mem_preorder_of_baseClause? hclause
  · exact mem_preorder_of_interfaceClause? hclause

/-- How a symbol of a declaration and the references compare. -/
structure Compared (ctx : Context) (e : Extraction) (d : Tree) (s : Symbol) : Prop where
  /-- The symbol builds on the types that its declaration records, in this order. -/
  records : builtOn s = (recorded ctx.family d).map (HeritageEntry.name ctx)
  /-- There is a reference to a recorded type with a plain name if its clause is of the right kind,
  and its clause has none to it otherwise. -/
  refers : ∀ x ∈ recorded ctx.family d, ∀ name, x.type.target? = some name →
    (x.isReferred ctx.family = true → reference ctx x.kind name ∈ e.references) ∧
      (x.isReferred ctx.family = false → x ∉ referred ctx.family x.clause)
  /-- A type that a clause refers to by a plain name is one on which the symbol builds if the
  declaration reads it, and is not recorded otherwise. -/
  reads : ∀ c, ∀ x ∈ referred ctx.family c, ∀ name, x.type.target? = some name →
    (x.IsRead ctx.family d → ctx.text name ∈ builtOn s) ∧
      (¬ x.IsRead ctx.family d → x ∉ recorded ctx.family d)

variable {e : Extraction}

/-- There is a reference to every entry with a plain name that a clause of the tree lists. -/
theorem reference_mem_of_mem_referred (h : extract ctx t = .ok e) (hc : c ∈ t.preorder)
    (hx : x ∈ referred ctx.family c) {name : Tree} (hname : x.type.target? = some name) :
    reference ctx x.kind name ∈ e.references := by
  have hentry : x.reference? ctx = some (reference ctx x.kind name) := by
    rw [HeritageEntry.reference?, hname]
    rfl
  have hmem : reference ctx x.kind name ∈ e.references.filter isHeritage := by
    rw [filter_references_of_extract h]
    exact List.mem_filterMap.mpr ⟨x, List.mem_flatMap.mpr ⟨c, hc, hx⟩, hentry⟩
  exact (List.mem_filter.mp hmem).1

/-- A symbol that records its heritage compares with the references. -/
theorem Records.compared (hs : Records ctx ctx.family d s) (h : extract ctx t = .ok e)
    (hd : d ∈ t.preorder) : Compared ctx e d s where
  records := hs
  refers x hx name hname := by
    refine ⟨fun hreferred => ?_, fun hoverlooked hmem => ?_⟩
    · exact reference_mem_of_mem_referred h (Tree.mem_preorder_trans hd (clause_mem_preorder hx))
        ((mem_referred_clause_iff hx).mpr hreferred) hname
    · rw [mem_referred_clause_iff hx, hoverlooked] at hmem
      cases hmem
  reads c x hx name hname := by
    have hrecorded : x ∈ recorded ctx.family d ↔ x.IsRead ctx.family d :=
      mem_recorded_iff_isRead hx (isComment_of_target? hname)
    refine ⟨fun hread => ?_, fun hunread => mt hrecorded.mp hunread⟩
    have htext : x.name ctx = ctx.text name := by
      rw [HeritageEntry.name, typeText, hname]
      rfl
    rw [hs, ← htext]
    exact List.mem_map_of_mem (hrecorded.mpr hread)

/-- **What both passes see of what a type builds on.** The references to such types are those to the
entries of the clauses of the tree that have references, in the order of the source. Every symbol
builds on the entries that its declaration records. A recorded type with a plain name is referred to
unless its clause is overlooked; and a type that is referred to by a plain name is recorded if and
only if the declaration reads it, which for a base is only the one that leads its clause. -/
theorem heritage_compared (hfamily : ctx.family.refersToBases = true)
    (h : extract ctx t = .ok e) :
    e.references.filter isHeritage =
        (t.preorder.flatMap (referred ctx.family)).filterMap (HeritageEntry.reference? ctx) ∧
      ∃ declared, declaredBy ctx t = .ok declared ∧ declared.map Prod.snd = e.symbols ∧
        ∀ d ∈ declared, Compared ctx e d.1.tree d.2 := by
  obtain ⟨declared, hdeclared, hby, hsymbols⟩ := exists_declaredBy h
  refine ⟨filter_references_of_extract h, _, hby, ?_, fun d hd => ?_⟩
  · rw [hsymbols, map_snd_linked]
  · obtain ⟨⟨n, s⟩, hs, rfl⟩ := List.mem_map.mp hd
    obtain ⟨before, after, hsplit⟩ := List.append_of_mem hs
    obtain ⟨first, rest, symbols, hwalk, hnode, hmem, -⟩ := exists_split_of_mapM hdeclared hsplit
    have hn : Node.Of t n := Node.of_mem_walk (hwalk ▸ by simp)
    -- linking the members does not touch what a symbol builds on
    have hlinked : builtOn (s.withMembers (declared.flatten.map Prod.snd)) = builtOn s := by
      obtain ⟨members, heq⟩ := Symbol.exists_withMembers_eq (declared.flatten.map Prod.snd) s
      rw [heq]
      rfl
    have hrecords : Records ctx ctx.family n.tree s :=
      records_of_mem_declarations hfamily hnode hmem
    exact Records.compared (hlinked.trans hrecords) h hn.tree_mem_preorder

section Overlooked

/-- The source of a class and of an interface with bases. -/
def heirSource : Bytes := Utf8.bytes "class A extends B implements C {}\ninterface D extends E {}\n"

/-- The tree of the class and the interface. -/
def heirTree : Tree :=
  spanned "program" 0 59 none
    [spanned "class_declaration" 0 33 none
      [spanned "type_identifier" 6 7 (some "name") [],
       spanned "class_heritage" 8 30 none
        [spanned "extends_clause" 8 17 none [spanned "identifier" 16 17 (some "value") []],
         spanned "implements_clause" 18 30 none [spanned "type_identifier" 29 30 none []]],
       spanned "class_body" 31 33 (some "body") []],
     spanned "interface_declaration" 34 58 none
      [spanned "type_identifier" 44 45 (some "name") [],
       spanned "extends_type_clause" 46 55 none [spanned "type_identifier" 54 55 (some "type") []],
       spanned "interface_body" 56 58 (some "body") []]]

/-- What is known of the class and the interface. -/
def heirContext : Context where
  source := heirSource
  file := "a.ts"
  language := "typescript"
  family := .ecmascript

/-- What is read off the class and the interface. -/
def heirExtraction : Extraction := (extract heirContext heirTree).toOption.getD {}

/-- There are references to the base and the interface of the class. The interface records its base
as well, but there is no reference to that. -/
theorem heritage_compared_overlooked :
    heirContext.family.refersToBases = true ∧
      extract heirContext heirTree = .ok heirExtraction ∧
        (heirExtraction.references.filter isHeritage).map Reference.name = ["B", "C"] ∧
          ∃ declared, declaredBy heirContext heirTree = .ok declared ∧
            (∀ d ∈ declared, Compared heirContext heirExtraction d.1.tree d.2) ∧
              (declared.map fun d => (d.2.name, builtOn d.2,
                  (recorded .ecmascript d.1.tree).map (HeritageEntry.isReferred .ecmascript))) =
                [("A", ["B", "C"], [true, true]), ("D", ["E"], [false])] := by
  have hextract : extract heirContext heirTree = .ok heirExtraction := by decide +kernel
  obtain ⟨-, declared, hby, -, hcompared⟩ := heritage_compared rfl hextract
  have hfacts : (declaredBy heirContext heirTree).toOption.map (List.map fun d =>
      (d.2.name, builtOn d.2,
        (recorded .ecmascript d.1.tree).map (HeritageEntry.isReferred .ecmascript))) =
      some [("A", ["B", "C"], [true, true]), ("D", ["E"], [false])] := by
    decide +kernel
  rw [hby] at hfacts
  exact ⟨rfl, hextract, by decide +kernel, declared, hby, hcompared, Option.some.inj hfacts⟩

end Overlooked

end Concordance.Extract
