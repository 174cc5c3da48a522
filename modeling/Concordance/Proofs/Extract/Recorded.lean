import Concordance.Proofs.Extract.Base

/-!
# What a type records of its heritage

A declaration of a type names the types that it builds on in clauses. Each family reads them in its
own way: which clause names the base and which the interfaces, and how much of a clause is taken.
Here this is said once for all families (`Extract.recorded`), and every symbol is shown to build on
what its declaration records (`Extract.records_of_mem_declarations`).
-/

namespace Concordance

/-- The families in which both passes see what a type builds on. -/
def Family.refersToBases : Family → Bool
  | .ecmascript | .python | .jvm | .php | .ruby | .rust => true
  | .go | .csharp | .c | .generic => false

namespace Extract

/-- A type that a clause lists, as a base or as an interface. -/
structure HeritageEntry where
  clause : Tree
  kind : ReferenceKind
  type : Tree

/-- The name under which a symbol records a type. -/
def typeText (ctx : Context) (t : Tree) : String := ctx.text (t.target?.getD t)

/-- The name under which a symbol records an entry. -/
def HeritageEntry.name (ctx : Context) (x : HeritageEntry) : String := typeText ctx x.type

/-- The entries for the types that a clause lists. -/
def entriesOf (clause : Tree) (kind : ReferenceKind) (types : List Tree) : List HeritageEntry :=
  types.map (⟨clause, kind, ·⟩)

/-- The entries of a clause are its types. -/
theorem mem_entriesOf_iff {clause : Tree} {kind : ReferenceKind} {types : List Tree}
    {x : HeritageEntry} :
    x ∈ entriesOf clause kind types ↔ x.clause = clause ∧ x.kind = kind ∧ x.type ∈ types := by
  rw [entriesOf, List.mem_map]
  constructor
  · rintro ⟨type, htype, rfl⟩
    exact ⟨rfl, rfl, htype⟩
  · rintro ⟨rfl, rfl, htype⟩
    exact ⟨x.type, htype, rfl⟩

/-- Their names are the texts of the types. -/
theorem map_name_entriesOf (ctx : Context) (clause : Tree) (kind : ReferenceKind)
    (types : List Tree) :
    (entriesOf clause kind types).map (HeritageEntry.name ctx) = types.map (typeText ctx) := by
  rw [entriesOf, List.map_map]
  rfl

/-- The names of the entries of a clause that may be missing. -/
theorem map_name_clause (ctx : Context) (clause? : Option Tree) (kind : ReferenceKind)
    (types : Tree → List Tree) :
    ((clause?.map fun c => entriesOf c kind (types c)).getD []).map (HeritageEntry.name ctx) =
      ((clause?.map types).getD []).map (typeText ctx) := by
  cases clause? with
  | none => rfl
  | some c => exact map_name_entriesOf ctx c kind (types c)

/-- Some types without the comments between them. -/
def uncommented (ts : List Tree) : List Tree := ts.filter fun t => !t.isComment

/-! ### What a symbol records -/

/-- The kinds of declarations that build on others. -/
def heirKinds : Family → List String
  | .ecmascript => Ecmascript.classKinds ++ ["interface_declaration"]
  | .python => ["class_definition"]
  | .jvm => Jvm.typeKinds.map Prod.fst
  | .php => Php.typeKinds.map Prod.fst
  | .ruby => ["class", "module"]
  | .rust => ["impl_item"]
  | _ => []

/-- The entry that leads a clause. -/
def leading? (family : Family) (c : Tree) : Option Tree :=
  match family with
  | .ecmascript => Ecmascript.firstHeritage? c
  | .php => (uncommented c.namedChildren).head?
  | _ => c.namedChildren.head?

/-- The clause from which the interfaces of a declaration are read. -/
def interfaceClause? (family : Family) (d : Tree) : Option Tree :=
  match family with
  | .ecmascript => d.childOf? ["class_heritage"]
  | .jvm => d.field? "interfaces" <|> d.childOf? ["extends_interfaces"]
  | .php => d.childOf? ["class_interface_clause"]
  | .rust => some d
  | _ => none

/-- The interfaces that are read from a clause. -/
def takenInterfaces (family : Family) (c : Tree) : List Tree :=
  match family with
  | .ecmascript => uncommented (((c.childOf? ["implements_clause"]).map Tree.namedChildren).getD [])
  | .jvm => uncommented ((c.childOf? ["type_list"]).getD c).namedChildren
  | .php => uncommented c.namedChildren
  | .rust => uncommented (c.field? "trait").toList
  | _ => []

/-- The clause from which the base of a declaration is read. The base of an interface of the JVM
family is the first of its interfaces, if it has any. -/
def baseClause? (family : Family) (d : Tree) : Option Tree :=
  match family with
  | .ecmascript => d.childOf? ["class_heritage"] <|> d.childOf? ["extends_type_clause"]
  | .python => some d
  | .jvm =>
    if d.kind == "interface_declaration" &&
        !(((interfaceClause? .jvm d).map (takenInterfaces .jvm)).getD []).isEmpty then none
    else d.field? "superclass"
  | .php => d.childOf? ["base_clause"]
  | .ruby => d.field? "superclass"
  | _ => none

/-- The bases that are read from a clause: the one that leads it, but all that a class of Python or
an interface of the ECMAScript family lists. -/
def takenBases (family : Family) (c : Tree) : List Tree :=
  match family with
  | .python => Python.bases c
  | .ecmascript =>
    if c.kind == "class_heritage" then (leading? .ecmascript c).toList
    else uncommented c.namedChildren
  | family => (leading? family c).toList

/-- The entries that the symbol of a declaration records, in this order. -/
def recorded (family : Family) (d : Tree) : List HeritageEntry :=
  if (heirKinds family).contains d.kind then
    ((baseClause? family d).map fun c => entriesOf c .base (takenBases family c)).getD [] ++
      ((interfaceClause? family d).map fun c =>
        entriesOf c .implemented (takenInterfaces family c)).getD []
  else []

variable {ctx : Context} {n : Node} {s : Symbol} {t d : Tree}

/-- Only types have a heritage. -/
theorem recorded_eq_nil {family : Family} (h : (heirKinds family).contains d.kind = false) :
    recorded family d = [] := by
  rw [recorded, h]
  rfl

theorem kind_of_childOf? {kind : String} {c : Tree} (h : t.childOf? [kind] = some c) :
    c.kind = kind := by
  have hkind := List.find?_some h
  simpa using hkind

/-! ### Names of types -/

/-- A type that is named is named by its text. -/
theorem eq_of_typeName {name : String} (h : typeName ctx t = .ok name) : name = typeText ctx t := by
  unfold typeName typeNames at h
  cases hcomment : t.isComment with
  | true => simp [hcomment] at h
  | false =>
      simp [hcomment] at h
      exact h.symm

/-- The name of the first of some types. -/
theorem toList_of_firstTypeName {ts : List Tree} {base : Option String}
    (h : firstTypeName ctx ts = .ok base) : base.toList = ts.head?.toList.map (typeText ctx) := by
  cases ts with
  | nil =>
      cases h
      rfl
  | cons t ts =>
      cases hname : typeName ctx t with
      | error f =>
          rw [firstTypeName, hname] at h
          cases h
      | ok name =>
          rw [firstTypeName, hname] at h
          cases h
          rw [eq_of_typeName hname]
          rfl

/-- A list of bases is taken apart into the first and the others, and nothing is lost. -/
theorem toList_ofNames (names : List String) :
    (Heritage.ofNames names).base.toList ++ (Heritage.ofNames names).interfaces = names := by
  cases names with
  | nil => rfl
  | cons name rest => rfl

/-! ### What each family records -/

/-- A kind is among those of a table if it is found there. -/
theorem contains_map_fst_eq {α : Type} (table : List (String × α)) (kind : String) :
    (table.map Prod.fst).contains kind = (table.lookup kind).isSome := by
  induction table with
  | nil => rfl
  | cons entry table ih =>
      rw [List.map_cons, List.contains_cons, List.lookup_cons]
      cases kind == entry.1 with
      | true => rfl
      | false => exact ih

/-- The types on which a symbol builds. -/
def builtOn (s : Symbol) : List String := s.base.toList ++ s.interfaces

/-- A symbol builds on what its declaration records. -/
def Records (ctx : Context) (family : Family) (d : Tree) (s : Symbol) : Prop :=
  builtOn s = (recorded family d).map (HeritageEntry.name ctx)

/-- A symbol that builds on nothing, of a declaration of another kind. -/
theorem records_nothing {family : Family} (hkind : (heirKinds family).contains d.kind = false)
    (hs : builtOn s = []) : Records ctx family d s := by
  rw [Records, recorded_eq_nil hkind, hs]
  rfl

namespace Ecmascript

/-- The base class is the leading entry of the heritage. -/
theorem toList_of_baseClass {base : Option String} (h : baseClass ctx t = .ok base) :
    base.toList = (leading? .ecmascript t).toList.map (typeText ctx) := by
  unfold baseClass at h
  unfold leading? firstHeritage?
  cases hclause : t.childOf? ["extends_clause"] with
  | none =>
      rw [hclause] at h
      exact toList_of_firstTypeName h
  | some clause =>
      rw [hclause] at h
      dsimp only at h ⊢
      cases hvalue : clause.field? "value" with
      | none =>
          rw [hvalue] at h
          exact toList_of_firstTypeName h
      | some value =>
          rw [hvalue] at h
          have hfirst : firstTypeName ctx [value] = .ok base := h
          exact toList_of_firstTypeName hfirst

/-- The heritage of a class is what is recorded for it. -/
theorem toList_of_heritage (hkind : (heirKinds .ecmascript).contains t.kind = true)
    {h : Heritage} (hh : heritage ctx t = .ok h) :
    h.base.toList ++ h.interfaces =
      (recorded .ecmascript t).map (HeritageEntry.name ctx) := by
  unfold heritage at hh
  rw [recorded, if_pos hkind, baseClause?, interfaceClause?]
  cases hclass : t.childOf? ["class_heritage"] with
  | none =>
      rw [hclass] at hh
      dsimp only at hh
      cases hclause : t.childOf? ["extends_type_clause"] with
      | none =>
          rw [hclause] at hh
          cases hh
          rfl
      | some clause =>
          rw [hclause] at hh
          cases hh
          have htaken : takenBases .ecmascript clause = uncommented clause.namedChildren := by
            rw [takenBases, kind_of_childOf? hclause]
            rfl
          simp only [Option.orElse_eq_orElse, Option.orElse_none, Option.map_some, Option.getD_some,
            Option.map_none, Option.getD_none, List.append_nil, map_name_entriesOf, htaken]
          exact toList_ofNames _
  | some clause =>
      -- a heritage of a class comes first, even if there is a clause of an interface as well
      rw [hclass] at hh
      obtain ⟨base, hbase, hh⟩ := Attempt.exists_of_bind_eq_ok hh
      cases hh
      have htaken : takenBases .ecmascript clause = (leading? .ecmascript clause).toList := by
        rw [takenBases, kind_of_childOf? hclass]
        rfl
      simp only [Option.orElse_eq_orElse, Option.orElse_some, Option.map_some, Option.getD_some,
        List.map_append, map_name_entriesOf, htaken, toList_of_baseClass hbase]
      congr 1
      unfold takenInterfaces
      cases clause.childOf? ["implements_clause"] with
      | none => rfl
      | some list => rfl

/-- A class or an interface records what it builds on, and other types build on nothing. -/
theorem records_of_typeSymbol {name : Tree} {kind : SymbolKind}
    (hkind : typeKind? n.tree.kind = some kind) (h : typeSymbol ctx n name kind = .ok s) :
    Records ctx .ecmascript n.tree s := by
  have hasks := asksForBase_iff n.tree.kind
  rw [hkind, Option.some_inj, Option.some_inj] at hasks
  unfold typeSymbol at h
  by_cases hk : kind = .classType ∨ kind = .interface
  · rw [if_pos hk] at h
    obtain ⟨heritage, hheritage, h⟩ := Attempt.exists_of_bind_eq_ok h
    cases h
    exact toList_of_heritage (hasks.mpr hk) hheritage
  · rw [if_neg hk] at h
    cases h
    exact records_nothing (Bool.eq_false_iff.mpr (mt hasks.mp hk)) rfl

/-- A declarator declares nothing that is built on a type. -/
theorem builtOn_of_mem_declarator (hs : s ∈ declarator ctx n) : builtOn s = [] := by
  have hconstant {name : Tree} (hs : s ∈ declarator.constant ctx n name) : builtOn s = [] := by
    unfold declarator.constant at hs
    split at hs
    · cases hs
    · split at hs
      · cases List.mem_singleton.mp hs
        rfl
      · cases hs
  unfold declarator at hs
  split at hs
  · cases hs
  · split at hs
    · cases hs
    · split at hs
      · split at hs
        · cases List.mem_singleton.mp hs
          rfl
        · exact hconstant hs
      · exact hconstant hs

/-- In ECMAScript a type records what its node has as bases and interfaces. -/
theorem records_of_mem {symbols : List Symbol} (h : declarations ctx n = .ok symbols)
    (hs : s ∈ symbols) : Records ctx .ecmascript n.tree s := by
  unfold declarations at h
  split at h
  · next hkind =>
    have hother := contains_eq_false_of_contains hkind
      (by decide : ∀ k ∈ ["function_declaration", "generator_function_declaration"],
        k ∉ heirKinds .ecmascript)
    split at h
    · cases h
      cases hs
    · cases h
      cases List.mem_singleton.mp hs
      exact records_nothing hother rfl
  · split at h
    · next hkind =>
      cases h
      have hdeclarator : n.tree.kind = "variable_declarator" := eq_of_beq hkind
      refine records_nothing ?_ (builtOn_of_mem_declarator hs)
      rw [hdeclarator]
      decide
    · split at h
      · next hkind =>
        have hother := contains_eq_false_of_contains hkind
          (by decide : ∀ k ∈ methodKinds, k ∉ heirKinds .ecmascript)
        split at h
        · cases h
          cases hs
        · cases h
          cases List.mem_singleton.mp hs
          exact records_nothing hother rfl
      · split at h
        · next kind name hkind hname =>
          obtain ⟨symbol, hsymbol, h⟩ := Attempt.exists_of_bind_eq_ok h
          cases h
          cases List.mem_singleton.mp hs
          exact records_of_typeSymbol hkind hsymbol
        · cases h
          cases hs

end Ecmascript

namespace Python

/-- Names and dotted names are no comments. -/
theorem uncommented_bases (t : Tree) : uncommented (bases t) = bases t := by
  refine List.filter_eq_self.mpr fun c hc => ?_
  unfold bases at hc
  split at hc
  · cases hc
  · have hkind : ["identifier", "attribute"].contains c.kind = true := (List.mem_filter.mp hc).2
    have hplain : ∀ kind ∈ ["identifier", "attribute"], Text.contains "comment" kind = false := by
      decide
    rw [Tree.isComment, hplain c.kind (List.contains_iff_mem.mp hkind)]
    rfl

/-- So it is in Python. -/
theorem records_of_mem {symbols : List Symbol} (h : declarations ctx n = .ok symbols)
    (hs : s ∈ symbols) : Records ctx .python n.tree s := by
  unfold declarations at h
  split at h
  · next hdefinition =>
    split at h
    · cases h
      cases hs
    · split at h
      · cases h
      · split at h
        · next hkind =>
          have hfunction : n.tree.kind = "function_definition" := eq_of_beq hkind
          cases h
          cases List.mem_singleton.mp hs
          refine records_nothing ?_ rfl
          rw [hfunction]
          decide
        · next hkind =>
          have hclass : n.tree.kind = "class_definition" := by
            rw [Bool.or_eq_true] at hdefinition
            exact eq_of_beq (hdefinition.resolve_left hkind)
          cases h
          cases List.mem_singleton.mp hs
          have hrecorded : recorded .python n.tree = entriesOf n.tree .base (bases n.tree) := by
            rw [recorded, hclass]
            exact List.append_nil _
          have hnames : typeNames ctx (bases n.tree) = (bases n.tree).map (typeText ctx) :=
            congrArg (List.map (typeText ctx)) (uncommented_bases n.tree)
          rw [Records, hrecorded, map_name_entriesOf, ← hnames]
          exact toList_ofNames _
  · split at h
    · next hkind =>
      have hassignment : n.tree.kind = "assignment" := eq_of_beq hkind
      cases h
      refine records_nothing (by rw [hassignment]; decide) ?_
      unfold constant at hs
      split at hs
      · split at hs
        · cases List.mem_singleton.mp hs
          rfl
        · cases hs
      · cases hs
    · cases h
      cases hs

end Python

namespace Rust

/-- So it is in Rust. -/
theorem records_of_mem (hs : s ∈ declarations ctx n) : Records ctx .rust n.tree s := by
  unfold declarations at hs
  split at hs
  · next hkind =>
    have hother := contains_eq_false_of_contains hkind
      (by decide : ∀ k ∈ ["function_item", "function_signature_item"], k ∉ heirKinds .rust)
    obtain ⟨name, -, rfl⟩ := Option.map_eq_some_iff.mp (Option.mem_toList.mp hs)
    exact records_nothing hother rfl
  · split at hs
    · next hkind =>
      have himpl : n.tree.kind = "impl_item" := eq_of_beq hkind
      obtain ⟨type, -, h⟩ := Option.bind_eq_some_iff.mp (Option.mem_toList.mp hs)
      cases h
      unfold Records recorded
      rw [himpl]
      exact (map_name_entriesOf ctx n.tree .implemented _).symm
    · next hkind =>
      have hother : (heirKinds .rust).contains n.kind = false := by
        simpa [heirKinds] using hkind
      split at hs
      · cases hs
      · obtain ⟨name, -, rfl⟩ := Option.map_eq_some_iff.mp (Option.mem_toList.mp hs)
        exact records_nothing hother rfl

end Rust

/-- The name of a superclass is that of the entry that leads its clause. -/
theorem toList_of_superclass {base : Option String}
    (h : firstTypeName ctx ((t.field? "superclass").map Tree.namedChildren |>.getD []) = .ok base) :
    base.toList = (((t.field? "superclass").map fun c => c.namedChildren.head?.toList).getD []).map
      (typeText ctx) := by
  rw [toList_of_firstTypeName h]
  cases t.field? "superclass" with
  | none => rfl
  | some clause => rfl

namespace Jvm

/-- The interfaces on the JVM are those of the clause for them. -/
theorem interfaceNames_eq (ctx : Context) (t : Tree) :
    interfaceNames ctx t =
      (((interfaceClause? .jvm t).map (takenInterfaces .jvm)).getD []).map (typeText ctx) := by
  unfold interfaceNames interfaceClause?
  split
  · next hnone => rw [hnone]; rfl
  · next clause hclause => rw [hclause]; rfl

/-- The first interface of an interface takes the place of its base. -/
theorem toList_of_heritage (hkind : (heirKinds .jvm).contains t.kind = true) {h : Heritage}
    (hh : heritage ctx t = .ok h) :
    h.base.toList ++ h.interfaces = (recorded .jvm t).map (HeritageEntry.name ctx) := by
  obtain ⟨base, hbase, hh⟩ := Attempt.exists_of_bind_eq_ok hh
  rw [interfaceNames_eq] at hh
  rw [recorded, if_pos hkind, List.map_append, map_name_clause, map_name_clause, baseClause?]
  -- both sides ask whether there are interfaces, by their names and by their trees
  generalize hinterfaces : ((interfaceClause? .jvm t).map (takenInterfaces .jvm)).getD [] = types
    at hh
  cases hinterface : t.kind == "interface_declaration" with
  | true =>
      cases types with
      | nil =>
          rw [hinterface] at hh
          cases hh
          rw [toList_of_superclass hbase]
          rfl
      | cons first rest =>
          rw [hinterface] at hh
          cases hh
          rfl
  | false =>
      rw [hinterface] at hh
      cases hh
      rw [toList_of_superclass hbase]
      rfl

/-- So it is on the JVM. -/
theorem records_of_mem {symbols : List Symbol} (h : declarations ctx n = .ok symbols)
    (hs : s ∈ symbols) : Records ctx .jvm n.tree s := by
  unfold declarations at h
  split at h
  · next kind hlookup =>
    have hkind : (heirKinds .jvm).contains n.kind = true := by
      rw [heirKinds, contains_map_fst_eq, hlookup]
      rfl
    split at h
    · cases h
      cases hs
    · obtain ⟨symbol, hsymbol, h⟩ := Attempt.exists_of_bind_eq_ok h
      cases h
      cases List.mem_singleton.mp hs
      obtain ⟨heritage, hheritage, hsymbol⟩ := Attempt.exists_of_bind_eq_ok hsymbol
      cases hsymbol
      exact toList_of_heritage hkind hheritage
  · next hlookup =>
    have hother : (heirKinds .jvm).contains n.kind = false := by
      rw [heirKinds, contains_map_fst_eq, hlookup]
      rfl
    split at h
    · cases h
      obtain ⟨name, -, rfl⟩ := Option.map_eq_some_iff.mp (Option.mem_toList.mp hs)
      exact records_nothing hother rfl
    · split at h
      · cases h
        unfold constants at hs
        split at hs
        · obtain ⟨name, -, rfl⟩ := List.mem_map.mp hs
          exact records_nothing hother rfl
        · cases hs
      · cases h
        cases hs

end Jvm

namespace Php

/-- The names of a clause in PHP are the texts of its entries that are no comments. -/
theorem clauseNames_eq (ctx : Context) (t : Tree) (clause : String) :
    clauseNames ctx t clause =
      (((t.childOf? [clause]).map fun c => uncommented c.namedChildren).getD []).map
        (typeText ctx) := by
  unfold clauseNames
  cases t.childOf? [clause] with
  | none => rfl
  | some c => rfl

/-- The two clauses of a class in PHP give what is recorded for it. -/
theorem toList_clauseNames (ctx : Context) (hkind : (heirKinds .php).contains t.kind = true) :
    (clauseNames ctx t "base_clause").head?.toList ++ clauseNames ctx t "class_interface_clause" =
      (recorded .php t).map (HeritageEntry.name ctx) := by
  rw [recorded, if_pos hkind, List.map_append, map_name_clause, map_name_clause, clauseNames_eq,
    clauseNames_eq, baseClause?, interfaceClause?]
  congr 1
  cases t.childOf? ["base_clause"] with
  | none => rfl
  | some c =>
      rw [Option.map_some, Option.getD_some, List.head?_map]
      cases hlead : (uncommented c.namedChildren).head? <;> simp [takenBases, leading?, hlead]

/-- So it is in PHP. -/
theorem records_of_mem (hs : s ∈ declarations ctx n) : Records ctx .php n.tree s := by
  unfold declarations at hs
  split at hs
  · next hkind =>
    have hother := contains_eq_false_of_contains hkind
      (by decide : ∀ k ∈ ["function_definition", "method_declaration"], k ∉ heirKinds .php)
    obtain ⟨name, -, rfl⟩ := Option.map_eq_some_iff.mp (Option.mem_toList.mp hs)
    exact records_nothing hother rfl
  · split at hs
    · next kind hlookup =>
      obtain ⟨name, -, rfl⟩ := Option.map_eq_some_iff.mp (Option.mem_toList.mp hs)
      have hkind : (heirKinds .php).contains n.kind = true := by
        rw [heirKinds, contains_map_fst_eq, hlookup]
        rfl
      exact toList_clauseNames ctx hkind
    · next hlookup =>
      have hother : (heirKinds .php).contains n.kind = false := by
        rw [heirKinds, contains_map_fst_eq, hlookup]
        rfl
      split at hs
      · obtain ⟨name, -, rfl⟩ := Option.map_eq_some_iff.mp (Option.mem_toList.mp hs)
        exact records_nothing hother rfl
      · split at hs
        · obtain ⟨name, -, rfl⟩ := List.mem_map.mp hs
          exact records_nothing hother rfl
        · cases hs

end Php

namespace Ruby

/-- So it is in Ruby. -/
theorem records_of_mem {symbols : List Symbol} (h : declarations ctx n = .ok symbols)
    (hs : s ∈ symbols) : Records ctx .ruby n.tree s := by
  unfold declarations at h
  split at h
  · next hkind =>
    have hother := contains_eq_false_of_contains hkind
      (by decide : ∀ k ∈ ["method", "singleton_method"], k ∉ heirKinds .ruby)
    cases h
    obtain ⟨name, -, rfl⟩ := Option.map_eq_some_iff.mp (Option.mem_toList.mp hs)
    exact records_nothing hother rfl
  · split at h
    · next hkind =>
      have hheir : (heirKinds .ruby).contains n.tree.kind = true := hkind
      split at h
      · cases h
        cases hs
      · obtain ⟨symbol, hsymbol, h⟩ := Attempt.exists_of_bind_eq_ok h
        obtain ⟨base, hbase, hsymbol⟩ := Attempt.exists_of_bind_eq_ok hsymbol
        cases h
        cases List.mem_singleton.mp hs
        cases hsymbol
        rw [Records, recorded, if_pos hheir, List.map_append, map_name_clause]
        exact congrArg (· ++ []) (toList_of_superclass hbase)
    · next hkind =>
      have hother : (heirKinds .ruby).contains n.kind = false := Bool.eq_false_iff.mpr hkind
      split at h
      · cases h
        refine records_nothing hother ?_
        unfold constant at hs
        split at hs
        · cases hs
        · split at hs
          · cases List.mem_singleton.mp hs
            rfl
          · cases hs
      · cases h
        cases hs

end Ruby

/-- **A symbol builds on what its declaration records.** -/
theorem records_of_mem_declarations (hfamily : ctx.family.refersToBases = true)
    {symbols : List Symbol} (h : declarations ctx n = .ok symbols) (hs : s ∈ symbols) :
    Records ctx ctx.family n.tree s := by
  unfold declarations at h
  cases hctx : ctx.family with
  | ecmascript => exact Ecmascript.records_of_mem (by rwa [hctx] at h) hs
  | python => exact Python.records_of_mem (by rwa [hctx] at h) hs
  | rust =>
      rw [hctx] at h
      cases h
      exact Rust.records_of_mem hs
  | jvm => exact Jvm.records_of_mem (by rwa [hctx] at h) hs
  | php =>
      rw [hctx] at h
      cases h
      exact Php.records_of_mem hs
  | ruby => exact Ruby.records_of_mem (by rwa [hctx] at h) hs
  | go | csharp | c | generic => rw [hctx] at hfamily; cases hfamily

end Extract

end Concordance
