import Concordance.Parse.Basic
import Concordance.Proofs.Attempt
import Concordance.Proofs.Tree.Place

/-!
# When a source can be read

Extraction takes what it finds: a field that is missing or a list that is empty leaves something
out, and nothing more. There is one thing that it does not forgive. Some declarations name what they
build on by the first entry of a list (`firstBase?`). A comment is no name, and a declaration whose
first entry is a comment cannot be read (`readUnless_declarations`); one such declaration is enough
for a whole source to fail (`extract_eq_error`).

That is all: a source whose tree starts as sources do is read, or it has such an entry
(`parseSource_reads_iff`).
-/

namespace Concordance

namespace Node

/-- A walk meets the trees of a stack in order. -/
theorem map_tree_walkStack (stack : List Node) :
    (walkStack stack).map Node.tree = Tree.preorders (stack.map Node.tree) := by
  fun_induction walkStack stack with
  | case1 => rfl
  | case2 n rest ih =>
      have hchildren : n.children.map Node.tree = n.tree.children := map_tree_placed n [] _
      rw [List.map_cons, ih, List.map_append, hchildren, Tree.preorders_append, List.map_cons,
        Tree.preorders, Tree.preorder_eq, List.cons_append]

/-- The nodes that are walked are those of the tree in preorder. -/
theorem map_tree_walk (t : Tree) : (Node.root t).walk.map Node.tree = t.preorder := by
  rw [walk, map_tree_walkStack, List.map_singleton, Tree.preorders, Tree.preorders, List.append_nil]
  rfl

/-- **A walk leaves nothing out.** It meets every tree below its root. -/
theorem exists_mem_walk {t u : Tree} (h : u ∈ t.preorder) :
    ∃ n ∈ (Node.root t).walk, n.tree = u := by
  rw [← map_tree_walk] at h
  exact List.mem_map.mp h

/-- A node of a tree is its root or has a parent. -/
theorem Of.eq_root_or_parent {t : Tree} {n : Node} (h : Of t n) :
    n = Node.root t ∨ ∃ p, n.parent? = some p := by
  cases h with
  | root => exact Or.inl rfl
  | child hn hc => exact Or.inr ⟨_, (parent?_of_mem_placed hc).1⟩

end Node

namespace Extract

/-! ### The entry that should name the base -/

/-- The entry of a heritage that should name the base class. -/
def Ecmascript.firstHeritage? (heritage : Tree) : Option Tree :=
  match heritage.childOf? ["extends_clause"] with
  | some clause => clause.field? "value" <|> clause.namedChildren.head?
  | none => (heritage.namedChildren.filter fun c => c.kind != "implements_clause").head?

/-- The entry that should name the superclass. -/
def firstSuperclass? (t : Tree) : Option Tree :=
  (t.field? "superclass").bind fun clause => clause.namedChildren.head?

/-- The entry of a tree that should name the type on which a declaration builds, if the tree is a
declaration that asks for one. -/
def firstBase? (family : Family) (t : Tree) : Option Tree :=
  match family with
  | .ecmascript =>
    if (Ecmascript.classKinds ++ ["interface_declaration"]).contains t.kind &&
        (t.field? "name").isSome then
      (t.childOf? ["class_heritage"]).bind Ecmascript.firstHeritage?
    else none
  | .jvm =>
    if (Jvm.typeKinds.lookup t.kind).isSome && t.nameNode?.isSome then firstSuperclass? t else none
  | .ruby =>
    if ["class", "module"].contains t.kind && (t.field? "name").isSome then firstSuperclass? t
    else none
  | _ => none

/-- Whether a tree is a declaration with a comment where the name of its base should be. -/
def isUnnamed (family : Family) (t : Tree) : Bool :=
  (firstBase? family t).any Tree.isComment

/-- An attempt that fails for want of a base name, and otherwise comes to a result. -/
inductive ReadUnless {α : Type} : Bool → Except Fault α → Prop where
  | read (a : α) : ReadUnless false (.ok a)
  | unnamed : ReadUnless true (.error .noBaseName)

variable {ctx : Context} {n : Node}

/-- What is not unnamed is read. -/
theorem ReadUnless.exists_eq_ok {α : Type} {x : Except Fault α} (h : ReadUnless false x) :
    ∃ a, x = .ok a := by
  cases h with
  | read a => exact ⟨a, rfl⟩

/-- What is unnamed fails for want of a name. -/
theorem ReadUnless.eq_error {α : Type} {x : Except Fault α} (h : ReadUnless true x) :
    x = .error .noBaseName := by
  cases h
  rfl

/-- What is done with the result makes no difference. -/
theorem ReadUnless.map {α β : Type} {unnamed : Bool} {x : Except Fault α}
    (h : ReadUnless unnamed x) (f : α → β) : ReadUnless unnamed (x.map f) := by
  cases h with
  | read a => exact .read (f a)
  | unnamed => exact .unnamed

/-- What is made of a result does not fail again. -/
theorem ReadUnless.bind {α β : Type} {unnamed : Bool} {x : Except Fault α}
    (h : ReadUnless unnamed x) {f : α → Except Fault β} (hf : ∀ a, ∃ b, f a = .ok b) :
    ReadUnless unnamed (x >>= f) := by
  cases h with
  | read a =>
      obtain ⟨b, hb⟩ := hf a
      rw [Attempt.ok_bind, hb]
      exact .read b
  | unnamed => exact .unnamed

/-- A type is named by any entry but a comment. -/
theorem readUnless_typeName (ctx : Context) (t : Tree) :
    ReadUnless t.isComment (typeName ctx t) := by
  unfold typeName typeNames
  cases h : t.isComment with
  | true => simpa [h] using ReadUnless.unnamed
  | false => simpa [h] using ReadUnless.read _

/-- Of several entries the first is asked. -/
theorem readUnless_firstTypeName (ctx : Context) (ts : List Tree) :
    ReadUnless (ts.head?.any Tree.isComment) (firstTypeName ctx ts) := by
  cases ts with
  | nil => exact .read none
  | cons t ts => exact (readUnless_typeName ctx t).map some

/-- A superclass is named by the first entry of its clause. -/
theorem readUnless_superclass (ctx : Context) (t : Tree) :
    ReadUnless ((firstSuperclass? t).any Tree.isComment)
      (firstTypeName ctx ((t.field? "superclass").map Tree.namedChildren |>.getD [])) := by
  unfold firstSuperclass?
  cases t.field? "superclass" with
  | none => exact .read none
  | some clause => exact readUnless_firstTypeName ctx clause.namedChildren

/-- A kind is in one of two lists at most, if they have no kind in common. -/
theorem contains_eq_false_of_contains {kinds others : List String} {kind : String}
    (h : kinds.contains kind = true) (hdisjoint : ∀ k ∈ kinds, k ∉ others) :
    others.contains kind = false := by
  have hmem : kind ∈ kinds := List.contains_iff_mem.mp h
  simpa using hdisjoint kind hmem

namespace Ecmascript

/-- Reading a base class fails if a comment stands in its place. -/
theorem readUnless_baseClass (ctx : Context) (heritage : Tree) :
    ReadUnless ((Ecmascript.firstHeritage? heritage).any Tree.isComment)
      (baseClass ctx heritage) := by
  unfold baseClass Ecmascript.firstHeritage?
  cases heritage.childOf? ["extends_clause"] with
  | none => exact readUnless_firstTypeName ctx _
  | some clause =>
      dsimp only
      cases clause.field? "value" with
      | none => exact readUnless_firstTypeName ctx clause.namedChildren
      | some value => exact (readUnless_typeName ctx value).map some

/-- Reading a heritage fails if a comment stands before its first class. -/
theorem readUnless_heritage (ctx : Context) (t : Tree) :
    ReadUnless (((t.childOf? ["class_heritage"]).bind Ecmascript.firstHeritage?).any Tree.isComment)
      (heritage ctx t) := by
  unfold heritage
  cases t.childOf? ["class_heritage"] with
  | none =>
      dsimp only
      cases t.childOf? ["extends_type_clause"] with
      | none => exact .read _
      | some clause => exact .read _
  | some h => exact (readUnless_baseClass ctx h).bind fun _ => ⟨_, rfl⟩

/-- Only classes and interfaces have entries for their bases. -/
theorem isUnnamed_eq_false {t : Tree}
    (h : (classKinds ++ ["interface_declaration"]).contains t.kind = false) :
    isUnnamed .ecmascript t = false := by
  rw [isUnnamed, firstBase?, h]
  rfl

/-- The kinds that ask for a base are those of the symbols that have one. -/
theorem asksForBase_iff (kind : String) :
    (classKinds ++ ["interface_declaration"]).contains kind = true ↔
      typeKind? kind = some .classType ∨ typeKind? kind = some .interface := by
  rw [List.contains_append, Bool.or_eq_true, typeKind?]
  by_cases hclass : classKinds.contains kind = true
  · rw [if_pos hclass]
    exact iff_of_true (Or.inl hclass) (Or.inl rfl)
  · rw [if_neg hclass]
    by_cases hinterface : (kind == "interface_declaration") = true
    · rw [if_pos hinterface]
      exact iff_of_true (Or.inr (by simpa using hinterface)) (Or.inr rfl)
    · rw [if_neg hinterface]
      refine iff_of_false (not_or.mpr ⟨hclass, by simpa using hinterface⟩) ?_
      -- aliases, enumerations and namespaces are left
      split
      · decide
      · split
        · decide
        · split <;> decide

/-- A type in ECMAScript fails with its heritage. -/
theorem readUnless_typeSymbol {name : Tree} {kind : SymbolKind}
    (hkind : typeKind? n.tree.kind = some kind) (hname : n.tree.field? "name" = some name) :
    ReadUnless (isUnnamed .ecmascript n.tree) (typeSymbol ctx n name kind) := by
  have hasks := asksForBase_iff n.tree.kind
  rw [hkind, Option.some_inj, Option.some_inj] at hasks
  unfold typeSymbol
  by_cases hk : kind = .classType ∨ kind = .interface
  · rw [if_pos hk, isUnnamed, firstBase?, hasks.mpr hk, hname]
    exact (readUnless_heritage ctx n.tree).bind fun _ => ⟨_, rfl⟩
  · rw [if_neg hk, isUnnamed_eq_false (by simpa using mt hasks.mp hk)]
    exact .read _

/-- A node is read unless it is a class or an interface without a name for its base. -/
theorem readUnless_declarations (ctx : Context) (n : Node) :
    ReadUnless (isUnnamed .ecmascript n.tree) (declarations ctx n) := by
  unfold declarations
  split
  · next hkind =>
    rw [isUnnamed_eq_false (contains_eq_false_of_contains hkind (by decide))]
    split <;> exact .read _
  · split
    · next hkind =>
      have hkind : n.kind = "variable_declarator" := by simpa using hkind
      have hother : (classKinds ++ ["interface_declaration"]).contains n.tree.kind = false := by
        rw [← Node.kind, hkind]
        decide
      rw [isUnnamed_eq_false hother]
      exact .read _
    · split
      · next hkind =>
        rw [isUnnamed_eq_false (contains_eq_false_of_contains hkind (by decide))]
        split <;> exact .read _
      · split
        · next kind name hkind hname =>
          exact (readUnless_typeSymbol hkind hname).bind fun _ => ⟨_, rfl⟩
        · next hnone =>
          have hnamed : isUnnamed .ecmascript n.tree = false := by
            cases hname : n.tree.field? "name" with
            | none => rw [isUnnamed, firstBase?, hname, Option.isSome_none, Bool.and_false]; rfl
            | some name =>
                apply isUnnamed_eq_false
                rw [Bool.eq_false_iff, Ne, asksForBase_iff, not_or]
                exact ⟨fun h => hnone _ _ h hname, fun h => hnone _ _ h hname⟩
          rw [hnamed]
          exact .read _

end Ecmascript

namespace Jvm

/-- A type on the JVM fails with its superclass. -/
theorem readUnless_typeSymbol (kind : SymbolKind) (name : Tree) :
    ReadUnless ((firstSuperclass? n.tree).any Tree.isComment) (typeSymbol ctx n kind name) := by
  have hheritage : ReadUnless ((firstSuperclass? n.tree).any Tree.isComment)
      (heritage ctx n.tree) := by
    refine (readUnless_superclass ctx n.tree).bind fun _ => ?_
    split <;> exact ⟨_, rfl⟩
  exact hheritage.bind fun _ => ⟨_, rfl⟩

/-- A node is read unless it is a type without a name for its superclass. -/
theorem readUnless_declarations (ctx : Context) (n : Node) :
    ReadUnless (isUnnamed .jvm n.tree) (declarations ctx n) := by
  rw [isUnnamed, firstBase?, ← Node.kind, declarations]
  cases typeKinds.lookup n.kind with
  | none =>
      rw [Option.isSome_none, Bool.false_and, if_neg Bool.false_ne_true]
      dsimp only
      split
      · exact .read _
      · split <;> exact .read _
  | some kind =>
      cases n.tree.nameNode? with
      | none => exact .read _
      | some name => exact (readUnless_typeSymbol kind name).bind fun _ => ⟨_, rfl⟩

end Jvm

namespace Ruby

/-- A class in Ruby fails with its superclass. -/
theorem readUnless_typeSymbol (name : Tree) :
    ReadUnless ((firstSuperclass? n.tree).any Tree.isComment) (typeSymbol ctx n name) :=
  (readUnless_superclass ctx n.tree).bind fun _ => ⟨_, rfl⟩

/-- A node is read unless it is a class or a module without a name for its superclass. -/
theorem readUnless_declarations (ctx : Context) (n : Node) :
    ReadUnless (isUnnamed .ruby n.tree) (declarations ctx n) := by
  rw [isUnnamed, firstBase?, ← Node.kind, declarations]
  by_cases hmethod : ["method", "singleton_method"].contains n.kind = true
  · rw [if_pos hmethod, contains_eq_false_of_contains hmethod (by decide), Bool.false_and,
      if_neg Bool.false_ne_true]
    exact .read _
  · rw [if_neg hmethod]
    by_cases htype : ["class", "module"].contains n.kind = true
    · rw [if_pos htype, htype]
      cases n.tree.field? "name" with
      | none => exact .read _
      | some name => exact (readUnless_typeSymbol name).bind fun _ => ⟨_, rfl⟩
    · rw [if_neg htype, Bool.eq_false_iff.mpr htype, Bool.false_and, if_neg Bool.false_ne_true]
      split <;> exact .read _

end Ruby

/-- A definition that has a place is read. -/
theorem Python.exists_declarations_eq_ok (ctx : Context) {n : Node}
    (h : n.kind = "function_definition" ∨ n.kind = "class_definition" → ∃ p, n.parent? = some p) :
    ∃ symbols, Python.declarations ctx n = .ok symbols := by
  unfold Python.declarations
  split
  · next hkind =>
    obtain ⟨parent, hparent⟩ := h (by simpa using hkind)
    rw [hparent]
    cases n.tree.field? "name" with
    | none => exact ⟨_, rfl⟩
    | some name =>
        dsimp only
        split <;> exact ⟨_, rfl⟩
  · split <;> exact ⟨_, rfl⟩

/-- The kinds of the roots of sources. -/
def rootKinds : List String :=
  ["module", "program", "source_file", "translation_unit", "compilation_unit"]

/-- **One node.** In a source, a node is read unless it is a declaration with a comment where the
name of its base should be. -/
theorem readUnless_declarations (ctx : Context) {t : Tree}
    (hroot : rootKinds.contains t.kind = true) (hn : Node.Of t n) :
    ReadUnless (isUnnamed ctx.family n.tree) (declarations ctx n) := by
  unfold declarations
  cases ctx.family with
  | ecmascript => exact Ecmascript.readUnless_declarations ctx n
  | jvm => exact Jvm.readUnless_declarations ctx n
  | ruby => exact Ruby.readUnless_declarations ctx n
  | python =>
      have hplace : n.kind = "function_definition" ∨ n.kind = "class_definition" →
          ∃ p, n.parent? = some p := by
        intro hkind
        rcases hn.eq_root_or_parent with rfl | hparent
        · -- the root of a source is no definition
          rcases hkind with hkind | hkind <;>
            · change t.kind = _ at hkind
              rw [hkind] at hroot
              exact absurd hroot (by decide)
        · exact hparent
      obtain ⟨symbols, hsymbols⟩ := Python.exists_declarations_eq_ok ctx hplace
      rw [hsymbols]
      exact .read symbols
  | go => exact .read _
  | rust => exact .read _
  | csharp => exact .read _
  | c => exact .read _
  | php => exact .read _
  | generic => exact .read _

/-- **All nodes.** A source without a comment where the name of a base should be is read. -/
theorem exists_extract_eq_ok {t : Tree} (hroot : rootKinds.contains t.kind = true)
    (h : ∀ u ∈ t.preorder, isUnnamed ctx.family u = false) : ∃ e, extract ctx t = .ok e := by
  have hread : ∀ n ∈ (Node.root t).walk, ∃ read, declarations ctx n = .ok read := by
    intro n hn
    have hof := Node.of_mem_walk hn
    have hone := readUnless_declarations ctx hroot hof
    rw [h n.tree hof.tree_mem_preorder] at hone
    exact hone.exists_eq_ok
  obtain ⟨read, hread⟩ := Attempt.exists_mapM_eq_ok hread
  exact ⟨_, by rw [extract, symbols, hread]; rfl⟩

/-- One comment where the name of a base should be is enough for a source to fail. -/
theorem extract_eq_error {t u : Tree} (hroot : rootKinds.contains t.kind = true)
    (hu : u ∈ t.preorder) (hunnamed : isUnnamed ctx.family u = true) :
    extract ctx t = .error .noBaseName := by
  have hcases : ∀ n ∈ (Node.root t).walk,
      declarations ctx n = .error .noBaseName ∨ ∃ read, declarations ctx n = .ok read := by
    intro n hn
    have hone := readUnless_declarations ctx hroot (Node.of_mem_walk hn)
    cases hb : isUnnamed ctx.family n.tree with
    | true => exact Or.inl (hb ▸ hone).eq_error
    | false => exact Or.inr (hb ▸ hone).exists_eq_ok
  have hfail : ∃ n ∈ (Node.root t).walk, declarations ctx n = .error .noBaseName := by
    obtain ⟨n, hn, rfl⟩ := Node.exists_mem_walk hu
    have hone := readUnless_declarations ctx hroot (Node.of_mem_walk hn)
    exact ⟨n, hn, (hunnamed ▸ hone).eq_error⟩
  rw [extract, symbols, Attempt.mapM_eq_error hcases hfail]
  rfl

/-- **When a source can be read.** A source with a grammar and a tree is read, whatever is missing
in the tree, if and only if no declaration has a comment where the name of its base should be;
otherwise the want of that name is why it is not. -/
theorem parseSource_reads_iff {grammars : Grammars} {grammar : String} {t : Tree} (ctx : Context)
    (hgrammar : grammars.isMissing grammar = false)
    (htree : grammars.tree? grammar ctx.source = some t)
    (hroot : rootKinds.contains t.kind = true) :
    ((∃ e, parseSource grammars grammar ctx = .ok (some e)) ↔
      ∀ u ∈ t.preorder, isUnnamed ctx.family u = false) ∧
    ((∃ u ∈ t.preorder, isUnnamed ctx.family u = true) →
      parseSource grammars grammar ctx = .error (.fault .noBaseName)) := by
  have hparse : parseSource grammars grammar ctx =
      ((extract ctx t).mapError .fault).map some := by
    rw [parseSource, hgrammar, htree]
    rfl
  have hfails : (∃ u ∈ t.preorder, isUnnamed ctx.family u = true) →
      parseSource grammars grammar ctx = .error (.fault .noBaseName) := by
    rintro ⟨u, hu, hunnamed⟩
    rw [hparse, extract_eq_error hroot hu hunnamed]
    rfl
  refine ⟨⟨?_, ?_⟩, hfails⟩
  · rintro ⟨e, he⟩ u hu
    rw [Bool.eq_false_iff]
    intro hunnamed
    rw [hfails ⟨u, hu, hunnamed⟩] at he
    cases he
  · intro h
    obtain ⟨e, he⟩ := exists_extract_eq_ok hroot h
    exact ⟨e, by rw [hparse, he]; rfl⟩

section Commented

/-- A named leaf of a tree. -/
def namedLeaf (kind : String) (start stop : Nat) (field : Option String) : Tree :=
  .node ⟨kind, true, start, stop, field⟩ []

/-- A comment, then the name of a class. -/
def commentBeforeBase : List Tree :=
  [namedLeaf "block_comment" 16 23 none, namedLeaf "type_identifier" 24 25 none]

/-- The tree of a class with a superclass clause. -/
def classTree (entries : List Tree) : Tree :=
  .node ⟨"program", true, 0, 28, none⟩
    [.node ⟨"class_declaration", true, 0, 28, none⟩
      [namedLeaf "identifier" 6 7 (some "name"),
       .node ⟨"superclass", true, 8, 25, some "superclass"⟩ entries,
       namedLeaf "class_body" 26 28 (some "body")]]

/-- A grammar that knows one class. -/
def classGrammars (entries : List Tree) : Grammars where
  isMissing _ := false
  tree? _ _ := some (classTree entries)

/-- The class, as a source. -/
def classContext : Context where
  source := Utf8.bytes "class A extends /* c */ B {}"
  file := "A.java"
  language := "java"
  family := .jvm

/-- With the comment first the class cannot be read, with the comment last it is. -/
theorem parseSource_reads_iff_commented :
    parseSource (classGrammars commentBeforeBase) "java" classContext =
        .error (.fault .noBaseName) ∧
      ∃ e, parseSource (classGrammars commentBeforeBase.reverse) "java" classContext =
        .ok (some e) := by
  constructor
  · refine (parseSource_reads_iff classContext rfl rfl (by decide)).2 ?_
    exact ⟨_, Tree.child_mem_preorder List.mem_cons_self, by decide⟩
  · refine (parseSource_reads_iff classContext rfl rfl (by decide)).1.mpr ?_
    decide

end Commented

end Extract

end Concordance
