import Concordance.Proofs.Extract.Declared
import Concordance.Proofs.Source.Point
import Concordance.Proofs.Tree.Ancestor

/-!
# Owners of declarations

The type of which a declaration is a member is looked for above its node, by each family through the
bodies that it knows (`Extract.owner?`). It stands above the node (`Extract.exists_owner`), it gives
the symbols of the node its name (`Extract.attributed_of_mem_declarations`), and it spans them
(`Extract.contains_wholeOf`).

When its own node is visited, the owner becomes a symbol. If it has a name of its own, this symbol is
class-like and bears the name that the members know (`Extract.exists_type`). The exceptions are a
delegate, whose symbol is a type without members, and owners that are named by the first plain name
in them, which not every family takes for their own name.
-/

namespace Concordance

/-- The families whose types hold their members. -/
def Family.holdsMembers : Family → Bool
  | .ecmascript | .python | .rust | .jvm | .csharp | .php | .ruby => true
  | .go | .c | .generic => false

namespace Extract

/-! ### The owner of a declaration -/

/-- The declaration that a node is a member of. -/
def owner? (family : Family) (n : Node) : Option Tree :=
  match family with
  | .ecmascript =>
    n.ownerOf? (Ecmascript.classKinds ++ ["interface_declaration"])
      ["class_body", "interface_body", "object_type"]
  | .python => Python.owner? n
  | .rust => n.ownerOf? ["impl_item", "trait_item"] ["declaration_list"]
  | .jvm => Jvm.owner? n
  | .csharp => n.ownerOf? (CSharp.typeKinds.map Prod.fst) ["declaration_list"]
  | .php => n.ownerOf? (Php.typeKinds.map Prod.fst) ["declaration_list"]
  | .ruby => Ruby.owner? n
  | .go | .c | .generic => none

/-- The kinds of declarations that have members. -/
def ownerKinds : Family → List String
  | .ecmascript => Ecmascript.classKinds ++ ["interface_declaration"]
  | .python => ["class_definition"]
  | .rust => ["impl_item", "trait_item"]
  | .jvm => Jvm.typeKinds.map Prod.fst
  | .csharp => CSharp.typeKinds.map Prod.fst
  | .php => Php.typeKinds.map Prod.fst
  | .ruby => ["class", "module"]
  | .go | .c | .generic => []

/-- The tree that a declaration spans: with its decorators, where there may be any. -/
def wholeOf (family : Family) (n : Node) : Tree :=
  match family with
  | .python => (n.parent?.map (Python.wholeOf n)).getD n.tree
  | _ => n.tree

variable {ctx : Context} {n : Node} {s : Symbol} {o : Tree}

/-- An owner stands above its members. -/
theorem exists_of_ownerOf? {types bodies : List String} (h : n.ownerOf? types bodies = some o) :
    ∃ a : Node, a.IsAbove n ∧ a.tree = o ∧ types.contains a.kind = true := by
  unfold Node.ownerOf? at h
  split at h
  · cases h
  · next x hx =>
    split at h
    · next htype =>
      cases h
      obtain ⟨rest, hrest⟩ := List.head?_eq_some_iff.mp hx
      have hsuffix : x :: rest <:+ n.above := hrest ▸ List.dropWhile_suffix _
      exact ⟨⟨x.tree, rest⟩, Node.isAbove_of_suffix hsuffix n.tree, rfl, htype⟩
    · cases h

namespace Ruby

/-- Without the body in which a node stands, what is above it is less. -/
theorem dropBody_suffix (above : List Ancestor) : dropBody above <:+ above := by
  cases above with
  | nil => exact List.suffix_refl _
  | cons x rest =>
      rw [dropBody]
      split
      · exact List.suffix_cons x rest
      · exact List.suffix_refl _

/-- Past bodies and a singleton class one is still on the way up. -/
theorem enclosing_suffix (n : Node) : (enclosing n).1 <:+ n.above := by
  have hbody := dropBody_suffix n.above
  unfold enclosing
  split
  · exact List.nil_suffix
  · next x rest heq =>
    rw [heq] at hbody
    split
    · exact (dropBody_suffix rest).trans ((List.suffix_cons x rest).trans hbody)
    · exact hbody

/-- The owner of a node in Ruby is a class or a module above it. -/
theorem exists_of_owner? (h : owner? n = some o) :
    ∃ a : Node, a.IsAbove n ∧ a.tree = o ∧ ["class", "module"].contains a.kind = true := by
  have hsuffix := enclosing_suffix n
  unfold owner? at h
  split at h
  · cases h
  · next x rest heq =>
    split at h
    · next htype =>
      cases h
      rw [heq] at hsuffix
      exact ⟨⟨x.tree, rest⟩, Node.isAbove_of_suffix hsuffix n.tree, rfl, htype⟩
    · cases h

end Ruby

/-- **The owner stands above the member,** and is of a kind that has members. -/
theorem exists_owner {family : Family} (h : owner? family n = some o) :
    ∃ a : Node, a.IsAbove n ∧ a.tree = o ∧ (ownerKinds family).contains a.kind = true := by
  cases family with
  | ecmascript | python | rust | jvm | csharp | php => exact exists_of_ownerOf? h
  | ruby => exact Ruby.exists_of_owner? h
  | go | c | generic => cases h

/-! ### What a node makes of its owner -/

/-- A symbol of a node: it has no members yet, and it has no owner or that of the node. -/
structure Attributed (ctx : Context) (family : Family) (n : Node) (s : Symbol) : Prop where
  members : s.members = []
  owner : s.owner = none ∨
    s.owner = ownerName ctx (owner? family n) ∧ s.span = ctx.span (wholeOf family n)

namespace Ecmascript

/-- What a declarator declares is attributed to the type around it, or to none. -/
theorem attributed_of_mem_declarator (hs : s ∈ declarator ctx n) :
    Attributed ctx .ecmascript n s := by
  have hconstant {name : Tree} (hs : s ∈ declarator.constant ctx n name) :
      Attributed ctx .ecmascript n s := by
    unfold declarator.constant at hs
    split at hs
    · cases hs
    · split at hs
      · cases List.mem_singleton.mp hs
        exact ⟨rfl, .inl rfl⟩
      · cases hs
  unfold declarator at hs
  split at hs
  · cases hs
  · split at hs
    · cases hs
    · split at hs
      · split at hs
        · cases List.mem_singleton.mp hs
          exact ⟨rfl, .inl rfl⟩
        · exact hconstant hs
      · exact hconstant hs

/-- The symbol of a type has its name and its extent, and neither owner nor members yet. -/
theorem exists_of_typeSymbol {name : Tree} {kind : SymbolKind}
    (h : typeSymbol ctx n name kind = .ok s) :
    s.members = [] ∧ s.owner = none ∧ s.name = ctx.text name ∧ s.kind = kind ∧
      s.span = ctx.span n.tree := by
  unfold typeSymbol at h
  dsimp only at h
  split at h
  · obtain ⟨heritage, -, h⟩ := Attempt.exists_of_bind_eq_ok h
    cases h
    exact ⟨rfl, rfl, rfl, rfl, rfl⟩
  · cases h
    exact ⟨rfl, rfl, rfl, rfl, rfl⟩

/-- In ECMAScript every declaration is attributed to the type around it, or to none. -/
theorem attributed_of_mem {symbols : List Symbol} (h : declarations ctx n = .ok symbols)
    (hs : s ∈ symbols) : Attributed ctx .ecmascript n s := by
  unfold declarations at h
  split at h
  · split at h
    · cases h
      cases hs
    · cases h
      cases List.mem_singleton.mp hs
      exact ⟨rfl, .inl rfl⟩
  · split at h
    · cases h
      exact attributed_of_mem_declarator hs
    · split at h
      · split at h
        · cases h
          cases hs
        · cases h
          cases List.mem_singleton.mp hs
          exact ⟨rfl, .inr ⟨rfl, rfl⟩⟩
      · split at h
        · obtain ⟨symbol, hsymbol, h⟩ := Attempt.exists_of_bind_eq_ok h
          cases h
          cases List.mem_singleton.mp hs
          obtain ⟨hmembers, howner, -⟩ := exists_of_typeSymbol hsymbol
          exact ⟨hmembers, .inl howner⟩
        · cases h
          cases hs

end Ecmascript

namespace Python

/-- So it is in Python. -/
theorem attributed_of_mem {symbols : List Symbol} (h : declarations ctx n = .ok symbols)
    (hs : s ∈ symbols) : Attributed ctx .python n s := by
  have hconstant (hs : s ∈ constant ctx n) : Attributed ctx .python n s := by
    unfold constant at hs
    split at hs
    · split at hs
      · cases List.mem_singleton.mp hs
        exact ⟨rfl, .inl rfl⟩
      · cases hs
    · cases hs
  unfold declarations at h
  split at h
  · split at h
    · cases h
      cases hs
    · split at h
      · cases h
      · next parent hparent =>
        have hwhole : Extract.wholeOf .python n = wholeOf n parent := by
          unfold Extract.wholeOf
          rw [hparent]
          rfl
        split at h
        · cases h
          cases List.mem_singleton.mp hs
          exact ⟨rfl, .inr ⟨rfl, by rw [hwhole]; rfl⟩⟩
        · cases h
          cases List.mem_singleton.mp hs
          exact ⟨rfl, .inr ⟨rfl, by rw [hwhole]; rfl⟩⟩
  · split at h
    · cases h
      exact hconstant hs
    · cases h
      cases hs

end Python

namespace Rust

/-- So it is in Rust. -/
theorem attributed_of_mem (hs : s ∈ declarations ctx n) : Attributed ctx .rust n s := by
  unfold declarations at hs
  split at hs
  · obtain ⟨name, -, rfl⟩ := Option.map_eq_some_iff.mp (Option.mem_toList.mp hs)
    exact ⟨rfl, .inr ⟨rfl, rfl⟩⟩
  · split at hs
    · obtain ⟨type, -, h⟩ := Option.bind_eq_some_iff.mp (Option.mem_toList.mp hs)
      cases h
      exact ⟨rfl, .inl rfl⟩
    · split at hs
      · cases hs
      · obtain ⟨name, -, rfl⟩ := Option.map_eq_some_iff.mp (Option.mem_toList.mp hs)
        exact ⟨rfl, .inl rfl⟩

end Rust

namespace Jvm

/-- So it is on the JVM. -/
theorem attributed_of_mem {symbols : List Symbol} (h : declarations ctx n = .ok symbols)
    (hs : s ∈ symbols) : Attributed ctx .jvm n s := by
  unfold declarations at h
  split at h
  · split at h
    · cases h
      cases hs
    · obtain ⟨symbol, hsymbol, h⟩ := Attempt.exists_of_bind_eq_ok h
      obtain ⟨heritage, -, hsymbol⟩ := Attempt.exists_of_bind_eq_ok hsymbol
      cases h
      cases List.mem_singleton.mp hs
      cases hsymbol
      exact ⟨rfl, .inr ⟨rfl, rfl⟩⟩
  · split at h
    · cases h
      obtain ⟨name, -, rfl⟩ := Option.map_eq_some_iff.mp (Option.mem_toList.mp hs)
      exact ⟨rfl, .inr ⟨rfl, rfl⟩⟩
    · split at h
      · cases h
        unfold constants at hs
        split at hs
        · obtain ⟨name, -, rfl⟩ := List.mem_map.mp hs
          exact ⟨rfl, .inr ⟨rfl, rfl⟩⟩
        · cases hs
      · cases h
        cases hs

end Jvm

namespace CSharp

/-- So it is in C#. -/
theorem attributed_of_mem (hs : s ∈ declarations ctx n) : Attributed ctx .csharp n s := by
  unfold declarations at hs
  split at hs
  · obtain ⟨name, -, rfl⟩ := Option.map_eq_some_iff.mp (Option.mem_toList.mp hs)
    exact ⟨rfl, .inr ⟨rfl, rfl⟩⟩
  · obtain ⟨name, -, rfl⟩ := Option.map_eq_some_iff.mp (Option.mem_toList.mp hs)
    exact ⟨rfl, .inr ⟨rfl, rfl⟩⟩
  · split at hs
    · unfold constants at hs
      split at hs
      · cases hs
      · split at hs
        · cases hs
        · obtain ⟨name, -, rfl⟩ := List.mem_map.mp hs
          exact ⟨rfl, .inr ⟨rfl, rfl⟩⟩
    · cases hs

end CSharp

namespace Php

/-- So it is in PHP. -/
theorem attributed_of_mem (hs : s ∈ declarations ctx n) : Attributed ctx .php n s := by
  unfold declarations at hs
  split at hs
  · obtain ⟨name, -, rfl⟩ := Option.map_eq_some_iff.mp (Option.mem_toList.mp hs)
    exact ⟨rfl, .inr ⟨rfl, rfl⟩⟩
  · split at hs
    · obtain ⟨name, -, rfl⟩ := Option.map_eq_some_iff.mp (Option.mem_toList.mp hs)
      exact ⟨rfl, .inl rfl⟩
    · split at hs
      · obtain ⟨name, -, rfl⟩ := Option.map_eq_some_iff.mp (Option.mem_toList.mp hs)
        exact ⟨rfl, .inl rfl⟩
      · split at hs
        · obtain ⟨name, -, rfl⟩ := List.mem_map.mp hs
          exact ⟨rfl, .inr ⟨rfl, rfl⟩⟩
        · cases hs

end Php

namespace Ruby

/-- So it is in Ruby. -/
theorem attributed_of_mem {symbols : List Symbol} (h : declarations ctx n = .ok symbols)
    (hs : s ∈ symbols) : Attributed ctx .ruby n s := by
  unfold declarations at h
  split at h
  · cases h
    obtain ⟨name, -, rfl⟩ := Option.map_eq_some_iff.mp (Option.mem_toList.mp hs)
    exact ⟨rfl, .inr ⟨rfl, rfl⟩⟩
  · split at h
    · split at h
      · cases h
        cases hs
      · obtain ⟨symbol, hsymbol, h⟩ := Attempt.exists_of_bind_eq_ok h
        obtain ⟨base, -, hsymbol⟩ := Attempt.exists_of_bind_eq_ok hsymbol
        cases h
        cases List.mem_singleton.mp hs
        cases hsymbol
        exact ⟨rfl, .inr ⟨rfl, rfl⟩⟩
    · split at h
      · cases h
        unfold constant at hs
        split at hs
        · cases hs
        · split at hs
          · cases List.mem_singleton.mp hs
            exact ⟨rfl, .inr ⟨rfl, rfl⟩⟩
          · cases hs
      · cases h
        cases hs

end Ruby

/-- Every symbol of a node is attributed to the owner of the node. -/
theorem attributed_of_mem_declarations (hfamily : ctx.family.holdsMembers = true)
    {symbols : List Symbol} (h : declarations ctx n = .ok symbols) (hs : s ∈ symbols) :
    Attributed ctx ctx.family n s := by
  unfold declarations at h
  cases hctx : ctx.family with
  | ecmascript => exact Ecmascript.attributed_of_mem (by rwa [hctx] at h) hs
  | python => exact Python.attributed_of_mem (by rwa [hctx] at h) hs
  | rust =>
      rw [hctx] at h
      cases h
      exact Rust.attributed_of_mem hs
  | jvm => exact Jvm.attributed_of_mem (by rwa [hctx] at h) hs
  | csharp =>
      rw [hctx] at h
      cases h
      exact CSharp.attributed_of_mem hs
  | php =>
      rw [hctx] at h
      cases h
      exact Php.attributed_of_mem hs
  | ruby => exact Ruby.attributed_of_mem (by rwa [hctx] at h) hs
  | go | c | generic => rw [hctx] at hfamily; cases hfamily

/-! ### What an owner makes of itself -/

/-- A class-like symbol of a node, under a name. -/
structure IsType (ctx : Context) (family : Family) (n : Node) (name : String) (c : Symbol) :
    Prop where
  called : c.name = name
  classLike : c.kind.isClassLike = true
  span : c.span = ctx.span (wholeOf family n)

section Types

variable {name : Tree} {symbols : List Symbol}

/-- A kind that stands in a table is found there. -/
theorem exists_lookup_of_contains {table : List (String × SymbolKind)} {kind : String}
    (h : (table.map Prod.fst).contains kind = true) :
    ∃ k, table.lookup kind = some k ∧ (kind, k) ∈ table := by
  induction table with
  | nil => cases h
  | cons entry table ih =>
      rw [List.lookup_cons]
      split
      · next heq =>
        rw [eq_of_beq heq]
        exact ⟨entry.2, rfl, List.mem_cons_self⟩
      · next hne =>
        rw [List.map_cons, List.contains_cons, hne, Bool.false_or] at h
        obtain ⟨k, hlookup, hmem⟩ := ih h
        exact ⟨k, hlookup, List.mem_cons_of_mem _ hmem⟩

/-- In ECMAScript every owner with a name is declared as a type of that name. -/
theorem Ecmascript.exists_type (hkind : (ownerKinds .ecmascript).contains n.kind = true)
    (hname : n.tree.field? "name" = some name) (h : declarations ctx n = .ok symbols) :
    ∃ c ∈ symbols, IsType ctx .ecmascript n (ctx.text name) c := by
  obtain ⟨hfunction, hdeclarator, hmethod, kind, htype, hlike⟩ :
      ["function_declaration", "generator_function_declaration"].contains n.kind = false ∧
        (n.kind == "variable_declarator") = false ∧ methodKinds.contains n.kind = false ∧
        ∃ kind, typeKind? n.kind = some kind ∧ kind.isClassLike = true := by
    simp only [ownerKinds, classKinds, List.cons_append, List.nil_append, List.contains_cons,
      List.contains_nil, Bool.or_false, Bool.or_eq_true, beq_iff_eq] at hkind
    rcases hkind with hkind | hkind | hkind | hkind <;> rw [hkind] <;>
      exact ⟨rfl, rfl, rfl, _, rfl, rfl⟩
  unfold declarations at h
  rw [hfunction, hdeclarator, hmethod, htype, hname] at h
  obtain ⟨c, hc, h⟩ := Attempt.exists_of_bind_eq_ok h
  cases h
  obtain ⟨-, -, hcalled, hkind', hspan⟩ := exists_of_typeSymbol hc
  exact ⟨c, List.mem_singleton_self c, hcalled, by rw [hkind', hlike], hspan⟩

/-- So it is in Python. -/
theorem Python.exists_type (hkind : (ownerKinds .python).contains n.kind = true)
    (hname : n.tree.field? "name" = some name) (h : declarations ctx n = .ok symbols) :
    ∃ c ∈ symbols, IsType ctx .python n (ctx.text name) c := by
  have hclass : n.kind = "class_definition" := by simpa [ownerKinds] using hkind
  unfold declarations at h
  rw [hclass, hname] at h
  cases hparent : n.parent? with
  | none =>
      rw [hparent] at h
      cases h
  | some parent =>
      rw [hparent] at h
      cases h
      refine ⟨_, List.mem_singleton_self _, rfl, rfl, ?_⟩
      unfold Extract.wholeOf
      rw [hparent]
      rfl

/-- So is every trait in Rust. -/
theorem Rust.exists_type (hkind : n.kind = "trait_item")
    (hname : n.tree.field? "name" = some name) :
    ∃ c ∈ declarations ctx n, IsType ctx .rust n (ctx.text name) c := by
  unfold declarations
  rw [hkind, hname]
  exact ⟨_, List.mem_singleton_self _, rfl, rfl, rfl⟩

/-- An implementation is named by the plain name of its type. -/
theorem Rust.exists_implementation (hkind : n.kind = "impl_item") {type : Tree}
    (htype : n.tree.field? "type" = some type) :
    ∃ c ∈ declarations ctx n, IsType ctx .rust n (ctx.text (type.target?.getD type)) c := by
  unfold declarations implementation
  rw [hkind, htype]
  exact ⟨_, List.mem_singleton_self _, rfl, rfl, rfl⟩

/-- So it is on the JVM. -/
theorem Jvm.exists_type (hkind : (ownerKinds .jvm).contains n.kind = true)
    (hname : n.tree.field? "name" = some name) (h : declarations ctx n = .ok symbols) :
    ∃ c ∈ symbols, IsType ctx .jvm n (ctx.text name) c := by
  obtain ⟨kind, hlookup, hmem⟩ := exists_lookup_of_contains hkind
  have hlike : kind.isClassLike = true :=
    (by decide : ∀ entry ∈ typeKinds, entry.2.isClassLike = true) _ hmem
  have hnode : n.tree.nameNode? = some name := by
    rw [Tree.nameNode?, hname]
    rfl
  have hlike' : (typeKind ctx n.tree kind).isClassLike = true := by
    unfold typeKind
    split
    · exact hlike
    · split
      · rfl
      · split
        · rfl
        · exact hlike
  unfold declarations at h
  rw [hlookup, hnode] at h
  obtain ⟨c, hc, h⟩ := Attempt.exists_of_bind_eq_ok h
  obtain ⟨heritage, -, hc⟩ := Attempt.exists_of_bind_eq_ok hc
  cases h
  cases hc
  exact ⟨_, List.mem_singleton_self _, rfl, hlike', rfl⟩

/-- So it is in C#, but for delegates. -/
theorem CSharp.exists_type (hkind : (ownerKinds .csharp).contains n.kind = true)
    (hdelegate : n.kind ≠ "delegate_declaration") (hname : n.tree.field? "name" = some name) :
    ∃ c ∈ declarations ctx n, IsType ctx .csharp n (ctx.text name) c := by
  obtain ⟨kind, hlookup, hmem⟩ := exists_lookup_of_contains hkind
  have hlike : kind.isClassLike = true :=
    (by decide : ∀ entry ∈ typeKinds, entry.1 ≠ "delegate_declaration" →
      entry.2.isClassLike = true) _ hmem hdelegate
  unfold declarations
  rw [hlookup, hname]
  exact ⟨_, List.mem_singleton_self _, rfl, hlike, rfl⟩

/-- So it is in PHP. -/
theorem Php.exists_type (hkind : (ownerKinds .php).contains n.kind = true)
    (hname : n.tree.field? "name" = some name) :
    ∃ c ∈ declarations ctx n, IsType ctx .php n (ctx.text name) c := by
  obtain ⟨kind, hlookup, hmem⟩ := exists_lookup_of_contains hkind
  obtain ⟨hplain, hlike⟩ := (by decide : ∀ entry ∈ typeKinds,
    ["function_definition", "method_declaration"].contains entry.1 = false ∧
      entry.2.isClassLike = true) _ hmem
  unfold declarations
  rw [hplain, hlookup, hname]
  exact ⟨_, List.mem_singleton_self _, rfl, hlike, rfl⟩

/-- So it is in Ruby. -/
theorem Ruby.exists_type (hkind : (ownerKinds .ruby).contains n.kind = true)
    (hname : n.tree.field? "name" = some name) (h : declarations ctx n = .ok symbols) :
    ∃ c ∈ symbols, IsType ctx .ruby n (ctx.text name) c := by
  have hclass : ["class", "module"].contains n.kind = true := hkind
  have hplain : ["method", "singleton_method"].contains n.kind = false :=
    (by decide : ∀ kind ∈ ownerKinds .ruby, ["method", "singleton_method"].contains kind = false)
      _ (List.contains_iff_mem.mp hkind)
  unfold declarations at h
  rw [hplain, hclass, hname] at h
  obtain ⟨c, hc, h⟩ := Attempt.exists_of_bind_eq_ok h
  obtain ⟨base, -, hc⟩ := Attempt.exists_of_bind_eq_ok hc
  cases h
  cases hc
  refine ⟨_, List.mem_singleton_self _, rfl, ?_, rfl⟩
  dsimp only
  split <;> rfl

/-- Whether an owner has a name of its own: in a field for it, or as the type of an
implementation. -/
def hasOwnName (o : Tree) : Bool :=
  (o.field? "name").isSome || (o.kind == "impl_item" && (o.field? "type").isSome)

/-- An owner bears its own name, unless it is an implementation. -/
theorem ownerName_of_name (hkind : o.kind ≠ "impl_item") (hname : o.field? "name" = some name) :
    ownerName ctx (some o) = some (ctx.text name) := by
  rw [ownerName, if_neg (by simpa using hkind), Tree.nameNode?, hname]
  rfl

/-- An implementation gives its members the name that it has itself; without a type it has none. -/
theorem Rust.exists_type_of_impl (hkind : n.kind = "impl_item") {p : String}
    (howner : ownerName ctx (some n.tree) = some p) (hp : p ≠ "") :
    ∃ c ∈ declarations ctx n, IsType ctx .rust n p c := by
  have hkind' : n.tree.kind = "impl_item" := hkind
  rw [ownerName, if_pos (by rw [hkind']; rfl)] at howner
  have htext := Option.some.inj howner
  cases htype : n.tree.field? "type" with
  | none =>
      rw [htype] at htext
      exact absurd htext.symm hp
  | some type =>
      obtain ⟨c, hc, htype'⟩ : ∃ c ∈ declarations ctx n,
          IsType ctx .rust n (ctx.text (type.target?.getD type)) c :=
        exists_implementation hkind htype
      refine ⟨c, hc, htype'.called.trans ?_, htype'.classLike, htype'.span⟩
      rw [← htext, htype]
      cases htarget : type.target? with
      | none => simp [htarget, Context.text?, Context.text, Source.textOf?]
      | some target => simp [htarget, Context.text?, Context.text, Source.textOf?]

/-- **An owner with a name makes a class-like symbol** under the name that it gives its members. -/
theorem exists_type (hkind : (ownerKinds ctx.family).contains n.kind = true)
    (hnamed : hasOwnName n.tree = true) (hdelegate : n.kind ≠ "delegate_declaration")
    {p : String} (howner : ownerName ctx (some n.tree) = some p) (hp : p ≠ "")
    (h : declarations ctx n = .ok symbols) : ∃ c ∈ symbols, IsType ctx ctx.family n p c := by
  unfold declarations at h
  by_cases himpl : n.kind = "impl_item"
  · -- only one family has implementations
    cases hctx : ctx.family with
    | rust =>
        rw [hctx] at h
        cases h
        exact Rust.exists_type_of_impl himpl howner hp
    | _ =>
        rw [hctx, himpl] at hkind
        cases hkind
  · obtain ⟨name, hname⟩ : ∃ name, n.tree.field? "name" = some name := by
      have hkind' : (n.tree.kind == "impl_item") = false := beq_false_of_ne himpl
      rw [hasOwnName, hkind', Bool.false_and, Bool.or_false] at hnamed
      exact Option.isSome_iff_exists.mp hnamed
    rw [ownerName_of_name himpl hname] at howner
    cases howner
    cases hctx : ctx.family with
    | ecmascript =>
        rw [hctx] at h hkind
        exact Ecmascript.exists_type hkind hname h
    | python =>
        rw [hctx] at h hkind
        exact Python.exists_type hkind hname h
    | rust =>
        rw [hctx] at h hkind
        cases h
        have htrait : n.kind = "trait_item" := by simpa [ownerKinds, himpl] using hkind
        exact Rust.exists_type htrait hname
    | jvm =>
        rw [hctx] at h hkind
        exact Jvm.exists_type hkind hname h
    | csharp =>
        rw [hctx] at h hkind
        cases h
        exact CSharp.exists_type hkind hdelegate hname
    | php =>
        rw [hctx] at h hkind
        cases h
        exact Php.exists_type hkind hname
    | ruby =>
        rw [hctx] at h hkind
        exact Ruby.exists_type hkind hname h
    | go => rw [hctx] at hkind; cases hkind
    | c => rw [hctx] at hkind; cases hkind
    | generic => rw [hctx] at hkind; cases hkind

end Types

/-! ### Spans of owners -/

section Spans

variable {t : Tree} {a : Node} {family : Family}

/-- What a definition spans: its parent if this holds its decorators, else itself. -/
theorem wholeOf_cases (family : Family) (n : Node) :
    wholeOf family n = n.tree ∨
      ∃ p, n.parent? = some p ∧ family = .python ∧ p.kind = "decorated_definition" ∧
        wholeOf family n = p.tree := by
  unfold wholeOf
  split
  · cases hparent : n.parent? with
    | none => exact .inl rfl
    | some p =>
        rw [Option.map_some, Option.getD_some, Python.wholeOf]
        split
        · next hkind => exact .inr ⟨p, rfl, rfl, by simpa using hkind, rfl⟩
        · exact .inl rfl
  · exact .inl rfl

/-- A declaration stands below what it spans. -/
theorem mem_preorder_wholeOf (family : Family) (hn : Node.Of t n) :
    wholeOf family n ∈ t.preorder ∧ n.tree ∈ (wholeOf family n).preorder := by
  rcases wholeOf_cases family n with hwhole | ⟨p, hp, -, -, hwhole⟩
  · rw [hwhole]
    exact ⟨hn.tree_mem_preorder, Tree.self_mem_preorder _⟩
  · obtain ⟨hparent, hchild⟩ := hn.parent hp
    rw [hwhole]
    exact ⟨hparent.tree_mem_preorder, Tree.child_mem_preorder hchild⟩

/-- What a member spans stands below its owner. -/
theorem wholeOf_mem_preorder (hn : Node.Of t n) (ha : a.IsAbove n)
    (hkind : (ownerKinds family).contains a.kind = true) :
    wholeOf family n ∈ a.tree.preorder := by
  rcases wholeOf_cases family n with hwhole | ⟨p, hp, rfl, hdecorated, hwhole⟩
  · rw [hwhole]
    exact (ha.mem_preorder hn).2
  · rw [hwhole]
    cases ha with
    | parent hparent =>
        -- the parent holds decorators, so it is no class
        cases hparent.symm.trans hp
        rw [hdecorated] at hkind
        cases hkind
    | step hparent ha =>
        cases hparent.symm.trans hp
        exact (ha.mem_preorder (hn.parent hp).1).2

/-- **An owner spans its members.** -/
theorem contains_wholeOf (hinside : t.Inside) (hn : Node.Of t n) (ha : a.IsAbove n)
    (hkind : (ownerKinds family).contains a.kind = true) :
    (ctx.span (wholeOf family a)).contains (ctx.span (wholeOf family n)) = true := by
  obtain ⟨hwhole, htree⟩ := mem_preorder_wholeOf family (ha.mem_preorder hn).1
  have hbelow := Tree.mem_preorder_trans htree (wholeOf_mem_preorder hn ha hkind)
  obtain ⟨hstart, hstop⟩ := hinside.le hwhole hbelow
  rw [Span.contains, Bool.and_eq_true]
  exact ⟨Position.notAfter_inSource_of_le ctx.source hstart,
    Position.notAfter_inSource_of_le ctx.source hstop⟩

end Spans

end Extract

end Concordance
