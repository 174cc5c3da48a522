import Concordance.Proofs.Extract.UseTree
import Concordance.Proofs.Tree.Place

/-!
# Comments in use declarations

A comment is a named part of a tree wherever it stands. Without its comments, a tree has the same parts
in the same places (`Tree.field?_withoutComments`), and the leaves of a use tree are the same less those
that are comments (`Rust.leaves_withoutComments`).

A comment between the items of a group is read as if it were a path. So the imports of a declaration are
those of the declaration without its comments just if no comment stands there
(`Rust.imports_withoutComments`).
-/

namespace Concordance

namespace Tree

mutual

/-- The tree without the comments in it. -/
def withoutComments : Tree → Tree
  | .node info children => .node info (uncommentedOnes children)

/-- The trees that are no comments, without the comments in them. -/
def uncommentedOnes : List Tree → List Tree
  | [] => []
  | t :: ts => if t.isComment then uncommentedOnes ts else t.withoutComments :: uncommentedOnes ts

end

/-- Leaving the comments out of a list leaves them out of what stays. -/
theorem uncommentedOnes_eq (ts : List Tree) :
    uncommentedOnes ts = (ts.filter fun t => !t.isComment).map withoutComments := by
  induction ts with
  | nil => rfl
  | cons t ts ih =>
      rw [uncommentedOnes, ih]
      cases h : t.isComment <;> simp [h]

section Parts

variable (t : Tree)

@[simp]
theorem info_withoutComments : t.withoutComments.info = t.info := by
  cases t with
  | node info children => rw [withoutComments, Tree.info, Tree.info]

@[simp]
theorem kind_withoutComments : t.withoutComments.kind = t.kind := by
  rw [kind, info_withoutComments, kind]

/-- The children are those that are no comments, without the comments in them. -/
theorem children_withoutComments :
    t.withoutComments.children =
      (t.children.filter fun c => !c.isComment).map withoutComments := by
  cases t with
  | node info children => rw [withoutComments, Tree.children, Tree.children, uncommentedOnes_eq]

/-- So it is with the named children. -/
theorem namedChildren_withoutComments :
    t.withoutComments.namedChildren =
      (t.namedChildren.filter fun c => !c.isComment).map withoutComments := by
  rw [namedChildren, children_withoutComments, List.filter_map, namedChildren, List.filter_filter,
    List.filter_filter]
  congr 1
  apply List.filter_congr
  intro c _
  rw [Function.comp, info_withoutComments, Bool.and_comm]

end Parts

/-- What is found as a field bears the name of the field. -/
theorem field_of_field? {name : String} {t c : Tree} (h : t.field? name = some c) :
    c.info.field = some name := by
  rw [field?] at h
  simpa using List.find?_some h

/-- The fields of the parts of a use declaration. -/
def useFields : List String := ["argument", "path", "list", "alias"]

/-- No comment in the tree takes the place of a part of a use declaration. -/
def CommentsApart (t : Tree) : Prop :=
  ∀ c ∈ t.preorder, c.isComment → ∀ name ∈ useFields, c.info.field ≠ some name

/-- What holds of a tree whose comments stand apart holds of its children. -/
theorem CommentsApart.child {t c : Tree} (h : t.CommentsApart) (hc : c ∈ t.children) :
    c.CommentsApart :=
  fun u hu => h u (mem_preorder_of_child hc hu)

/-- The parts of a use declaration are the same without the comments. -/
theorem field?_withoutComments {t : Tree} (h : t.CommentsApart) {name : String}
    (hname : name ∈ useFields) :
    t.withoutComments.field? name = (t.field? name).map withoutComments := by
  have hsame : (t.children.filter fun c => !c.isComment).filter (fun c => c.info.field == some name) =
      t.children.filter fun c => c.info.field == some name := by
    rw [List.filter_filter]
    apply List.filter_congr
    intro c hc
    cases hfield : c.info.field == some name with
    | false => rw [Bool.false_and]
    | true =>
        rw [Bool.true_and, Bool.not_eq_true', ← Bool.not_eq_true]
        intro hcomment
        exact h c (child_mem_preorder hc) hcomment name hname (beq_iff_eq.mp hfield)
  have hmap : (fun c : Tree => c.info.field == some name) ∘ withoutComments =
      fun c => c.info.field == some name := by
    funext c
    rw [Function.comp, info_withoutComments]
  rw [field?, field?, ← List.head?_filter, ← List.head?_filter, children_withoutComments,
    List.filter_map, hmap, hsame, List.head?_map]

end Tree

namespace Extract

/-- A tree without its comments has the same text. -/
theorem Context.text_withoutComments (ctx : Context) (t : Tree) :
    ctx.text t.withoutComments = ctx.text t := by
  rw [text, text, Source.textOf, Source.textOf, Tree.start, Tree.stop, Tree.info_withoutComments,
    Tree.start, Tree.stop]

theorem Context.span_withoutComments (ctx : Context) (t : Tree) :
    ctx.span t.withoutComments = ctx.span t := by
  rw [span, span, Span.ofTree, Span.ofTree, Tree.start, Tree.stop, Tree.info_withoutComments,
    Tree.start, Tree.stop]

theorem Context.text?_withoutComments (ctx : Context) (t : Option Tree) :
    ctx.text? (t.map Tree.withoutComments) = ctx.text? t := by
  cases t with
  | none => rfl
  | some t => exact ctx.text_withoutComments t

theorem Context.nonEmptyText?_withoutComments (ctx : Context) (t : Option Tree) :
    ctx.nonEmptyText? (t.map Tree.withoutComments) = ctx.nonEmptyText? t := by
  rw [nonEmptyText?, ctx.text?_withoutComments, nonEmptyText?]

namespace Rust

section Parts

variable {ctx : Context} {t : Tree} (h : t.CommentsApart)

include h

/-- A group of uses has the items that are no comments. -/
theorem items?_withoutComments :
    items? t.withoutComments =
      (items? t).map fun items => (items.filter fun c => !c.isComment).map Tree.withoutComments := by
  unfold items?
  rw [Tree.kind_withoutComments, Tree.field?_withoutComments h (by decide),
    Tree.namedChildren_withoutComments]
  split
  · cases t.field? "list" with
    | none => rfl
    | some list =>
        change some list.withoutComments.namedChildren = _
        rw [Tree.namedChildren_withoutComments]
        rfl
  · split <;> rfl

/-- The path of a group does not depend on comments. -/
theorem groupPath_withoutComments : groupPath ctx t.withoutComments = groupPath ctx t := by
  unfold groupPath
  rw [Tree.kind_withoutComments, Tree.field?_withoutComments h (by decide),
    ctx.text?_withoutComments]

/-- Neither does a single use. -/
theorem useLeaf_withoutComments (above : String) :
    useLeaf ctx above t.withoutComments = useLeaf ctx above t := by
  unfold useLeaf
  rw [Tree.kind_withoutComments, Tree.field?_withoutComments h (by decide),
    Tree.field?_withoutComments h (by decide), ctx.text?_withoutComments,
    ctx.nonEmptyText?_withoutComments, ctx.text_withoutComments]

end Parts

/-- A comment is no group. -/
theorem items?_of_isComment {t : Tree} (h : t.isComment) : items? t = none := by
  rw [items?_eq_none_iff]
  constructor <;>
  · intro hkind
    rw [Tree.isComment, hkind] at h
    exact absurd h (by decide +kernel)

/-- In the items of a group comments stand apart as in the group. -/
theorem commentsApart_of_mem_items {t c : Tree} {items : List Tree} (hitems : items? t = some items)
    (hc : c ∈ items) (h : t.CommentsApart) : c.CommentsApart := by
  rcases of_mem_items hitems hc with hchild | ⟨list, hlist, hchild⟩
  · exact h.child hchild
  · exact (h.child hlist).child hchild

/-- What is dropped from a list may as well give nothing. -/
theorem flatMap_filter {α β : Type} {p : α → Bool} {xs : List α} {f g : α → List β}
    (hkept : ∀ x ∈ xs, p x → g x = f x) (hdropped : ∀ x ∈ xs, p x = false → f x = []) :
    (xs.filter p).flatMap g = xs.flatMap f := by
  induction xs with
  | nil => rfl
  | cons x xs ih =>
      obtain ⟨hx, hkept⟩ := List.forall_mem_cons.mp hkept
      obtain ⟨hx', hdropped⟩ := List.forall_mem_cons.mp hdropped
      cases hp : p x with
      | true =>
          rw [List.filter_cons_of_pos hp, List.flatMap_cons, List.flatMap_cons, hx hp,
            ih hkept hdropped]
      | false =>
          rw [List.filter_cons_of_neg (by simp [hp]), List.flatMap_cons, hx' hp, List.nil_append,
            ih hkept hdropped]

/-- **The leaves of a use tree without its comments** are those that are no comments. -/
theorem leaves_withoutComments {ctx : Context} {t : Tree} (h : t.CommentsApart)
    (hplain : t.isComment = false) (around : List String) :
    leaves ctx around t.withoutComments =
      ((leaves ctx around t).filter fun l => !l.tree.isComment).map fun l =>
        ⟨l.around, l.tree.withoutComments⟩ := by
  induction t using use_induction generalizing around with
  | leaf t hleaf =>
      have hleaf' : items? t.withoutComments = none := by rw [items?_withoutComments h, hleaf]; rfl
      rw [leaves_leaf hleaf', leaves_leaf hleaf, List.filter_cons_of_pos (by simp [hplain])]
      rfl
  | group t items hitems ih =>
      have hitems' : items? t.withoutComments =
          some ((items.filter fun c => !c.isComment).map Tree.withoutComments) := by
        rw [items?_withoutComments h, hitems]
        rfl
      rw [leaves_group hitems', leaves_group hitems, groupPath_withoutComments h,
        List.filter_flatMap, List.map_flatMap, List.flatMap_map]
      apply flatMap_filter
      · intro c hc hplain
        exact ih c hc (commentsApart_of_mem_items hitems hc h) (by simpa using hplain) _
      · intro c hc hcomment
        have hcomment : c.isComment = true := by simpa using hcomment
        rw [leaves_leaf (items?_of_isComment hcomment),
          List.filter_cons_of_neg (by simp [hcomment])]
        rfl

/-- So they do in its leaves. -/
theorem commentsApart_of_mem_leaves {ctx : Context} {t : Tree} {around : List String} {l : Leaf}
    (h : t.CommentsApart) (hl : l ∈ leaves ctx around t) : l.tree.CommentsApart := by
  induction t using use_induction generalizing around with
  | leaf t hleaf =>
      rw [leaves_leaf hleaf, List.mem_singleton] at hl
      rw [hl]
      exact h
  | group t items hitems ih =>
      rw [leaves_group hitems] at hl
      obtain ⟨c, hc, hl⟩ := List.mem_flatMap.mp hl
      exact ih c hc (commentsApart_of_mem_items hitems hc h) hl

/-! ### Whole declarations -/

/-- The leaves of a use declaration. -/
def useLeaves (ctx : Context) (t : Tree) : List Leaf :=
  (t.field? "argument").elim [] (leaves ctx [])

/-- What some leaves bring in. -/
def itemsOf (ctx : Context) (ls : List Leaf) : List UseItem :=
  ls.map fun l => useLeaf ctx l.above l.tree

/-- The imports of a use declaration are its leaves, grouped. -/
theorem imports_eq {ctx : Context} {t : Tree} (hkind : t.kind = "use_declaration") :
    imports ctx t = groupItems ctx t (itemsOf ctx (useLeaves ctx t)) := by
  rw [imports, hkind, useLeaves]
  cases t.field? "argument" with
  | none => rfl
  | some argument =>
      change groupItems ctx t (useItems ctx "" argument) = _
      rw [show useItems ctx "" argument = _ from useItems_eq_map_leaves ctx argument []]
      rfl

/-- Without its comments a use has the leaves that are no comments. -/
theorem useLeaves_withoutComments {ctx : Context} {t : Tree} (h : t.CommentsApart) :
    useLeaves ctx t.withoutComments =
      ((useLeaves ctx t).filter fun l => !l.tree.isComment).map fun l =>
        ⟨l.around, l.tree.withoutComments⟩ := by
  rw [useLeaves, useLeaves, Tree.field?_withoutComments h (by decide)]
  cases hargument : t.field? "argument" with
  | none => rfl
  | some argument =>
      have hchild := Tree.mem_of_field? hargument
      refine leaves_withoutComments (h.child hchild) ?_ []
      rw [← Bool.not_eq_true]
      intro hcomment
      exact h argument (Tree.child_mem_preorder hchild) hcomment "argument" (by decide)
        (Tree.field_of_field? hargument)

theorem commentsApart_of_mem_useLeaves {ctx : Context} {t : Tree} {l : Leaf} (h : t.CommentsApart)
    (hl : l ∈ useLeaves ctx t) : l.tree.CommentsApart := by
  rw [useLeaves] at hl
  cases hargument : t.field? "argument" with
  | none =>
      rw [hargument] at hl
      cases hl
  | some argument =>
      rw [hargument] at hl
      exact commentsApart_of_mem_leaves (h.child (Tree.mem_of_field? hargument)) hl

/-- A leaf brings in the same without the comments in it. -/
theorem itemsOf_withoutComments {ctx : Context} {ls : List Leaf}
    (h : ∀ l ∈ ls, l.tree.CommentsApart) :
    itemsOf ctx (ls.map fun l => ⟨l.around, l.tree.withoutComments⟩) = itemsOf ctx ls := by
  rw [itemsOf, List.map_map, itemsOf]
  apply List.map_congr_left
  intro l hl
  exact useLeaf_withoutComments (h l hl) l.above

/-- Grouping takes no account of the comments. -/
theorem groupItems_withoutComments (ctx : Context) (t : Tree) (items : List UseItem) :
    groupItems ctx t.withoutComments items = groupItems ctx t items := by
  unfold groupItems importAt
  rw [ctx.span_withoutComments]

/-- What an import says apart from its place: the module, the names and the kind. -/
def outline (i : Import) : String × List ImportSpecifier × ImportKind :=
  (i.source, i.specifiers, i.kind)

/-- No item is lost or doubled, so imports that say the same are of as many items. -/
theorem length_eq_of_outline {ctx : Context} {t t' : Tree} {items items' : List UseItem}
    (h : (groupItems ctx t items).map outline = (groupItems ctx t' items').map outline) :
    items.length = items'.length := by
  have hitems : ∀ (t : Tree) (items : List UseItem),
      (((groupItems ctx t items).map outline).flatMap fun o =>
        o.2.1.map (UseItem.mk o.1)).Perm items := by
    intro t items
    rw [List.flatMap_map]
    exact (regrouped_groupItems ctx t items).each_once
  rw [← (hitems t items).length_eq, h, (hitems t' items').length_eq]

/-- **Comments in a use declaration.** A declaration brings in what its leaves do, and a comment between
the items of a group is a leaf. Without the comments, it brings in what the other leaves do. So the
imports say the same with and without the comments just if no leaf is a comment. -/
theorem imports_withoutComments {ctx : Context} {t : Tree} (hkind : t.kind = "use_declaration")
    (h : t.CommentsApart) :
    imports ctx t = groupItems ctx t (itemsOf ctx (useLeaves ctx t)) ∧
      imports ctx t.withoutComments =
        groupItems ctx t (itemsOf ctx ((useLeaves ctx t).filter fun l => !l.tree.isComment)) ∧
      ((imports ctx t.withoutComments).map outline = (imports ctx t).map outline ↔
        ∀ l ∈ useLeaves ctx t, l.tree.isComment = false) := by
  have hwithout : imports ctx t.withoutComments =
      groupItems ctx t (itemsOf ctx ((useLeaves ctx t).filter fun l => !l.tree.isComment)) := by
    have hapart : ∀ l ∈ (useLeaves ctx t).filter fun l => !l.tree.isComment,
        l.tree.CommentsApart :=
      fun l hl => commentsApart_of_mem_useLeaves h (List.mem_of_mem_filter hl)
    rw [imports_eq (by rw [Tree.kind_withoutComments, hkind]), groupItems_withoutComments,
      useLeaves_withoutComments h, itemsOf_withoutComments hapart]
  refine ⟨imports_eq hkind, hwithout, ?_⟩
  rw [hwithout, imports_eq hkind]
  constructor
  · intro hsame l hl
    have hlength := length_eq_of_outline hsame
    rw [itemsOf, itemsOf, List.length_map, List.length_map,
      List.length_filter_eq_length_iff] at hlength
    simpa using hlength l hl
  · intro hnone
    rw [List.filter_eq_self.mpr]
    intro l hl
    rw [hnone l hl]
    rfl

/-- The source `use a::{b, /* c */ d};`. -/
def annotatedSource : Context :=
  { source := Utf8.bytes "use a::\x7bb, /* c */ d\x7d;", file := "lib.rs"
    language := "rust", family := .rust }

/-- The declaration of the annotated source. -/
def annotatedUse : Tree :=
  .node ⟨"use_declaration", true, 0, 22, none⟩
    [.node ⟨"scoped_use_list", true, 4, 21, some "argument"⟩
      [.node ⟨"identifier", true, 4, 5, some "path"⟩ [],
        .node ⟨"use_list", true, 7, 21, some "list"⟩
          [.node ⟨"identifier", true, 8, 9, none⟩ [], .node ⟨"block_comment", true, 11, 18, none⟩ [],
            .node ⟨"identifier", true, 19, 20, none⟩ []]]]

theorem commentsApart_annotatedUse : annotatedUse.CommentsApart := by
  have hcomments : ∀ c ∈ annotatedUse.preorder, c.isComment → c.info.field = none := by
    decide +kernel
  intro c hc hcomment name _
  rw [hcomments c hc hcomment]
  nofun

/-- The comment is imported from `a`, next to `b` and `d`. -/
theorem imports_withoutComments_annotated :
    (imports annotatedSource annotatedUse).map outline =
        [("a", [{ name := "b" }, { name := "/* c */" }, { name := "d" }], .named)] ∧
      (imports annotatedSource annotatedUse.withoutComments).map outline =
        [("a", [{ name := "b" }, { name := "d" }], .named)] ∧
      ¬ ∀ l ∈ useLeaves annotatedSource annotatedUse, l.tree.isComment = false := by
  have hwith : (imports annotatedSource annotatedUse).map outline =
      [("a", [{ name := "b" }, { name := "/* c */" }, { name := "d" }], .named)] := by
    decide +kernel
  have hwithout : (imports annotatedSource annotatedUse.withoutComments).map outline =
      [("a", [{ name := "b" }, { name := "d" }], .named)] := by
    decide +kernel
  refine ⟨hwith, hwithout, ?_⟩
  rw [← (imports_withoutComments rfl commentsApart_annotatedUse).2.2, hwith, hwithout]
  decide +kernel

end Rust

end Extract

end Concordance
