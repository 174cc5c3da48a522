import Concordance.Extract.Import
import Concordance.Proofs.Chars.Utf8
import Concordance.Proofs.Extract.Distinct
import Concordance.Proofs.Extract.UsePath
import Concordance.Proofs.Source.Point
import Mathlib.Data.List.Forall2

/-!
# Use trees written out

A use declaration has a tree of groups: `a::{b::{c, d as e}, f::*}`. It means the same as the paths of
its leaves written out: `a::b::c`, `a::b::d as e` and `a::f::*`.

`leaves` lists the leaves of a tree with the paths of the groups around them, and the items of the
declaration are the items of these leaves (`useItems_eq_map_leaves`). The item of a leaf is what the
leaf would give if it stood alone in a source in which the groups are written out
(`WrittenOut.useLeaf_eq`). There is one exception, a path such as `::b` in a group
(`WrittenOut.useLeaf_rooted`). The items are then sorted by their modules (`Regrouped`). The main
statement is `use_groups_written_out`.
-/

namespace Concordance.Extract.Rust

/-! ### Groups and leaves -/

/-- The items of a group, which is `path::{…}` or `{…}`. -/
def items? (t : Tree) : Option (List Tree) :=
  if t.kind == "scoped_use_list" then some ((t.field? "list").elim [] Tree.namedChildren)
  else if t.kind == "use_list" then some t.namedChildren
  else none

/-- The path that a group puts before its items, if it has one. -/
def groupPath (ctx : Context) (t : Tree) : List String :=
  if t.kind == "scoped_use_list" then [ctx.text? (t.field? "path")] else []

/-- The items of a group are children of it, or of its list. -/
theorem of_mem_items {t c : Tree} {items : List Tree} (h : items? t = some items) (hc : c ∈ items) :
    c ∈ t.children ∨ ∃ list ∈ t.children, c ∈ list.children := by
  unfold items? at h
  split at h
  · cases h
    cases hlist : t.field? "list" with
    | none =>
        rw [hlist] at hc
        cases hc
    | some list =>
        rw [hlist] at hc
        exact .inr ⟨list, Tree.mem_of_field? hlist, Tree.mem_of_mem_namedChildren hc⟩
  · split at h
    · cases h
      exact .inl (Tree.mem_of_mem_namedChildren hc)
    · cases h

/-- The items of a group are smaller than the group. -/
theorem size_lt_of_mem_items {t c : Tree} {items : List Tree} (h : items? t = some items)
    (hc : c ∈ items) : c.size < t.size := by
  rcases of_mem_items h hc with hchild | ⟨list, hlist, hchild⟩
  · exact Tree.size_lt_of_mem hchild
  · exact Nat.lt_trans (Tree.size_lt_of_mem hchild) (Tree.size_lt_of_mem hlist)

/-- What holds of every leaf, and of a group if it holds of its items, holds of every use tree. -/
theorem use_induction {motive : Tree → Prop}
    (group : ∀ t items, items? t = some items → (∀ c ∈ items, motive c) → motive t)
    (leaf : ∀ t, items? t = none → motive t) (t : Tree) : motive t := by
  cases h : items? t with
  | none => exact leaf t h
  | some items =>
      apply group t items h
      intro c hc
      have := size_lt_of_mem_items h hc
      exact use_induction group leaf c
termination_by t.size

/-- A leaf of a use tree, with the paths of the groups around it from the outside in. -/
structure Leaf where
  around : List String
  tree : Tree

/-- The leaves of a use tree in order. -/
def leaves (ctx : Context) (around : List String) (t : Tree) : List Leaf :=
  match h : items? t with
  | none => [⟨around, t⟩]
  | some items => items.attach.flatMap fun ⟨c, hc⟩ =>
      have := size_lt_of_mem_items h hc
      leaves ctx (around ++ groupPath ctx t) c
termination_by t.size

section Leaves

variable {ctx : Context} {t : Tree} {items : List Tree}

/-- A single use is its own leaf. -/
theorem leaves_leaf (h : items? t = none) (around : List String) :
    leaves ctx around t = [⟨around, t⟩] := by
  rw [leaves]
  split
  · rfl
  · next heq =>
    rw [h] at heq
    cases heq

/-- The leaves of a group are those of its items, with the path of the group around them. -/
theorem leaves_group (h : items? t = some items) (around : List String) :
    leaves ctx around t = items.flatMap (leaves ctx (around ++ groupPath ctx t)) := by
  rw [leaves]
  split
  · next heq =>
    rw [h] at heq
    cases heq
  · next items' heq =>
    rw [h] at heq
    cases heq
    rw [List.flatMap_subtype (fun _ _ => rfl), List.unattach_attach]

/-- A single use gives one item. -/
theorem useItems_leaf (h : items? t = none) (above : String) :
    useItems ctx above t = [useLeaf ctx above t] := by
  unfold items? at h
  rw [useItems]
  split at h
  · cases h
  · next hscoped =>
    split at h
    · cases h
    · next hlist => rw [if_neg hscoped, if_neg hlist]

/-- The items of a group are read below its path. -/
theorem useItems_group (h : items? t = some items) (above : String) :
    useItems ctx above t =
      items.flatMap (useItems ctx ((groupPath ctx t).foldl (Text.joinPath "::") above)) := by
  unfold items? at h
  unfold groupPath
  rw [useItems]
  split at h
  · next hscoped =>
    cases h
    rw [if_pos hscoped, if_pos hscoped]
    split
    · next hnone =>
      rw [hnone]
      rfl
    · next list hsome =>
      dsimp only
      rw [List.flatMap_subtype (fun _ _ => rfl), List.unattach_attach, hsome]
      rfl
  · next hscoped =>
    split at h
    · next hlist =>
      cases h
      rw [if_neg hscoped, if_pos hlist, if_neg hscoped, List.flatMap_subtype (fun _ _ => rfl),
        List.unattach_attach]
      rfl
    · cases h

end Leaves

/-- The path of the groups around a leaf, as it is put together group by group. -/
def Leaf.above (l : Leaf) : String := l.around.foldl (Text.joinPath "::") ""

/-- **One item for each leaf**, in order, read below the groups around it. -/
theorem useItems_eq_map_leaves (ctx : Context) (t : Tree) (around : List String) :
    useItems ctx (around.foldl (Text.joinPath "::") "") t =
      (leaves ctx around t).map fun l => useLeaf ctx l.above l.tree := by
  induction t using use_induction generalizing around with
  | leaf t h => rw [useItems_leaf h, leaves_leaf h, List.map_singleton, Leaf.above]
  | group t items h ih =>
      rw [useItems_group h, leaves_group h, List.map_flatMap, ← List.foldl_append]
      exact List.flatMap_congr fun c hc => ih c hc _

/-! ### Leaves alone -/

/-- The path that a leaf is written with, which of `path as name` is the first part alone. -/
def leafPath (ctx : Context) (t : Tree) : String :=
  if t.kind == "use_as_clause" then ctx.text? (t.field? "path") else ctx.text t

/-- A leaf that stands alone, in a source of its own, with the paths of all groups around another leaf
written out before what that leaf says. -/
structure WrittenOut (ctx : Context) (l : Leaf) (ctx' : Context) (alone : Tree) : Prop where
  kind : alone.kind = l.tree.kind
  path : leafPath ctx' alone = "::".intercalate (l.around ++ [leafPath ctx l.tree])
  newName : l.tree.kind = "use_as_clause" →
    ctx'.nonEmptyText? (alone.field? "alias") = ctx.nonEmptyText? (l.tree.field? "alias")

/-- Whether a leaf in a group has a path that is one name behind a colon or two. A wildcard has no
name of its own. -/
def Leaf.isRooted (ctx : Context) (l : Leaf) : Bool :=
  !l.around.isEmpty && l.tree.kind != "use_wildcard" && Text.isRooted (leafPath ctx l.tree)

section Kinds

variable {ctx : Context} {t : Tree} (above : String)

/-- A use under another name: the path up to the last name, the name, and the other name. -/
theorem useLeaf_renamed (h : t.kind = "use_as_clause") :
    useLeaf ctx above t =
      ⟨Text.joinPath "::" above (Text.splitLast "::" (leafPath ctx t)).1,
        { name := (Text.splitLast "::" (leafPath ctx t)).2
          newName := ctx.nonEmptyText? (t.field? "alias") }⟩ := by
  rw [useLeaf, leafPath, h]
  rfl

/-- A use of everything: the path before the star. -/
theorem useLeaf_wildcard (h : t.kind = "use_wildcard") :
    useLeaf ctx above t =
      ⟨Text.joinPath "::" above (Text.wildcardSource (leafPath ctx t)),
        { name := "*", isWhole := true }⟩ := by
  rw [useLeaf, leafPath, h]
  rfl

/-- Any other use: the path up to the last name, and the name. -/
theorem useLeaf_plain (hrenamed : t.kind ≠ "use_as_clause") (hwildcard : t.kind ≠ "use_wildcard")
    (hself : t.kind ≠ "self") :
    useLeaf ctx above t =
      ⟨Text.orElse (Text.joinPath "::" above (Text.splitLast "::" (leafPath ctx t)).1)
          (Text.splitLast "::" (leafPath ctx t)).2,
        { name := (Text.splitLast "::" (leafPath ctx t)).2 }⟩ := by
  rw [useLeaf, leafPath, if_neg (by simpa using hrenamed), if_neg (by simpa using hwildcard),
    if_neg (by simpa using hself), if_neg (by simpa using hrenamed)]

end Kinds

/-- The paths of groups in groups are joined by colons. -/
theorem foldl_joinPath {paths : List String} (h : ∀ p ∈ paths, Text.isGroupPath p) :
    paths.foldl (Text.joinPath "::") "" = "::".intercalate paths := by
  induction paths using List.reverseRecOn with
  | nil => rfl
  | append_singleton front last ih =>
      obtain ⟨hfront, hlast⟩ := List.forall_mem_append.mp h
      have hlast : Text.isGroupPath last := hlast last (by simp)
      rw [List.foldl_append, ih hfront, List.foldl_cons, List.foldl_nil]
      by_cases hne : front = []
      · subst hne
        rw [List.nil_append, String.intercalate_singleton]
        rfl
      · rw [String.intercalate_append_of_ne_nil hne (by simp), String.intercalate_singleton,
          Text.joinPath_of_ne (Text.ne_empty_of_isGroupPath (Text.isGroupPath_intercalate hne hfront))
            (Text.ne_empty_of_isGroupPath hlast)]

section Alone

variable {ctx ctx' : Context} {l : Leaf} {alone : Tree}

/-- Around a leaf in groups is the path of a group. -/
theorem Leaf.isGroupPath_above (hgroups : ∀ p ∈ l.around, Text.isGroupPath p)
    (hne : l.around ≠ []) : Text.isGroupPath l.above := by
  rw [Leaf.above, foldl_joinPath hgroups]
  exact Text.isGroupPath_intercalate hne hgroups

/-- What is written out for a leaf in groups is its path below theirs. -/
theorem WrittenOut.path_below (h : WrittenOut ctx l ctx' alone)
    (hgroups : ∀ p ∈ l.around, Text.isGroupPath p) (hne : l.around ≠ []) :
    leafPath ctx' alone = l.above ++ "::" ++ leafPath ctx l.tree := by
  rw [h.path, String.intercalate_append_of_ne_nil hne (by simp), String.intercalate_singleton,
    Leaf.above, foldl_joinPath hgroups]

/-- A leaf in no group is written out as it is. -/
theorem WrittenOut.path_bare (h : WrittenOut ctx l ctx' alone) (hnil : l.around = []) :
    leafPath ctx' alone = leafPath ctx l.tree ∧ l.above = "" := by
  rw [h.path, Leaf.above, hnil, List.nil_append, String.intercalate_singleton]
  exact ⟨rfl, rfl⟩

/-- A path that is written out is cut like the path of the leaf, the groups before it. -/
theorem WrittenOut.splitLast_path (h : WrittenOut ctx l ctx' alone)
    (hgroups : ∀ p ∈ l.around, Text.isGroupPath p) (hwildcard : l.tree.kind ≠ "use_wildcard")
    (hrooted : l.isRooted ctx = false) :
    Text.splitLast "::" (leafPath ctx' alone) =
      (Text.joinPath "::" l.above (Text.splitLast "::" (leafPath ctx l.tree)).1,
        (Text.splitLast "::" (leafPath ctx l.tree)).2) := by
  by_cases hne : l.around = []
  · obtain ⟨hpath, habove⟩ := h.path_bare hne
    rw [hpath, habove]
    rfl
  · have hpath : Text.isRooted (leafPath ctx l.tree) = false := by
      simpa [Leaf.isRooted, hne, hwildcard] using hrooted
    rw [h.path_below hgroups hne]
    exact Text.splitLast_below (Text.ne_empty_of_isGroupPath (l.isGroupPath_above hgroups hne)) hpath

/-- A use of everything that is written out on its own has the joined path. -/
theorem WrittenOut.wildcardSource_path (h : WrittenOut ctx l ctx' alone)
    (hgroups : ∀ p ∈ l.around, Text.isGroupPath p) :
    Text.wildcardSource (leafPath ctx' alone) =
      Text.joinPath "::" l.above (Text.wildcardSource (leafPath ctx l.tree)) := by
  by_cases hne : l.around = []
  · obtain ⟨hpath, habove⟩ := h.path_bare hne
    rw [hpath, habove]
    rfl
  · rw [h.path_below hgroups hne]
    exact Text.wildcardSource_below (l.isGroupPath_above hgroups hne) _

/-- **A leaf that is not rooted** gives the item that it gives alone, written out. -/
theorem WrittenOut.useLeaf_eq (h : WrittenOut ctx l ctx' alone)
    (hgroups : ∀ p ∈ l.around, Text.isGroupPath p) (hself : l.tree.kind ≠ "self")
    (hrooted : l.isRooted ctx = false) : useLeaf ctx' "" alone = useLeaf ctx l.above l.tree := by
  by_cases hrenamed : l.tree.kind = "use_as_clause"
  · have hwildcard : l.tree.kind ≠ "use_wildcard" := by rw [hrenamed]; decide
    rw [useLeaf_renamed _ (h.kind.trans hrenamed), useLeaf_renamed _ hrenamed,
      h.splitLast_path hgroups hwildcard hrooted, h.newName hrenamed]
    rfl
  · by_cases hwildcard : l.tree.kind = "use_wildcard"
    · rw [useLeaf_wildcard _ (h.kind.trans hwildcard), useLeaf_wildcard _ hwildcard,
        h.wildcardSource_path hgroups]
      rfl
    · rw [useLeaf_plain _ (h.kind ▸ hrenamed) (h.kind ▸ hwildcard) (h.kind ▸ hself),
        useLeaf_plain _ hrenamed hwildcard hself, h.splitLast_path hgroups hwildcard hrooted]
      rfl

/-- The source of a leaf that is no wildcard and is written with colons in its path. -/
theorem source_useLeaf (ctx : Context) (above : String) {t : Tree}
    (hwildcard : t.kind ≠ "use_wildcard") (hself : t.kind ≠ "self")
    (h : Text.joinPath "::" above (Text.splitLast "::" (leafPath ctx t)).1 ≠ "") :
    (useLeaf ctx above t).source =
        Text.joinPath "::" above (Text.splitLast "::" (leafPath ctx t)).1 ∧
      (useLeaf ctx above t).specifier.name = (Text.splitLast "::" (leafPath ctx t)).2 := by
  by_cases hrenamed : t.kind = "use_as_clause"
  · rw [useLeaf_renamed _ hrenamed]
    exact ⟨rfl, rfl⟩
  · rw [useLeaf_plain _ hrenamed hwildcard hself]
    refine ⟨?_, rfl⟩
    rw [Text.orElse, if_neg (by simpa using h)]

/-- **A rooted leaf** takes its name from the groups around it; alone, it would take it from the same
path with colons at its end. -/
theorem WrittenOut.useLeaf_rooted (h : WrittenOut ctx l ctx' alone)
    (hgroups : ∀ p ∈ l.around, Text.isGroupPath p) (hself : l.tree.kind ≠ "self")
    (hrooted : l.isRooted ctx) :
    (useLeaf ctx l.above l.tree).source = "::".intercalate l.around ∧
      (useLeaf ctx l.above l.tree).specifier.name = (Text.splitLast "::" (leafPath ctx l.tree)).2 ∧
      useLeaf ctx' "" alone ≠ useLeaf ctx l.above l.tree := by
  simp only [Leaf.isRooted, Bool.and_eq_true, Bool.not_eq_true', List.isEmpty_eq_false_iff,
    bne_iff_ne] at hrooted
  obtain ⟨⟨hne, hwildcard⟩, hpath⟩ := hrooted
  have habove : l.above ≠ "" := Text.ne_empty_of_isGroupPath (l.isGroupPath_above hgroups hne)
  obtain ⟨hfront, colons, hcolons, hbelow⟩ := Text.splitLast_below_rooted l.above hpath
  have hjoin : Text.joinPath "::" l.above (Text.splitLast "::" (leafPath ctx l.tree)).1 = l.above := by
    rw [hfront, Text.joinPath_empty]
  obtain ⟨hsource, hname⟩ := source_useLeaf ctx l.above hwildcard hself (hjoin.trans_ne habove)
  rw [hjoin] at hsource
  refine ⟨hsource.trans (foldl_joinPath hgroups), hname, ?_⟩
  intro heq
  rw [← h.path_below hgroups hne] at hbelow
  have hcut : (Text.splitLast "::" (leafPath ctx' alone)).1 ≠ "" := by
    rw [hbelow]
    simp [habove]
  have hother : (useLeaf ctx' "" alone).source = (Text.splitLast "::" (leafPath ctx' alone)).1 :=
    (source_useLeaf ctx' "" (h.kind ▸ hwildcard) (h.kind ▸ hself) hcut).1
  rw [heq, hsource, hbelow] at hother
  apply hcolons
  rw [← String.append_right_inj l.above, ← hother, String.append_empty]

end Alone

theorem text_bytes (s : String) : Utf8.text (Utf8.bytes s) = s := by
  rw [Utf8.text, Utf8.bytes, Utf8.decode_encode, String.ofList_toList]

/-- Every leaf can be written out. -/
theorem exists_writtenOut (ctx : Context) (l : Leaf) : ∃ ctx' alone, WrittenOut ctx l ctx' alone := by
  let path := "::".intercalate (l.around ++ [leafPath ctx l.tree])
  let newName := ctx.text? (l.tree.field? "alias")
  let front := Utf8.bytes path
  let back := Utf8.bytes newName
  let ctx' : Context := { source := front ++ back, file := "", language := "", family := .rust }
  let alone : Tree := .node ⟨l.tree.kind, true, 0, front.length, none⟩
    [.node ⟨"identifier", true, 0, front.length, some "path"⟩ [],
      .node ⟨"identifier", true, front.length, front.length + back.length, some "alias"⟩ []]
  have hfront : Source.slice (front ++ back) 0 front.length = front := by
    have := Source.slice_append [] front back
    rw [List.nil_append, List.length_nil, Nat.zero_add] at this
    exact this
  have hback : Source.slice (front ++ back) front.length (front.length + back.length) = back := by
    have := Source.slice_append front back []
    rw [List.append_nil] at this
    exact this
  refine ⟨ctx', alone, rfl, ?_, fun _ => ?_⟩
  · have htext : Utf8.text (Source.slice (front ++ back) 0 front.length) = path := by
      rw [hfront, text_bytes]
    change (if l.tree.kind == "use_as_clause" then
        Utf8.text (Source.slice (front ++ back) 0 front.length)
      else Utf8.text (Source.slice (front ++ back) 0 front.length)) = path
    rw [htext, ite_self]
  · change Text.nonEmpty (Utf8.text (Source.slice (front ++ back) front.length
      (front.length + back.length))) = Text.nonEmpty newName
    rw [hback, text_bytes]

/-! ### Imports of a use declaration -/

/-- The modules of the imports are those of the items, each once. -/
theorem map_source_groupItems (ctx : Context) (t : Tree) (items : List UseItem) :
    (groupItems ctx t items).map Import.source = Symbol.distinct (items.map UseItem.source) := by
  rw [groupItems, List.map_map, Symbol.distinct, List.foldl_map]
  exact List.map_id _

/-- Items that are sorted by their modules are all the items. -/
theorem perm_flatMap_filter {items : List UseItem} {sources : List String} (hnodup : sources.Nodup)
    (h : ∀ i ∈ items, i.source ∈ sources) :
    (sources.flatMap fun source => items.filter fun i => i.source == source).Perm items := by
  induction sources generalizing items with
  | nil =>
      rw [List.eq_nil_iff_forall_not_mem.mpr fun i hi => List.not_mem_nil (h i hi)]
      exact .refl _
  | cons source sources ih =>
      obtain ⟨hnew, hnodup⟩ := List.nodup_cons.mp hnodup
      have hrest : ∀ i ∈ items.filter (fun i => !(i.source == source)), i.source ∈ sources := by
        intro i hi
        obtain ⟨hi, hother⟩ := List.mem_filter.mp hi
        exact (List.mem_cons.mp (h i hi)).resolve_left (by simpa using hother)
      have hsame : (sources.flatMap fun s => items.filter fun i => i.source == s) =
          sources.flatMap fun s =>
            (items.filter fun i => !(i.source == source)).filter fun i => i.source == s := by
        apply List.flatMap_congr
        intro s hs
        rw [List.filter_filter]
        apply List.filter_congr
        intro i _
        by_cases hi : i.source = s
        · have hne : s ≠ source := fun heq => hnew (heq ▸ hs)
          simp [hi, hne]
        · simp [hi]
      rw [List.flatMap_cons, hsame]
      exact ((ih hnodup hrest).append_left _).trans (List.filter_append_perm _ items)

/-- The imports of some items: one import for each module, in the order in which the modules first
come, with the names that are taken from it in their order. Together they have all items, each
once. -/
structure Regrouped (items : List UseItem) (imports : List Import) : Prop where
  mem_source : ∀ source,
    source ∈ imports.map Import.source ↔ source ∈ items.map UseItem.source
  distinct : (imports.map Import.source).Nodup
  in_order : (imports.map Import.source).Pairwise fun a b =>
    (items.map UseItem.source).idxOf a < (items.map UseItem.source).idxOf b
  specifiers : ∀ i ∈ imports,
    i.specifiers = (items.filter fun x => x.source == i.source).map UseItem.specifier
  each_once : (imports.flatMap fun i => i.specifiers.map (UseItem.mk i.source)).Perm items

/-- Grouping keeps the order of the uses from each source, and takes each source once. -/
theorem regrouped_groupItems (ctx : Context) (t : Tree) (items : List UseItem) :
    Regrouped items (groupItems ctx t items) := by
  have hsources := map_source_groupItems ctx t items
  have hspecifiers : ∀ i ∈ groupItems ctx t items,
      i.specifiers = (items.filter fun x => x.source == i.source).map UseItem.specifier := by
    intro i hi
    obtain ⟨source, -, rfl⟩ := List.mem_map.mp hi
    rfl
  refine ⟨?_, ?_, ?_, hspecifiers, ?_⟩
  · intro source
    rw [hsources]
    exact Symbol.mem_distinct
  · rw [hsources]
    exact Symbol.nodup_distinct _
  · rw [hsources]
    exact Symbol.pairwise_distinct _
  · have hback : ∀ i ∈ groupItems ctx t items, i.specifiers.map (UseItem.mk i.source) =
        items.filter fun x => x.source == i.source := by
      intro i hi
      rw [hspecifiers i hi, List.map_map]
      conv => rhs; rw [← List.map_id (items.filter fun x => x.source == i.source)]
      apply List.map_congr_left
      intro x hx
      have hx : x.source = i.source := by simpa using (List.mem_filter.mp hx).2
      rw [← hx]
      rfl
    have hflat : ((groupItems ctx t items).flatMap fun i => i.specifiers.map (UseItem.mk i.source)) =
        (Symbol.distinct (items.map UseItem.source)).flatMap fun source =>
          items.filter fun x => x.source == source := by
      rw [← hsources, List.flatMap_map]
      exact List.flatMap_congr hback
    rw [hflat]
    refine perm_flatMap_filter (Symbol.nodup_distinct _) fun i hi => ?_
    exact Symbol.mem_distinct.mpr (List.mem_map_of_mem hi)

/-! ### Groups mean what is written out -/

/-- A use tree of groups and leaves, in which the paths of all groups can be such, and no leaf is the
group itself. -/
inductive UseTree (ctx : Context) : Tree → Prop
  | group {t : Tree} {items : List Tree} (h : items? t = some items)
      (hpath : ∀ p ∈ groupPath ctx t, Text.isGroupPath p) (hitems : ∀ c ∈ items, UseTree ctx c) :
      UseTree ctx t
  | leaf {t : Tree} (h : items? t = none) (hself : t.kind ≠ "self") : UseTree ctx t

/-- The leaves of a use tree are leaves below paths of groups. -/
theorem UseTree.of_mem_leaves {ctx : Context} {t : Tree} (htree : UseTree ctx t)
    {around : List String} (haround : ∀ p ∈ around, Text.isGroupPath p) {l : Leaf}
    (hl : l ∈ leaves ctx around t) :
    (∀ p ∈ l.around, Text.isGroupPath p) ∧ items? l.tree = none ∧ l.tree.kind ≠ "self" := by
  induction htree generalizing around with
  | leaf h hself =>
      rw [leaves_leaf h, List.mem_singleton] at hl
      subst hl
      exact ⟨haround, h, hself⟩
  | group h hpath _ ih =>
      rw [leaves_group h, List.mem_flatMap] at hl
      obtain ⟨c, hc, hl⟩ := hl
      exact ih c hc (List.forall_mem_append.mpr ⟨haround, hpath⟩) hl

/-- The item of a leaf is what the leaf would give alone, the paths of the groups around it written
out. -/
def StandsAlone (ctx : Context) (l : Leaf) (item : UseItem) : Prop :=
  ∀ ctx' alone, WrittenOut ctx l ctx' alone → useItems ctx' "" alone = [item]

/-- All but two kinds of nodes are single uses. -/
theorem items?_eq_none_iff (t : Tree) :
    items? t = none ↔ t.kind ≠ "scoped_use_list" ∧ t.kind ≠ "use_list" := by
  unfold items?
  split
  · next h => simp [beq_iff_eq.mp h]
  · next hscoped =>
    split
    · next h => simp [beq_iff_eq.mp h]
    · next hlist => exact iff_of_true rfl ⟨by simpa using hscoped, by simpa using hlist⟩

/-- A use in a group means the same on its own unless it starts at the root. -/
theorem standsAlone_iff {ctx : Context} {l : Leaf} (hgroups : ∀ p ∈ l.around, Text.isGroupPath p)
    (hleaf : items? l.tree = none) (hself : l.tree.kind ≠ "self") :
    StandsAlone ctx l (useLeaf ctx l.above l.tree) ↔ l.isRooted ctx = false := by
  have halone : ∀ {ctx' alone}, WrittenOut ctx l ctx' alone →
      useItems ctx' "" alone = [useLeaf ctx' "" alone] := by
    intro ctx' alone h
    apply useItems_leaf
    rw [items?_eq_none_iff, h.kind, ← items?_eq_none_iff]
    exact hleaf
  constructor
  · intro h
    obtain ⟨ctx', alone, hout⟩ := exists_writtenOut ctx l
    rw [← Bool.not_eq_true]
    intro hrooted
    have heq := h ctx' alone hout
    rw [halone hout, List.singleton_inj] at heq
    exact (hout.useLeaf_rooted hgroups hself hrooted).2.2 heq
  · intro hrooted ctx' alone hout
    rw [halone hout, hout.useLeaf_eq hgroups hself hrooted]

/-- What a wildcard takes from a module: everything. -/
def everything : ImportSpecifier := { name := "*", isWhole := true }

/-- A use is of the whole if and only if it is of everything. -/
theorem isWhole_useLeaf_iff {ctx : Context} {t : Tree} (hself : t.kind ≠ "self") (above : String) :
    (useLeaf ctx above t).specifier.isWhole ↔ (useLeaf ctx above t).specifier = everything := by
  by_cases hrenamed : t.kind = "use_as_clause"
  · rw [useLeaf_renamed _ hrenamed]
    simp [everything]
  · by_cases hwildcard : t.kind = "use_wildcard"
    · rw [useLeaf_wildcard _ hwildcard]
      simp [everything]
    · rw [useLeaf_plain _ hrenamed hwildcard hself]
      simp [everything]

/-- An import is of the whole if everything is among what it imports. -/
theorem kind_groupItems {ctx : Context} {t : Tree} {items : List UseItem} {i : Import}
    (hwhole : ∀ x ∈ items, x.specifier.isWhole ↔ x.specifier = everything)
    (hi : i ∈ groupItems ctx t items) :
    i.kind = if everything ∈ i.specifiers then .whole else .named := by
  obtain ⟨source, -, rfl⟩ := List.mem_map.mp hi
  have hany : ((items.filter fun x => x.source == source).map UseItem.specifier).any
        ImportSpecifier.isWhole ↔
      everything ∈ (items.filter fun x => x.source == source).map UseItem.specifier := by
    rw [List.any_eq_true]
    constructor
    · rintro ⟨s, hs, hsome⟩
      obtain ⟨x, hx, rfl⟩ := List.mem_map.mp hs
      rw [← (hwhole x (List.mem_of_mem_filter hx)).mp hsome]
      exact hs
    · intro h
      exact ⟨everything, h, rfl⟩
  exact if_congr hany rfl rfl

/-- **Groups mean what is written out.** A use declaration gives one item for each leaf of its tree, in
order. It is the item that the leaf would give alone, with the paths of the groups around it written out
before its own and joined by colons, unless the leaf is rooted: as a single name behind colons, in a
group, it is taken from the path of the groups itself, as if there were no colons. The items become
imports from distinct modules, in the order in which the modules first come, with the names of each
module in their order, and all of them once. An import is of a whole module just if one of its names is
a wildcard. -/
theorem use_groups_written_out {ctx : Context} {t argument : Tree}
    (hkind : t.kind = "use_declaration") (hargument : t.field? "argument" = some argument)
    (htree : UseTree ctx argument) :
    List.Forall₂ (fun l item =>
        (∃ ctx' alone, WrittenOut ctx l ctx' alone) ∧
          (StandsAlone ctx l item ↔ l.isRooted ctx = false) ∧
          (l.isRooted ctx → item.source = "::".intercalate l.around ∧
            item.specifier.name = (Text.splitLast "::" (leafPath ctx l.tree)).2))
        (leaves ctx [] argument) (useItems ctx "" argument) ∧
      Regrouped (useItems ctx "" argument) (imports ctx t) ∧
      ∀ i ∈ imports ctx t, i.kind = if everything ∈ i.specifiers then .whole else .named := by
  have hitems : useItems ctx "" argument =
      (leaves ctx [] argument).map fun l => useLeaf ctx l.above l.tree :=
    useItems_eq_map_leaves ctx argument []
  have himports : imports ctx t = groupItems ctx t (useItems ctx "" argument) := by
    rw [imports, hkind, hargument]
    rfl
  rw [himports]
  refine ⟨?_, regrouped_groupItems ctx t _, fun i hi => kind_groupItems ?_ hi⟩
  · rw [hitems, List.forall₂_map_right_iff, List.forall₂_same]
    intro l hl
    obtain ⟨hgroups, hleaf, hself⟩ := htree.of_mem_leaves (List.forall_mem_nil _) hl
    obtain ⟨ctx', alone, hout⟩ := exists_writtenOut ctx l
    refine ⟨⟨ctx', alone, hout⟩, standsAlone_iff hgroups hleaf hself, fun hrooted => ?_⟩
    obtain ⟨hsource, hname, -⟩ := hout.useLeaf_rooted hgroups hself hrooted
    exact ⟨hsource, hname⟩
  · intro x hx
    rw [hitems] at hx
    obtain ⟨l, hl, rfl⟩ := List.mem_map.mp hx
    obtain ⟨-, -, hself⟩ := htree.of_mem_leaves (List.forall_mem_nil _) hl
    exact isWhole_useLeaf_iff hself _

/-- The source `use a::{b::{c, d as e}, f::*};`. -/
def nestedSource : Context :=
  { source := Utf8.bytes "use a::\x7bb::\x7bc, d as e\x7d, f::*\x7d;", file := "lib.rs"
    language := "rust", family := .rust }

/-- The groups of the nested source. -/
def nestedGroups : Tree :=
  .node ⟨"scoped_use_list", true, 4, 29, some "argument"⟩
    [.node ⟨"identifier", true, 4, 5, some "path"⟩ [],
      .node ⟨"use_list", true, 7, 29, some "list"⟩
        [.node ⟨"scoped_use_list", true, 8, 22, none⟩
            [.node ⟨"identifier", true, 8, 9, some "path"⟩ [],
              .node ⟨"use_list", true, 11, 22, some "list"⟩
                [.node ⟨"identifier", true, 12, 13, none⟩ [],
                  .node ⟨"use_as_clause", true, 15, 21, none⟩
                    [.node ⟨"identifier", true, 15, 16, some "path"⟩ [],
                      .node ⟨"identifier", true, 20, 21, some "alias"⟩ []]]],
          .node ⟨"use_wildcard", true, 24, 28, none⟩ [.node ⟨"identifier", true, 24, 25, none⟩ []]]]

/-- The declaration of the nested source. -/
def nestedUse : Tree := .node ⟨"use_declaration", true, 0, 30, none⟩ [nestedGroups]

theorem useTree_nestedGroups : UseTree nestedSource nestedGroups := by
  refine .group rfl (by decide +kernel) (List.forall_mem_cons.mpr ⟨?_, ?_⟩)
  · refine .group rfl (by decide +kernel) (List.forall_mem_cons.mpr ⟨?_, ?_⟩)
    · exact .leaf rfl (by decide)
    · exact List.forall_mem_cons.mpr ⟨.leaf rfl (by decide), List.forall_mem_nil _⟩
  · exact List.forall_mem_cons.mpr ⟨.leaf rfl (by decide), List.forall_mem_nil _⟩

/-- The three leaves of the nested source give two imports. -/
theorem use_groups_written_out_nested :
    useItems nestedSource "" nestedGroups =
        [⟨"a::b", { name := "c" }⟩, ⟨"a::b", { name := "d", newName := some "e" }⟩,
          ⟨"a::f", everything⟩] ∧
      Regrouped (useItems nestedSource "" nestedGroups) (imports nestedSource nestedUse) ∧
      (imports nestedSource nestedUse).map (fun i => (i.source, i.specifiers.length, i.kind)) =
        [("a::b", 2, .named), ("a::f", 1, .whole)] :=
  ⟨by decide +kernel, (use_groups_written_out rfl rfl useTree_nestedGroups).2.1, by decide +kernel⟩

/-- The source `use a::{::b};`. -/
def rootedSource : Context :=
  { source := Utf8.bytes "use a::\x7b::b\x7d;", file := "lib.rs", language := "rust", family := .rust }

/-- The path `::b` in the group of the rooted source. -/
def rootedLeaf : Tree :=
  .node ⟨"scoped_identifier", true, 8, 11, none⟩
    [.node ⟨"::", false, 8, 10, none⟩ [], .node ⟨"identifier", true, 10, 11, some "name"⟩ []]

/-- The group of the rooted source. -/
def rootedGroup : Tree :=
  .node ⟨"scoped_use_list", true, 4, 12, some "argument"⟩
    [.node ⟨"identifier", true, 4, 5, some "path"⟩ [],
      .node ⟨"use_list", true, 7, 12, some "list"⟩ [rootedLeaf]]

/-- The source `use a::::b;`, in which the group is written out. -/
def ungroupedSource : Context :=
  { source := Utf8.bytes "use a::::b;", file := "lib.rs", language := "rust", family := .rust }

/-- The path of the source without a group. -/
def ungroupedLeaf : Tree := .node ⟨"scoped_identifier", true, 4, 10, some "argument"⟩ []

/-- In the group `b` is taken from `a`, and written out from `a::`. -/
theorem rooted_leaf_differs :
    UseTree rootedSource rootedGroup ∧ leaves rootedSource [] rootedGroup = [⟨["a"], rootedLeaf⟩] ∧
      WrittenOut rootedSource ⟨["a"], rootedLeaf⟩ ungroupedSource ungroupedLeaf ∧
      useItems rootedSource "" rootedGroup = [⟨"a", { name := "b" }⟩] ∧
      useItems ungroupedSource "" ungroupedLeaf = [⟨"a::", { name := "b" }⟩] := by
  have hpath : groupPath rootedSource rootedGroup = ["a"] := by decide +kernel
  refine ⟨?_, ?_, ⟨rfl, by decide +kernel, fun h => absurd h (by decide)⟩, by decide +kernel,
    by decide +kernel⟩
  · refine .group rfl (by decide +kernel) (List.forall_mem_cons.mpr ⟨?_, List.forall_mem_nil _⟩)
    exact .leaf rfl (by decide)
  · have hitems : items? rootedGroup = some [rootedLeaf] := rfl
    have hleaf : items? rootedLeaf = none := rfl
    rw [leaves_group hitems, hpath, List.flatMap_singleton, leaves_leaf hleaf]
    rfl

end Concordance.Extract.Rust
