import Concordance.Extract.Basic
import Concordance.Proofs.Attempt
import Concordance.Proofs.Extract.Name

/-!
# Where symbols come from

Every family reads its declarations in its own way, but all symbols are made alike: a symbol takes
its name and the span of its name from one tree and its own span from another (`StandsFor`). The name
stands below the node that declares the symbol, and the symbol spans that node or its parent
(`DeclaredAt`). So every symbol of a tree has its name below what it spans (`DeclaredIn`).
-/

namespace Concordance.Extract

/-- The symbol stands for a name and spans a tree. -/
structure StandsFor (ctx : Context) (name whole : Tree) (s : Symbol) : Prop where
  called : s.name = ctx.text name
  nameSpan : s.nameSpan = ctx.span name
  span : s.span = ctx.span whole
  file : s.file = ctx.file
  language : s.language = ctx.language

/-- What a declaration may span: its own tree or that of its parent. -/
def Spans (n : Node) (whole : Tree) : Prop :=
  whole = n.tree ∨ ∃ p, n.parent? = some p ∧ whole = p.tree

/-- A symbol that a node declares. -/
def DeclaredAt (ctx : Context) (n : Node) (s : Symbol) : Prop :=
  ∃ name whole, name ∈ n.tree.preorder ∧ Spans n whole ∧ StandsFor ctx name whole s

/-- A symbol that some tree below a tree declares. -/
def DeclaredIn (ctx : Context) (t : Tree) (s : Symbol) : Prop :=
  ∃ whole ∈ t.preorder, ∃ name ∈ whole.preorder, StandsFor ctx name whole s

variable {ctx : Context} {n : Node} {s : Symbol}

theorem DeclaredAt.here {name : Tree} (hname : name ∈ n.tree.preorder)
    (hs : StandsFor ctx name n.tree s) : DeclaredAt ctx n s :=
  ⟨name, n.tree, hname, Or.inl rfl, hs⟩

/-- What a node of a tree declares is declared in the tree. -/
theorem DeclaredAt.declaredIn {t : Tree} (hn : Node.Of t n) (h : DeclaredAt ctx n s) :
    DeclaredIn ctx t s := by
  obtain ⟨name, whole, hname, rfl | ⟨p, hp, rfl⟩, hs⟩ := h
  · exact ⟨n.tree, hn.tree_mem_preorder, name, hname, hs⟩
  · obtain ⟨hparent, hchild⟩ := hn.parent hp
    exact ⟨p.tree, hparent.tree_mem_preorder, name, Tree.mem_preorder_of_child hchild hname, hs⟩

/-- A symbol for the name in a field of the node. -/
theorem declaredAt_of_mem_field {field : String} {f : Tree → Symbol}
    (hf : ∀ name, StandsFor ctx name n.tree (f name))
    (hs : s ∈ ((n.tree.field? field).map f).toList) : DeclaredAt ctx n s := by
  obtain ⟨name, hname, rfl⟩ := Option.map_eq_some_iff.mp (Option.mem_toList.mp hs)
  exact .here (Tree.field?_mem_preorder hname) (hf name)

/-- A symbol for one of some names below the node. -/
theorem declaredAt_of_mem_map {names : List Tree} (hnames : ∀ m ∈ names, m ∈ n.tree.preorder)
    {f : Tree → Symbol} (hf : ∀ name, StandsFor ctx name n.tree (f name))
    (hs : s ∈ names.map f) : DeclaredAt ctx n s := by
  obtain ⟨name, hname, rfl⟩ := List.mem_map.mp hs
  exact .here (hnames name hname) (hf name)

/-- Names that are looked for below some trees below a node. -/
theorem mem_preorder_of_mem_filterMap {t : Tree} {ts : List Tree} {find : Tree → Option Tree}
    (hts : ∀ u ∈ ts, u ∈ t.preorder) (hfind : ∀ u v, find u = some v → v ∈ u.preorder) :
    ∀ m ∈ ts.filterMap find, m ∈ t.preorder := by
  intro m hm
  obtain ⟨u, hu, hfound⟩ := List.mem_filterMap.mp hm
  exact Tree.mem_preorder_trans (hts u hu) (hfind u m hfound)

/-! ### C and C++ -/

namespace C

theorem declaredAt_of_functionSymbol (h : functionSymbol ctx n = some s) : DeclaredAt ctx n s := by
  unfold functionSymbol at h
  obtain ⟨outer, houter, h⟩ := Option.bind_eq_some_iff.mp h
  obtain ⟨inner, hinner, h⟩ := Option.bind_eq_some_iff.mp h
  obtain ⟨declarator, hfield, hdeclarator⟩ := Option.bind_eq_some_iff.mp houter
  have hbelow : inner ∈ n.tree.preorder :=
    Tree.mem_preorder_trans (Tree.field?_mem_preorder hfield)
      (Tree.mem_preorder_trans (Tree.functionDeclarator?_mem_preorder hdeclarator)
        (Tree.field?_mem_preorder hinner))
  dsimp only at h
  split at h
  · cases h
    exact .here hbelow ⟨rfl, rfl, rfl, rfl, rfl⟩
  · obtain ⟨name, hname, h⟩ := Option.bind_eq_some_iff.mp h
    cases h
    exact .here (Tree.mem_preorder_trans hbelow (Tree.target?_mem_preorder hname))
      ⟨rfl, rfl, rfl, rfl, rfl⟩

theorem declaredAt_of_classSymbol (h : classSymbol ctx n = some s) : DeclaredAt ctx n s := by
  unfold classSymbol at h
  obtain ⟨name, hname, h⟩ := Option.bind_eq_some_iff.mp h
  obtain ⟨body, -, h⟩ := Option.bind_eq_some_iff.mp h
  cases h
  exact .here (Tree.field?_mem_preorder hname) ⟨rfl, rfl, rfl, rfl, rfl⟩

theorem declaredAt_of_mem_typeDefinitions (hs : s ∈ typeDefinitions ctx n) :
    DeclaredAt ctx n s :=
  declaredAt_of_mem_map
    (mem_preorder_of_mem_filterMap (fun _ => Tree.mem_preorder_of_mem_fields)
      fun _ _ => Tree.target?_mem_preorder)
    (fun _ => ⟨rfl, rfl, rfl, rfl, rfl⟩) hs

theorem declaredAt_of_mem_macroConstant (hs : s ∈ macroConstant ctx n) : DeclaredAt ctx n s := by
  unfold macroConstant at hs
  split at hs
  · cases hs
  · next name hname =>
    split at hs
    · cases List.mem_singleton.mp hs
      exact .here (Tree.field?_mem_preorder hname) ⟨rfl, rfl, rfl, rfl, rfl⟩
    · cases hs

/-- A node in C declares symbols that stand for it. -/
theorem declaredAt_of_mem (hs : s ∈ declarations ctx n) : DeclaredAt ctx n s := by
  unfold declarations at hs
  split at hs
  · exact declaredAt_of_functionSymbol (Option.mem_toList.mp hs)
  · split at hs
    · exact declaredAt_of_classSymbol (Option.mem_toList.mp hs)
    · split at hs
      · exact declaredAt_of_mem_field (fun _ => ⟨rfl, rfl, rfl, rfl, rfl⟩) hs
      · split at hs
        · exact declaredAt_of_mem_typeDefinitions hs
        · split at hs
          · exact declaredAt_of_mem_macroConstant hs
          · cases hs

end C

/-! ### C# -/

namespace CSharp

theorem declaredAt_of_mem_constants (hs : s ∈ constants ctx n) : DeclaredAt ctx n s := by
  unfold constants at hs
  split at hs
  · cases hs
  · split at hs
    · cases hs
    · next declaration hdeclaration =>
      refine declaredAt_of_mem_map (fun m hm => ?_) (fun _ => ⟨rfl, rfl, rfl, rfl, rfl⟩) hs
      have hbelow : m ∈ declaration.preorder :=
        mem_preorder_of_mem_filterMap (fun _ => Tree.mem_preorder_of_mem_childrenOf)
          (fun _ _ => Tree.nameNode?_mem_preorder) m hm
      exact Tree.mem_preorder_trans (Tree.childOf?_mem_preorder hdeclaration) hbelow

/-- So does one in C#. -/
theorem declaredAt_of_mem (hs : s ∈ declarations ctx n) : DeclaredAt ctx n s := by
  unfold declarations at hs
  split at hs
  · exact declaredAt_of_mem_field (fun _ => ⟨rfl, rfl, rfl, rfl, rfl⟩) hs
  · exact declaredAt_of_mem_field (fun _ => ⟨rfl, rfl, rfl, rfl, rfl⟩) hs
  · split at hs
    · exact declaredAt_of_mem_constants hs
    · cases hs

end CSharp

/-! ### ECMAScript -/

namespace Ecmascript

/-- A declarator spans itself or its statement. -/
theorem spans_declaratorSpan (n : Node) : Spans n (declaratorSpan n) := by
  unfold declaratorSpan
  split
  · exact Or.inl rfl
  · next p hp =>
    split
    · exact Or.inr ⟨p, hp, rfl⟩
    · exact Or.inl rfl

theorem declaredAt_functionSymbol {name : Tree} (hname : name ∈ n.tree.preorder)
    (function : Tree) : DeclaredAt ctx n (functionSymbol ctx n name function) := by
  refine ⟨name, _, hname, ?_, ⟨rfl, rfl, rfl, rfl, rfl⟩⟩
  split
  · exact spans_declaratorSpan n
  · exact Or.inl rfl

theorem declaredAt_of_mem_constant {name : Tree} (hname : name ∈ n.tree.preorder)
    (hs : s ∈ declarator.constant ctx n name) : DeclaredAt ctx n s := by
  unfold declarator.constant at hs
  split at hs
  · cases hs
  · split at hs
    · cases List.mem_singleton.mp hs
      exact ⟨name, _, hname, spans_declaratorSpan n, ⟨rfl, rfl, rfl, rfl, rfl⟩⟩
    · cases hs

/-- A declarator in ECMAScript declares a function or a constant. -/
theorem declaredAt_of_mem_declarator (hs : s ∈ declarator ctx n) : DeclaredAt ctx n s := by
  unfold declarator at hs
  split at hs
  · cases hs
  · next name hname =>
    have hbelow := Tree.field?_mem_preorder hname
    split at hs
    · cases hs
    · split at hs
      · next value _ =>
        split at hs
        · cases List.mem_singleton.mp hs
          exact declaredAt_functionSymbol hbelow value
        · exact declaredAt_of_mem_constant hbelow hs
      · exact declaredAt_of_mem_constant hbelow hs

theorem declaredAt_of_typeSymbol {name : Tree} (hname : name ∈ n.tree.preorder)
    {kind : SymbolKind} (h : typeSymbol ctx n name kind = .ok s) : DeclaredAt ctx n s := by
  unfold typeSymbol at h
  dsimp only at h
  split at h
  · obtain ⟨heritage, -, h⟩ := Attempt.exists_of_bind_eq_ok h
    cases h
    exact .here hname ⟨rfl, rfl, rfl, rfl, rfl⟩
  · cases h
    exact .here hname ⟨rfl, rfl, rfl, rfl, rfl⟩

/-- A node in ECMAScript declares symbols that stand for it. -/
theorem declaredAt_of_mem {symbols : List Symbol} (h : declarations ctx n = .ok symbols)
    (hs : s ∈ symbols) : DeclaredAt ctx n s := by
  unfold declarations at h
  split at h
  · split at h
    · cases h
      cases hs
    · next name hname =>
      cases h
      cases List.mem_singleton.mp hs
      exact declaredAt_functionSymbol (Tree.field?_mem_preorder hname) n.tree
  · split at h
    · cases h
      exact declaredAt_of_mem_declarator hs
    · split at h
      · split at h
        · cases h
          cases hs
        · next name hname =>
          cases h
          cases List.mem_singleton.mp hs
          exact .here (Tree.field?_mem_preorder hname) ⟨rfl, rfl, rfl, rfl, rfl⟩
      · split at h
        · next kind name _ hname =>
          obtain ⟨symbol, hsymbol, h⟩ := Attempt.exists_of_bind_eq_ok h
          cases h
          cases List.mem_singleton.mp hs
          exact declaredAt_of_typeSymbol (Tree.field?_mem_preorder hname) hsymbol
        · cases h
          cases hs

end Ecmascript

/-! ### Go -/

namespace Go

theorem declaredAt_typeSymbol {name : Tree} (hname : name ∈ n.tree.preorder) :
    DeclaredAt ctx n (typeSymbol ctx n name) := by
  refine ⟨name, _, hname, ?_, ⟨rfl, rfl, rfl, rfl, rfl⟩⟩
  split
  · cases hp : n.parent? with
    | none => exact Or.inl rfl
    | some p => exact Or.inr ⟨p, hp, rfl⟩
  · exact Or.inl rfl

theorem declaredAt_of_mem_constants (hs : s ∈ constants ctx n) : DeclaredAt ctx n s := by
  unfold constants at hs
  split at hs
  · cases hs
  · split at hs
    · exact declaredAt_of_mem_map (fun _ => Tree.mem_preorder_of_mem_fields)
        (fun _ => ⟨rfl, rfl, rfl, rfl, rfl⟩) hs
    · cases hs

/-- So does one in Go. -/
theorem declaredAt_of_mem (hs : s ∈ declarations ctx n) : DeclaredAt ctx n s := by
  unfold declarations at hs
  split at hs
  · exact declaredAt_of_mem_field (fun _ => ⟨rfl, rfl, rfl, rfl, rfl⟩) hs
  · split at hs
    · obtain ⟨name, hname, rfl⟩ := Option.map_eq_some_iff.mp (Option.mem_toList.mp hs)
      exact declaredAt_typeSymbol (Tree.field?_mem_preorder hname)
    · split at hs
      · exact declaredAt_of_mem_constants hs
      · cases hs

end Go

/-! ### The JVM family -/

namespace Jvm

theorem declaredAt_of_typeSymbol {name : Tree} (hname : name ∈ n.tree.preorder)
    {kind : SymbolKind} (h : typeSymbol ctx n kind name = .ok s) : DeclaredAt ctx n s := by
  obtain ⟨heritage, -, h⟩ := Attempt.exists_of_bind_eq_ok h
  cases h
  exact .here hname ⟨rfl, rfl, rfl, rfl, rfl⟩

theorem declaredAt_of_mem_constants (hs : s ∈ constants ctx n) : DeclaredAt ctx n s := by
  unfold constants at hs
  split at hs
  · refine declaredAt_of_mem_map (fun m hm => ?_) (fun _ => ⟨rfl, rfl, rfl, rfl, rfl⟩) hs
    exact mem_preorder_of_mem_filterMap (fun _ => Tree.mem_preorder_of_mem_fields)
      (fun _ _ => Tree.field?_mem_preorder) m (List.mem_filter.mp hm).1
  · cases hs

/-- So does one in Java or Kotlin. -/
theorem declaredAt_of_mem {symbols : List Symbol} (h : declarations ctx n = .ok symbols)
    (hs : s ∈ symbols) : DeclaredAt ctx n s := by
  unfold declarations at h
  split at h
  · split at h
    · cases h
      cases hs
    · next name hname =>
      obtain ⟨symbol, hsymbol, h⟩ := Attempt.exists_of_bind_eq_ok h
      cases h
      cases List.mem_singleton.mp hs
      exact declaredAt_of_typeSymbol (Tree.nameNode?_mem_preorder hname) hsymbol
  · split at h
    · cases h
      obtain ⟨name, hname, rfl⟩ := Option.map_eq_some_iff.mp (Option.mem_toList.mp hs)
      exact .here (Tree.nameNode?_mem_preorder hname) ⟨rfl, rfl, rfl, rfl, rfl⟩
    · split at h
      · cases h
        exact declaredAt_of_mem_constants hs
      · cases h
        cases hs

end Jvm

/-! ### PHP -/

namespace Php

theorem declaredAt_of_mem_constants (hs : s ∈ constants ctx n) : DeclaredAt ctx n s :=
  declaredAt_of_mem_map
    (mem_preorder_of_mem_filterMap (fun _ => Tree.mem_preorder_of_mem_childrenOf)
      fun _ _ => Tree.childOf?_mem_preorder)
    (fun _ => ⟨rfl, rfl, rfl, rfl, rfl⟩) hs

/-- So does one in PHP. -/
theorem declaredAt_of_mem (hs : s ∈ declarations ctx n) : DeclaredAt ctx n s := by
  unfold declarations at hs
  split at hs
  · exact declaredAt_of_mem_field (fun _ => ⟨rfl, rfl, rfl, rfl, rfl⟩) hs
  · split at hs
    · exact declaredAt_of_mem_field (fun _ => ⟨rfl, rfl, rfl, rfl, rfl⟩) hs
    · split at hs
      · exact declaredAt_of_mem_field (fun _ => ⟨rfl, rfl, rfl, rfl, rfl⟩) hs
      · split at hs
        · exact declaredAt_of_mem_constants hs
        · cases hs

end Php

/-! ### Python -/

namespace Python

/-- A definition spans itself, or with its decorators its parent. -/
theorem spans_wholeOf {p : Node} (hp : n.parent? = some p) : Spans n (wholeOf n p) := by
  unfold wholeOf
  split
  · exact Or.inr ⟨p, hp, rfl⟩
  · exact Or.inl rfl

theorem declaredAt_of_mem_constant (hs : s ∈ constant ctx n) : DeclaredAt ctx n s := by
  unfold constant at hs
  split at hs
  · next left statement hleft hstatement =>
    split at hs
    · cases List.mem_singleton.mp hs
      exact ⟨left, statement.tree, Tree.field?_mem_preorder hleft,
        Or.inr ⟨statement, hstatement, rfl⟩, ⟨rfl, rfl, rfl, rfl, rfl⟩⟩
    · cases hs
  · cases hs

/-- So does one in Python. -/
theorem declaredAt_of_mem {symbols : List Symbol} (h : declarations ctx n = .ok symbols)
    (hs : s ∈ symbols) : DeclaredAt ctx n s := by
  unfold declarations at h
  split at h
  · split at h
    · cases h
      cases hs
    · next name hname =>
      have hbelow := Tree.field?_mem_preorder hname
      split at h
      · cases h
      · next parent hparent =>
        split at h
        · cases h
          cases List.mem_singleton.mp hs
          exact ⟨name, _, hbelow, spans_wholeOf hparent, ⟨rfl, rfl, rfl, rfl, rfl⟩⟩
        · cases h
          cases List.mem_singleton.mp hs
          exact ⟨name, _, hbelow, spans_wholeOf hparent, ⟨rfl, rfl, rfl, rfl, rfl⟩⟩
  · split at h
    · cases h
      exact declaredAt_of_mem_constant hs
    · cases h
      cases hs

end Python

/-! ### Ruby -/

namespace Ruby

theorem declaredAt_of_typeSymbol {name : Tree} (hname : name ∈ n.tree.preorder)
    (h : typeSymbol ctx n name = .ok s) : DeclaredAt ctx n s := by
  obtain ⟨base, -, h⟩ := Attempt.exists_of_bind_eq_ok h
  cases h
  exact .here hname ⟨rfl, rfl, rfl, rfl, rfl⟩

theorem declaredAt_of_mem_constant (hs : s ∈ constant ctx n) : DeclaredAt ctx n s := by
  unfold constant at hs
  split at hs
  · cases hs
  · next left hleft =>
    split at hs
    · cases List.mem_singleton.mp hs
      exact .here (Tree.field?_mem_preorder hleft) ⟨rfl, rfl, rfl, rfl, rfl⟩
    · cases hs

/-- So does one in Ruby. -/
theorem declaredAt_of_mem {symbols : List Symbol} (h : declarations ctx n = .ok symbols)
    (hs : s ∈ symbols) : DeclaredAt ctx n s := by
  unfold declarations at h
  split at h
  · cases h
    exact declaredAt_of_mem_field (fun _ => ⟨rfl, rfl, rfl, rfl, rfl⟩) hs
  · split at h
    · split at h
      · cases h
        cases hs
      · next name hname =>
        obtain ⟨symbol, hsymbol, h⟩ := Attempt.exists_of_bind_eq_ok h
        cases h
        cases List.mem_singleton.mp hs
        exact declaredAt_of_typeSymbol (Tree.field?_mem_preorder hname) hsymbol
    · split at h
      · cases h
        exact declaredAt_of_mem_constant hs
      · cases h
        cases hs

end Ruby

/-! ### Rust -/

namespace Rust

/-- An implementation in Rust stands for the type that it is of. -/
theorem declaredAt_of_implementation (h : implementation ctx n = some s) :
    DeclaredAt ctx n s := by
  unfold implementation at h
  obtain ⟨type, htype, h⟩ := Option.bind_eq_some_iff.mp h
  have hname : type.target?.getD type ∈ type.preorder := by
    cases htarget : type.target? with
    | none => exact type.self_mem_preorder
    | some name => exact Tree.target?_mem_preorder htarget
  cases h
  exact .here (Tree.mem_preorder_trans (Tree.field?_mem_preorder htype) hname)
    ⟨rfl, rfl, rfl, rfl, rfl⟩

/-- A node in Rust declares symbols that stand for it. -/
theorem declaredAt_of_mem (hs : s ∈ declarations ctx n) : DeclaredAt ctx n s := by
  unfold declarations at hs
  split at hs
  · exact declaredAt_of_mem_field (fun _ => ⟨rfl, rfl, rfl, rfl, rfl⟩) hs
  · split at hs
    · exact declaredAt_of_implementation (Option.mem_toList.mp hs)
    · split at hs
      · cases hs
      · exact declaredAt_of_mem_field (fun _ => ⟨rfl, rfl, rfl, rfl, rfl⟩) hs

end Rust

/-! ### Any family -/

/-- So does a node in any other language. -/
theorem declaredAt_of_mem_genericDeclarations (hs : s ∈ genericDeclarations ctx n) :
    DeclaredAt ctx n s := by
  unfold genericDeclarations at hs
  split at hs
  · next kind name _ hname =>
    cases List.mem_singleton.mp hs
    exact .here (Tree.field?_mem_preorder hname) ⟨rfl, rfl, rfl, rfl, rfl⟩
  · cases hs

/-- **One node.** Whatever the family, the symbols that are read off a node are declared by it. -/
theorem declaredAt_of_mem_declarations {symbols : List Symbol}
    (h : declarations ctx n = .ok symbols) (hs : s ∈ symbols) : DeclaredAt ctx n s := by
  unfold declarations at h
  split at h
  case h_1 => exact Ecmascript.declaredAt_of_mem h hs
  case h_2 => exact Python.declaredAt_of_mem h hs
  case h_3 => cases h; exact Go.declaredAt_of_mem hs
  case h_4 => cases h; exact Rust.declaredAt_of_mem hs
  case h_5 => exact Jvm.declaredAt_of_mem h hs
  case h_6 => cases h; exact CSharp.declaredAt_of_mem hs
  case h_7 => cases h; exact C.declaredAt_of_mem hs
  case h_8 => cases h; exact Php.declaredAt_of_mem hs
  case h_9 => exact Ruby.declaredAt_of_mem h hs
  case h_10 => cases h; exact declaredAt_of_mem_genericDeclarations hs

/-- **Every symbol stands for a node** of the tree in which it was found. -/
theorem declaredIn_of_mem_symbols {t : Tree} {declared : List Symbol}
    (h : symbols ctx t = .ok declared) (hs : s ∈ declared) : DeclaredIn ctx t s := by
  obtain ⟨lists, hlists, h⟩ := Attempt.exists_of_bind_eq_ok h
  cases h
  obtain ⟨list, hlist, hs⟩ := List.mem_flatten.mp hs
  obtain ⟨n, hn, hread⟩ := Attempt.exists_of_mem_mapM hlists hlist
  exact (declaredAt_of_mem_declarations hread hs).declaredIn (Node.of_mem_walk hn)

/-- Linking members changes nothing of where a symbol comes from. -/
theorem StandsFor.withMembers {name whole : Tree} (h : StandsFor ctx name whole s)
    (others : List Symbol) : StandsFor ctx name whole (s.withMembers others) := by
  unfold Symbol.withMembers
  split
  · exact h
  · split
    · exact ⟨h.called, h.nameSpan, h.span, h.file, h.language⟩
    · exact h

/-- **A whole tree.** Every symbol that is extracted is declared in the tree. -/
theorem declaredIn_of_mem_extract {t : Tree} {e : Extraction} (h : extract ctx t = .ok e)
    (hs : s ∈ e.symbols) : DeclaredIn ctx t s := by
  obtain ⟨declared, hdeclared, h⟩ := Attempt.exists_of_bind_eq_ok h
  cases h
  obtain ⟨u, hu, rfl⟩ := List.mem_map.mp hs
  obtain ⟨whole, hwhole, name, hname, hstands⟩ := declaredIn_of_mem_symbols hdeclared hu
  exact ⟨whole, hwhole, name, hname, hstands.withMembers declared⟩

end Concordance.Extract
