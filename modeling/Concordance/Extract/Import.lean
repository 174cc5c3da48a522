import Concordance.Extract.Context
import Concordance.Extract.ImportText
import Concordance.Extract.Name

/-!
# Imports of a source

The import statements of each family. The use trees of Rust are flattened: a group of paths means
the same as the paths written out.
-/

namespace Concordance.Extract

/-- The import that a tree makes. -/
def importAt (ctx : Context) (t : Tree) (source : String) (specifiers : List ImportSpecifier)
    (kind : ImportKind) : Import :=
  { source, file := ctx.file, span := ctx.span t, specifiers, kind }

/-- The import of a whole module under a wildcard. -/
def wildcard (ctx : Context) (t : Tree) (source : String) : Import :=
  importAt ctx t source [{ name := "*", isWhole := true }] .whole

namespace Ecmascript

/-- The names that one part of an import clause brings in. -/
def clauseSpecifiers (ctx : Context) (t : Tree) : List ImportSpecifier :=
  if t.kind == "identifier" then [{ name := ctx.text t, isDefault := true }]
  else if t.kind == "namespace_import" then
    [{ name := "*", newName := ctx.nonEmptyText? (t.childOf? ["identifier"]), isWhole := true }]
  else if t.kind == "named_imports" then
    (t.childrenOf ["import_specifier"]).map fun spec =>
      { name := ctx.text? (spec.field? "name"), newName := (spec.field? "alias").map ctx.text }
  else []

/-- The kind of an import, by the kinds of the parts of its clause. -/
def clauseKind (parts : List Tree) : ImportKind :=
  if parts.any fun t => t.kind == "namespace_import" then .whole
  else if parts.any fun t => t.kind == "identifier" then .default
  else .named

/-- An import statement. -/
def importStatement (ctx : Context) (t : Tree) : List Import :=
  match t.field? "source" with
  | none => []
  | some sourceNode =>
    let source := Text.unquote (ctx.text sourceNode)
    match t.childOf? ["import_clause"] with
    | none => [importAt ctx t source [] .sideEffect]
    | some clause =>
      let parts := clause.namedChildren
      [importAt ctx t source (parts.flatMap (clauseSpecifiers ctx)) (clauseKind parts)]

/-- The name to which a call is assigned as the value of a declarator. -/
def assignedName? (n : Node) : Option Tree := do
  let p ← n.parent?
  if p.kind != "variable_declarator" then none
  else
    let target ← p.tree.field? "name"
    if target.kind == "identifier" then some target else none

/-- A call that requires a module. -/
def requireCall (ctx : Context) (n : Node) : List Import :=
  match n.tree.field? "function", n.tree.field? "arguments" with
  | some function, some arguments =>
    if ctx.text function != "require" then []
    else match (arguments.childrenOf ["string"]).head? with
      | none => []
      | some string =>
        let source := Text.unquote (ctx.text string)
        match assignedName? n with
        | some target =>
          [importAt ctx n.tree source [{ name := ctx.text target, isDefault := true }] .default]
        | none => [importAt ctx n.tree source [] .sideEffect]
  | _, _ => []

/-- The imports of one node. -/
def imports (ctx : Context) (n : Node) : List Import :=
  if n.kind == "import_statement" then importStatement ctx n.tree
  else if n.kind == "call_expression" then requireCall ctx n
  else []

end Ecmascript

namespace Python

/-- The module that one part of an import statement names. -/
def module? (ctx : Context) (t : Tree) : Option ImportSpecifier :=
  if t.kind == "aliased_import" then
    some { name := ctx.text? (t.field? "name"), newName := ctx.nonEmptyText? (t.field? "alias"),
           isWhole := true }
  else if t.kind == "dotted_name" then some { name := ctx.text t, isWhole := true }
  else none

/-- One name that is imported from a module. -/
def importedName (ctx : Context) (t : Tree) : ImportSpecifier :=
  if t.kind == "aliased_import" then
    { name := ctx.text? (t.field? "name"), newName := ctx.nonEmptyText? (t.field? "alias") }
  else { name := ctx.text t }

/-- The imports of one node. -/
def imports (ctx : Context) (t : Tree) : List Import :=
  if t.kind == "import_statement" then
    (t.namedChildren.filterMap (module? ctx)).map fun spec =>
      importAt ctx t spec.name [spec] .whole
  else if t.kind == "import_from_statement" then
    match t.field? "module_name" with
    | none => []
    | some m =>
      if (t.childOf? ["wildcard_import"]).isSome then [wildcard ctx t (ctx.text m)]
      else [importAt ctx t (ctx.text m) ((t.fields "name").map (importedName ctx)) .named]
  else []

end Python

namespace Go

/-- The imports of one node. -/
def imports (ctx : Context) (t : Tree) : List Import :=
  if t.kind != "import_spec" then []
  else match t.field? "path" with
    | none => []
    | some path =>
      let source := Text.unquote (ctx.text path)
      let newName := (t.field? "name").map ctx.text
      if newName == some "_" then [importAt ctx t source [] .sideEffect]
      else
        [importAt ctx t source [{ name := Text.lastSegment source, newName, isWhole := true }] .whole]

end Go

namespace Rust

/-- One path of a use tree: the module, and the name taken from it. -/
structure UseItem where
  source : String
  specifier : ImportSpecifier
  deriving DecidableEq, Inhabited

/-- A path of a use tree without groups, below the path `above`. -/
def useLeaf (ctx : Context) (above : String) (t : Tree) : UseItem :=
  if t.kind == "use_as_clause" then
    let parts := Text.splitLast "::" (ctx.text? (t.field? "path"))
    ⟨Text.joinPath "::" above parts.1,
      { name := parts.2, newName := ctx.nonEmptyText? (t.field? "alias") }⟩
  else if t.kind == "use_wildcard" then
    let cs := (ctx.text t).toList
    let cs := if ['*'].isSuffixOf cs then cs.dropLast else cs
    let source := String.ofList (Chars.dropEnd (· == ':') cs)
    ⟨Text.joinPath "::" above source, { name := "*", isWhole := true }⟩
  else if t.kind == "self" then
    ⟨above, { name := Text.lastSegment above, isWhole := true }⟩
  else
    let parts := Text.splitLast "::" (ctx.text t)
    ⟨Text.orElse (Text.joinPath "::" above parts.1) parts.2, { name := parts.2 }⟩

/-- The paths of a use tree below the path `above`, groups written out. -/
def useItems (ctx : Context) (above : String) (t : Tree) : List UseItem :=
  if t.kind == "scoped_use_list" then
    match h : t.field? "list" with
    | none => []
    | some list =>
      let inner := Text.joinPath "::" above (ctx.text? (t.field? "path"))
      list.namedChildren.attach.flatMap fun ⟨c, hc⟩ =>
        have : c.size < t.size := by
          have h1 := Tree.size_lt_of_mem (Tree.mem_of_field? h)
          have h2 := Tree.size_lt_of_mem (Tree.mem_of_mem_namedChildren hc)
          omega
        useItems ctx inner c
  else if t.kind == "use_list" then
    t.namedChildren.attach.flatMap fun ⟨c, hc⟩ =>
      have : c.size < t.size := Tree.size_lt_of_mem (Tree.mem_of_mem_namedChildren hc)
      useItems ctx above c
  else [useLeaf ctx above t]
termination_by t.size

/-- The imports of some paths: one for each module, in the order in which the modules first come. -/
def groupItems (ctx : Context) (t : Tree) (items : List UseItem) : List Import :=
  let sources := items.foldl
    (fun seen i => if seen.contains i.source then seen else seen ++ [i.source]) []
  sources.map fun source =>
    let specifiers := (items.filter fun i => i.source == source).map UseItem.specifier
    let kind := if specifiers.any ImportSpecifier.isWhole then .whole else .named
    importAt ctx t source specifiers kind

/-- The imports of one node. -/
def imports (ctx : Context) (t : Tree) : List Import :=
  if t.kind != "use_declaration" then []
  else match t.field? "argument" with
    | none => []
    | some argument => groupItems ctx t (useItems ctx "" argument)

end Rust

namespace Jvm

/-- The import of the last part of a dotted path. -/
def pathImport (ctx : Context) (t : Tree) (path : String) (newName : Option String) : Import :=
  let parts := Text.splitLast "." path
  importAt ctx t (Text.orElse parts.1 parts.2) [{ name := parts.2, newName }] .named

/-- The imports of one node. -/
def imports (ctx : Context) (t : Tree) : List Import :=
  if t.kind == "import_declaration" then
    let paths := t.namedChildren.filter fun c => ["scoped_identifier", "identifier"].contains c.kind
    match paths.getLast? with
    | none => []
    | some path =>
      if (t.childOf? ["asterisk"]).isSome then [wildcard ctx t (ctx.text path)]
      else [pathImport ctx t (ctx.text path) none]
  else if t.kind == "import_header" then
    match t.childOf? ["identifier"] with
    | none => []
    | some path =>
      if (t.childOf? ["wildcard_import"]).isSome then [wildcard ctx t (ctx.text path)]
      else
        let newName := (t.childOf? ["import_alias"]).bind fun a =>
          ctx.nonEmptyText? (a.childOf? ["type_identifier", "simple_identifier"])
        [pathImport ctx t (ctx.text path) newName]
  else []

end Jvm

namespace CSharp

/-- The imports of one node. -/
def imports (ctx : Context) (t : Tree) : List Import :=
  if t.kind != "using_directive" then []
  else match using? (ctx.text t).toList with
    | none => []
    | some b =>
      [importAt ctx t b.target
        [{ name := Text.lastSegment b.target, newName := b.newName, isWhole := true }] .whole]

end CSharp

namespace Php

/-- The import of one clause. -/
def clauseImport? (ctx : Context) (clause : Tree) : Option Import := do
  let b ← namespacePath? (ctx.text clause).toList
  let parts := Text.splitLast "\\" (.ofList (b.target.toList.dropWhile (· == '\\')))
  return importAt ctx clause (Text.orElse parts.1 parts.2)
    [{ name := parts.2, newName := b.newName }] .named

/-- The imports of one node. -/
def imports (ctx : Context) (t : Tree) : List Import :=
  if t.kind != "namespace_use_declaration" then []
  else (t.childrenOf ["namespace_use_clause"]).filterMap (clauseImport? ctx)

end Php

namespace C

/-- The imports of one node. -/
def imports (ctx : Context) (t : Tree) : List Import :=
  if t.kind != "preproc_include" then []
  else match t.field? "path" with
    | none => []
    | some path => [importAt ctx t (Text.unquote (ctx.text path)) [] .sideEffect]

end C

namespace Ruby

/-- The methods that load other files. -/
def loadingMethods : List String := ["require", "require_relative", "load"]

/-- The imports of one node. -/
def imports (ctx : Context) (t : Tree) : List Import :=
  if t.kind != "call" then []
  else match t.field? "method", t.field? "arguments" with
    | some method, some arguments =>
      if !loadingMethods.contains (ctx.text method) then []
      else match (arguments.childrenOf ["string"]).head? with
        | none => []
        | some string => [importAt ctx t (Text.unquote (ctx.text string)) [] .sideEffect]
    | _, _ => []

end Ruby

/-- The imports of one node. -/
def imports (ctx : Context) (n : Node) : List Import :=
  match ctx.family with
  | .ecmascript => Ecmascript.imports ctx n
  | .python => Python.imports ctx n.tree
  | .go => Go.imports ctx n.tree
  | .rust => Rust.imports ctx n.tree
  | .jvm => Jvm.imports ctx n.tree
  | .csharp => CSharp.imports ctx n.tree
  | .php => Php.imports ctx n.tree
  | .c => C.imports ctx n.tree
  | .ruby => Ruby.imports ctx n.tree
  | .generic => []

end Concordance.Extract
