import Concordance.Extract.Context
import Concordance.Extract.Name

/-!
# References of a source

Calls, instantiations, decorators, components, and the types that declarations build on.
-/

namespace Concordance.Extract

/-- The use of the name that a tree is. -/
def reference (ctx : Context) (kind : ReferenceKind) (name : Tree) : Reference :=
  { name := ctx.text name
    file := ctx.file
    span := ctx.span name
    context := Source.rowText ctx.source (ctx.startRow name)
    kind }

/-- The fields that hold what is called, for every kind of call of a family. -/
def callFields : Family → List (String × List String)
  | .ecmascript | .go | .c | .generic => [("call_expression", ["function"])]
  | .python => [("call", ["function"])]
  | .rust => [("call_expression", ["function"]), ("macro_invocation", ["macro"])]
  | .jvm => [("method_invocation", ["name"]), ("call_expression", [])]
  | .csharp => [("invocation_expression", ["function"])]
  | .php =>
    [("function_call_expression", ["function"]), ("member_call_expression", ["name"]),
     ("scoped_call_expression", ["name"]), ("nullsafe_member_call_expression", ["name"])]
  | .ruby => [("call", ["method"])]

/-- The fields that hold what is instantiated, for every kind of instantiation of a family. -/
def instantiationFields : Family → List (String × List String)
  | .ecmascript => [("new_expression", ["constructor"])]
  | .go => [("composite_literal", ["type"])]
  | .rust => [("struct_expression", ["name"])]
  | .jvm | .csharp => [("object_creation_expression", ["type"])]
  | .c => [("new_expression", ["type"])]
  | .php => [("object_creation_expression", [])]
  | .python | .ruby | .generic => []

/-- What is called or instantiated: the first of the fields, or else the first named child that is
no comment. -/
def callee? (t : Tree) (fields : List String) : Option Tree :=
  fields.findSome? t.field? <|> (t.namedChildren.filter fun c => !c.isComment).head?

/-- Names whose calls are no references. -/
def ignoredCallees : Family → List String
  | .ruby => ["require", "super", "import", "require_relative", "load", ""]
  | _ => ["require", "super", "import", ""]

/-- The reference of a call. -/
def callReference (ctx : Context) (t : Tree) (fields : List String) : List Reference :=
  match (callee? t fields).bind Tree.target? with
  | none => []
  | some name =>
    if (ignoredCallees ctx.family).contains (ctx.text name) then []
    else [reference ctx .call name]

/-- The references to the types that some trees name. -/
def typeReferences (ctx : Context) (kind : ReferenceKind) (ts : List Tree) : List Reference :=
  (ts.filterMap Tree.target?).map (reference ctx kind)

/-- The reference of a decorator: to what is called, if it is a call. -/
def decoratorReference (ctx : Context) (t : Tree) : List Reference :=
  let named := t.namedChildren.head?.bind fun e =>
    if ["call", "call_expression"].contains e.kind then e.field? "function" else some e
  typeReferences ctx .decorator named.toList

namespace Ecmascript

/-- The references of the heritage of a class. -/
def heritageReferences (ctx : Context) (t : Tree) : List Reference :=
  let bases :=
    match t.childOf? ["extends_clause"] with
    | some clause => clause.namedChildren
    | none => (t.namedChildren.filter fun c => c.kind != "implements_clause").take 1
  let interfaces := ((t.childOf? ["implements_clause"]).map Tree.namedChildren).getD []
  typeReferences ctx .base bases ++ typeReferences ctx .implemented interfaces

/-- The reference of a component in markup: its name begins with a capital. -/
def componentReference (ctx : Context) (t : Tree) : List Reference :=
  match (t.field? "name").bind Tree.target? with
  | none => []
  | some name => if Text.startsUpper (ctx.text name) then [reference ctx .component name] else []

/-- References that are neither calls nor instantiations. -/
def otherReferences (ctx : Context) (t : Tree) : List Reference :=
  if t.kind == "class_heritage" then heritageReferences ctx t
  else if t.kind == "decorator" then decoratorReference ctx t
  else if ["jsx_opening_element", "jsx_self_closing_element"].contains t.kind then
    componentReference ctx t
  else []

end Ecmascript

namespace Python

/-- References that are neither calls nor instantiations. -/
def otherReferences (ctx : Context) (t : Tree) : List Reference :=
  if t.kind == "decorator" then decoratorReference ctx t
  else if t.kind == "class_definition" then
    match t.field? "superclasses" with
    | none => []
    | some list =>
      typeReferences ctx .base
        (list.namedChildren.filter fun c => ["identifier", "attribute"].contains c.kind)
  else []

end Python

namespace Jvm

/-- References that are neither calls nor instantiations. -/
def otherReferences (ctx : Context) (t : Tree) : List Reference :=
  if t.kind == "superclass" then typeReferences ctx .base t.namedChildren
  else if t.kind == "super_interfaces" then
    typeReferences ctx .implemented ((t.childOf? ["type_list"]).getD t).namedChildren
  else []

end Jvm

namespace Php

/-- References that are neither calls nor instantiations. -/
def otherReferences (ctx : Context) (t : Tree) : List Reference :=
  if t.kind == "base_clause" then typeReferences ctx .base t.namedChildren
  else if t.kind == "class_interface_clause" then
    typeReferences ctx .implemented t.namedChildren
  else []

end Php

namespace Ruby

/-- References that are neither calls nor instantiations. -/
def otherReferences (ctx : Context) (t : Tree) : List Reference :=
  if t.kind == "superclass" then typeReferences ctx .base t.namedChildren else []

end Ruby

namespace Rust

/-- References that are neither calls nor instantiations. -/
def otherReferences (ctx : Context) (t : Tree) : List Reference :=
  if t.kind == "impl_item" then typeReferences ctx .implemented (t.field? "trait").toList else []

end Rust

/-- References that are neither calls nor instantiations. -/
def otherReferences (ctx : Context) (t : Tree) : List Reference :=
  match ctx.family with
  | .ecmascript => Ecmascript.otherReferences ctx t
  | .python => Python.otherReferences ctx t
  | .jvm => Jvm.otherReferences ctx t
  | .php => Php.otherReferences ctx t
  | .ruby => Ruby.otherReferences ctx t
  | .rust => Rust.otherReferences ctx t
  | _ => []

/-- The references of one node. -/
def references (ctx : Context) (t : Tree) : List Reference :=
  match (callFields ctx.family).lookup t.kind, (instantiationFields ctx.family).lookup t.kind with
  | some fields, _ => callReference ctx t fields
  | none, some fields => typeReferences ctx .instantiated (callee? t fields).toList
  | none, none => otherReferences ctx t

end Concordance.Extract
