import Concordance.Extract.Header

/-!
# Visibility of declarations

Who may see a member, where its declaration says so, and whether a declaration can be seen from
other modules.
-/

namespace Concordance.Extract

/-- The words for visibility. -/
def visibilityWords : List String := ["private", "protected", "public"]

/-- The visibility among the modifiers. -/
def writtenVisibility (ctx : Context) (t : Tree) : Option String :=
  Text.firstWord? visibilityWords (modifierText ctx t)

/-- The last bare word for visibility among the named siblings before, given nearest first. -/
def switchedVisibility (ctx : Context) (earlier : List Tree) : Option String :=
  (earlier.filter fun t => t.info.named && t.kind == "identifier").findSome? fun t =>
    if visibilityWords.contains (ctx.text t) then some (ctx.text t) else none

/-- The visibility that an access label gives to what follows it. -/
def labelVisibility (ctx : Context) (label : Tree) : String :=
  match writtenVisibility ctx label with
  | some word => word
  | none => .ofList (Chars.strip (Chars.dropEnd (· == ':') (ctx.text label).toList))

/-- The visibility of a member, if it is stated. -/
def visibility (ctx : Context) (n : Node) : Option String :=
  match ctx.family with
  | .ecmascript =>
    match n.tree.childOf? ["accessibility_modifier"] with
    | some m => some (ctx.text m)
    | none =>
      if (n.tree.field? "name").any fun t => t.kind == "private_property_identifier" then
        some "private"
      else writtenVisibility ctx n.tree
  | .rust => (n.tree.childOf? ["visibility_modifier"]).map fun _ => "public"
  | .ruby => switchedVisibility ctx n.earlier
  | .python | .go => none
  | .c =>
    (n.earlier.find? fun t => t.info.named && t.kind == "access_specifier").map
      (labelVisibility ctx)
  | _ => writtenVisibility ctx n.tree

/-- The word that exports a declaration, in the families that have one. -/
def exportWord? : Family → Option String
  | .ecmascript => some "export"
  | .rust => some "pub"
  | .jvm | .csharp | .php => some "public"
  | _ => none

/-- Whether the export word of a family may stand anywhere among the modifiers. -/
def exportsByModifier : Family → Bool
  | .jvm | .csharp | .php => true
  | _ => false

/-- Whether a declaration is exported by the statement around it or by a word. -/
def isExportedByWord (ctx : Context) (n : Node) : Bool :=
  let s := n.statement
  if s.parentKind?.any Node.isExporting then true
  else match exportWord? ctx.family with
    | none => false
    | some word =>
      Text.startsWithWord word (.ofList (Chars.stripStart (ctx.text s.tree).toList)) ||
        (exportsByModifier ctx.family && hasModifier ctx n.tree word)

/-- Whether a declaration of a name can be seen from other modules. -/
def isExported (ctx : Context) (n : Node) (name : String) : Bool :=
  match ctx.family with
  | .go => Text.startsUpper name
  | .python => n.isTopLevel && !Text.startsWith "_" name
  | .php => n.isTopLevel || n.parentKind? == some "compound_statement" || isExportedByWord ctx n
  | .c => n.isTopLevel && !Text.hasWord "static" (headerText ctx n.tree)
  | _ => isExportedByWord ctx n

end Concordance.Extract
