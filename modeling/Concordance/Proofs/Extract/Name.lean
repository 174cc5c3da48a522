import Concordance.Extract.Name
import Concordance.Proofs.Tree.Place

/-!
# Where names stand

Whatever way the name of a declaration or of an expression is looked for, it is found below the tree
in which it is looked for.
-/

namespace Concordance.Tree

variable {t c : Tree}

/-- A field of a node stands below it. -/
theorem field?_mem_preorder {name : String} (h : t.field? name = some c) : c ∈ t.preorder :=
  child_mem_preorder (mem_of_field? h)

/-- So do all fields of one name. -/
theorem mem_preorder_of_mem_fields {name : String} (h : c ∈ t.fields name) : c ∈ t.preorder :=
  child_mem_preorder (List.mem_filter.mp h).1

/-- So does a child of some kind. -/
theorem childOf?_mem_preorder {kinds : List String} (h : t.childOf? kinds = some c) :
    c ∈ t.preorder :=
  child_mem_preorder (List.mem_of_find?_eq_some h)

/-- So do all such children. -/
theorem mem_preorder_of_mem_childrenOf {kinds : List String} (h : c ∈ t.childrenOf kinds) :
    c ∈ t.preorder :=
  child_mem_preorder (List.mem_filter.mp h).1

/-- So do the named children. -/
theorem mem_preorder_of_mem_namedChildren (h : c ∈ t.namedChildren) : c ∈ t.preorder :=
  child_mem_preorder (mem_of_mem_namedChildren h)

/-- The name of a node stands below it. -/
theorem nameNode?_mem_preorder (h : t.nameNode? = some c) : c ∈ t.preorder := by
  rw [nameNode?, Option.orElse_eq_orElse, Option.orElse_eq_or, Option.or_eq_some_iff] at h
  rcases h with h | ⟨-, h⟩
  · exact field?_mem_preorder h
  · exact childOf?_mem_preorder h

/-- The plain name that a tree comes down to stands below it. -/
theorem target?_mem_preorder (h : t.target? = some c) : c ∈ t.preorder := by
  induction t using induction_on_children with
  | step t ih =>
      rw [target?] at h
      split at h
      · cases h
        exact c.self_mem_preorder
      · split at h
        · cases h
        · next d hcarrier =>
          have hd := mem_of_nameCarrier? hcarrier
          exact mem_preorder_of_child hd (ih d hd h)

/-- What a tree comes down to is a plain name. -/
theorem isIdentifier_of_target? (h : t.target? = some c) : c.isIdentifier = true := by
  induction t using induction_on_children with
  | step t ih =>
      rw [target?] at h
      split at h
      · next hplain =>
        cases h
        exact hplain
      · split at h
        · cases h
        · next d hcarrier => exact ih d (mem_of_nameCarrier? hcarrier) h

/-- The declarator of a function stands below the declarator in which it is looked for. -/
theorem functionDeclarator?_mem_preorder (h : t.functionDeclarator? = some c) :
    c ∈ t.preorder := by
  induction t using induction_on_children with
  | step t ih =>
      rw [functionDeclarator?] at h
      split at h
      · cases h
        exact c.self_mem_preorder
      · split at h
        · cases h
        · next d hfield =>
          have hd := mem_of_field? hfield
          exact mem_preorder_of_child hd (ih d hd h)

end Concordance.Tree
