import OpGraph.Proofs.Scoping.Enclosing
import OpGraph.Proofs.Scoping.Seeking

/-!
Operands that refer to nothing outside. Each name that is written in such an operand, at any depth, is
defined inside of it. So a search that starts from its outputs ends in the operand: what it seeks is
not looked for any further out.
-/

namespace OpGraph

namespace Body

/-- Every name that is written in a scope, among its outputs or the inputs of its nodes, is defined in
this scope or in one around it, unless the value is left out. -/
def SelfContained (root : Body) : Prop :=
  ∀ ⦃body : Body⦄ ⦃outer : List Body⦄ ⦃name : String⦄, root.HasPath (body :: outer) → name ≠ "" →
    (name ∈ body.outputs ∨ ∃ node ∈ body.nodes, name ∈ node.inputs) →
    ∃ enclosing ∈ body :: outer, name ∈ enclosing.definedNames

/-- The body defines all that its outputs lead to, but for values that are left out. -/
def DefinesSought (body : Body) : Prop :=
  ∀ ⦃name : String⦄, body.Seeks name → name ≠ "" → body.origin? name ≠ none

variable {root body : Body} {outer : List Body} {name : String}

/-- What the outputs of a scope lead to is defined in this scope or in one around it. -/
theorem HasPath.exists_defining (hpath : root.HasPath (body :: outer)) (hself : root.SelfContained)
    (hseeks : body.Seeks name) (hname : name ≠ "") :
    ∃ enclosing ∈ body :: outer, name ∈ enclosing.definedNames := by
  induction hseeks generalizing outer with
  | output houtput => exact hself hpath hname (Or.inl houtput)
  | input _ _ hnode hinput _ =>
      exact hself hpath hname (Or.inr ⟨_, List.mem_of_getElem? hnode, hinput⟩)
  | captured _ _ hnode hcarries _ hnone _ ihGraph =>
      obtain ⟨enclosing, hmem, hdefined⟩ :=
        ihGraph (hpath.nested (List.mem_of_getElem? hnode) hcarries) hname
      rcases List.mem_cons.mp hmem with rfl | houter
      · exact absurd hdefined (notMem_definedNames_of_lacks (lacks_of_origin?_eq_none hnone))
      · exact ⟨enclosing, houter, hdefined⟩

theorem SelfContained.definesSought (hself : root.SelfContained) : root.DefinesSought := by
  intro name hseeks hname hnone
  obtain ⟨enclosing, hmem, hdefined⟩ := HasPath.root.exists_defining hself hseeks hname
  obtain rfl := List.mem_singleton.mp hmem
  exact notMem_definedNames_of_lacks (lacks_of_origin?_eq_none hnone) hdefined

/-- A well-formed operand refers to nothing outside. -/
theorem StandsAlone.selfContained (halone : root.StandsAlone) : root.SelfContained := by
  intro body outer name hpath hname hwritten
  obtain ⟨distance, origin, hinner⟩ := hpath.exists_innermostDefinition halone hname hwritten
  obtain ⟨enclosing, hget, hdefines⟩ := hinner.defines
  exact ⟨enclosing, List.mem_of_getElem? hget, hdefines.mem_definedNames⟩

end Body

end OpGraph
