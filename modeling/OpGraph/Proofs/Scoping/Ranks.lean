import OpGraph.Proofs.Scoping.Nesting
import Mathlib.Data.Finset.Card

/-!
Ranks of the nodes of a body without cyclic dependencies. The rank of a node is the number of nodes
that it depends on, directly or through others; so it falls along each dependency, and is less than
the number of all nodes.
-/

namespace OpGraph

namespace Body

variable {body : Body} {index other : Nat}

theorem Defines.exists_node {name : String} {slot : Nat}
    (hdefines : body.Defines name (.output index slot)) : ∃ node, body.nodes[index]? = some node := by
  rcases hdefines with _ | ⟨_, hnode, _⟩
  exact ⟨_, hnode⟩

theorem Defines.lt_length {name : String} {slot : Nat}
    (hdefines : body.Defines name (.output index slot)) : index < body.nodes.length := by
  obtain ⟨_, hnode⟩ := hdefines.exists_node
  exact (List.getElem?_eq_some_iff.mp hnode).1

theorem DependsOn.lt_length (hdepends : body.DependsOn index other) :
    other < body.nodes.length := by
  obtain ⟨_, _, _, _, _, hdefines⟩ := hdepends
  exact hdefines.lt_length

open Classical in
/-- The nodes that a node depends on, directly or through others. -/
noncomputable def below (body : Body) (index : Nat) : Finset Nat :=
  (Finset.range body.nodes.length).filter (Relation.TransGen body.DependsOn index)

/-- The number of nodes that a node depends on, directly or through others. -/
noncomputable def rank (body : Body) (index : Nat) : Nat := (body.below index).card

open Classical in
theorem mem_below : other ∈ body.below index ↔
    other < body.nodes.length ∧ Relation.TransGen body.DependsOn index other := by
  rw [below, Finset.mem_filter, Finset.mem_range]

/-- Ranks fall along dependencies. -/
theorem DependsOn.rank_lt (hacyclic : body.Acyclic) (hdepends : body.DependsOn index other) :
    body.rank other < body.rank index := by
  apply Finset.card_lt_card
  apply Finset.ssubset_iff_subset_ne.mpr
  constructor
  · intro further hfurther
    obtain ⟨hlt, hpath⟩ := mem_below.mp hfurther
    exact mem_below.mpr ⟨hlt, .head hdepends hpath⟩
  · intro heq
    have hmem : other ∈ body.below index := mem_below.mpr ⟨hdepends.lt_length, .single hdepends⟩
    rw [← heq] at hmem
    exact hacyclic other (mem_below.mp hmem).2

theorem rank_lt_length (hacyclic : body.Acyclic) (hindex : index < body.nodes.length) :
    body.rank index < body.nodes.length := by
  have hsubset : body.below index ⊂ Finset.range body.nodes.length := by
    apply Finset.ssubset_iff_subset_ne.mpr
    constructor
    · exact fun further hfurther => Finset.mem_range.mpr (mem_below.mp hfurther).1
    · intro heq
      have hmem := Finset.mem_range.mpr hindex
      rw [← heq] at hmem
      exact hacyclic index (mem_below.mp hmem).2
  have hlt := Finset.card_lt_card hsubset
  rwa [Finset.card_range] at hlt

end Body

end OpGraph
