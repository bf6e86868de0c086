import OpGraph.Proofs.Matching.Isomorphism

/-!
Data that is never found to be the same, not even as itself: payloads that are never compared, a NaN,
and graphs with initializers. What holds of such data holds of the nodes that have it, and from
there of the nodes that carry them in their graphs, as far as nodes of graphs take part.
-/

namespace OpGraph

/-- The value holds what is never the same as anything. A reference to a parameter of the function
holds no payload, whatever the kind of the parameter is. -/
inductive AttributeValue.Unmatchable (value : AttributeValue) : Prop where
  | payload : value.isOpaque = true → value.Unmatchable
  | nan : value.holdsNaN = true → value.Unmatchable
  | initializers {graph : Graph} : graph ∈ value.subgraphs → ¬ graph.Bare → value.Unmatchable

/-- The node takes part in a comparison of the graph: it is reached from the outputs, or all nodes
of graphs have to be paired. -/
def Graph.TakesPart (all : Bool) (graph : Graph) (index : Nat) : Prop :=
  all = true ∨ graph.body.Reaches index

/-- The node has an attribute that is never the same as another, or so does a node that takes part in
a graph that it carries, itself or further in. -/
inductive Node.Unmatchable (all : Bool) : Node → Prop where
  | held {node : Node} {attr : Attribute} : attr ∈ node.attributes → attr.value.Unmatchable →
      Unmatchable all node
  | carried {node inner : Node} {graph : Graph} {index : Nat} : node.Carries graph →
      graph.nodes[index]? = some inner → graph.TakesPart all index → Unmatchable all inner →
      Unmatchable all node

/-- Nothing in the graph keeps it from being the same as another. -/
structure Graph.Clear (all : Bool) (graph : Graph) : Prop where
  bare : graph.Bare
  nodes : ∀ ⦃index : Nat⦄ ⦃node : Node⦄, graph.nodes[index]? = some node →
    graph.TakesPart all index → ¬ node.Unmatchable all

section Values

theorem Binary.isNaN_eq_false {format : BinaryFormat} {value value' : Binary format}
    (hequal : value.numericEq value' = true) : value.isNaN = false := by
  cases value with
  | nan => cases hequal
  | ranked negative rank => rfl

/-- What is the same as another value holds no NaN. -/
theorem AttributeValue.SamePlain.holdsNaN_eq {value value' : AttributeValue}
    (hsame : value.SamePlain value') : value.holdsNaN = false := by
  cases value with
  | float number =>
      cases value' with
      | float number' => exact Binary.isNaN_eq_false hsame
      | _ => exact hsame.elim
  | floats numbers =>
      cases value' with
      | floats numbers' =>
          have hnumbers := hsame.imp fun _ _ hequal => And.intro (Binary.isNaN_eq_false hequal) hequal
          rw [holdsNaN, List.any_eq_false]
          intro number hnumber
          simp [((List.forall₂_and_left _ _).mp hnumbers).1 number hnumber]
      | _ => exact hsame.elim
  | _ => rfl

end Values

section Nodes

variable {all : Bool} {node : Node}

/-- A node is matchable if its values are, and its graphs are clear. -/
theorem Node.not_unmatchable
    (hvalues : ∀ attr ∈ node.attributes,
      attr.value.isOpaque = false ∧ attr.value.holdsNaN = false)
    (hgraphs : ∀ graph, node.Carries graph → graph.Clear all) : ¬ node.Unmatchable all := by
  rintro (@⟨_, attr, hattr, hpayload | hnan | ⟨hgraph, hbare⟩⟩ | ⟨hcarries, hinner, hpart, hbad⟩)
  · rw [(hvalues attr hattr).1] at hpayload
    cases hpayload
  · rw [(hvalues attr hattr).2] at hnan
    cases hnan
  · exact hbare (hgraphs _ ⟨attr, hattr, hgraph⟩).bare
  · exact (hgraphs _ hcarries).nodes hinner hpart hbad

end Nodes

end OpGraph
