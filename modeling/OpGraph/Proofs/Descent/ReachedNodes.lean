import OpGraph.Proofs.Descent.Characterization
import OpGraph.Proofs.Matching.ReachedNodes

/-!
Which nodes the pairs of a verdict are of. On either side they are those that the outputs reach,
through inputs and through what graphs capture, at any depth; a nested node on which no nested output
depends captures nothing. So a function with a node that its outputs do not reach is equivalent to
none, not even to itself.
-/

namespace OpGraph

/-- The pairs are of the nodes that two bodies reach, on either side of all of them. -/
structure Pairing.OfReached (pairing : Pairing) (left right : Body) : Prop where
  left_iff : ∀ index, (∃ index', pairing.partner? index = some index') ↔ left.Reaches index
  right_iff : ∀ index', (∃ index, pairing.partner? index = some index') ↔ right.Reaches index'

section Operands

variable {options : CompareOptions} {pairing : Pairing}

theorem Body.Agreement.ofReached {left right : Body}
    (hagree : left.Agreement options right pairing.partner?) (hleft : left.Distinct)
    (hright : right.Distinct) : pairing.OfReached left right where
  left_iff := hagree.partners.reached
  right_iff := Body.reaches_iff_exists_partner hagree.agree hagree.partners.reached hleft.names
    hright.names

/-- Where all nodes have to be paired, those of operands that are found equivalent are reached,
whatever the operands are. -/
theorem Operands.reaches_of_compare {operands : Operands}
    (hall : operands.pairsAllNodes options = true)
    (hcompare : operands.compare options = .ok (.equivalent pairing)) :
    (∀ index < operands.left.nodes.length, operands.left.Reaches index) ∧
      ∀ index < operands.right.nodes.length, operands.right.Reaches index := by
  have hcover := Operands.cover_of_compare hall hcompare
  constructor
  · intro index hindex
    obtain ⟨index', hpartner⟩ := hcover.total index hindex
    exact (Operands.meetTogether_of_compare hcompare hpartner).reaches.1
  · intro index' hindex'
    obtain ⟨index, hpartner⟩ := hcover.onto index' hindex'
    exact (Operands.meetTogether_of_compare hcompare hpartner).reaches.2

theorem Operands.ofReached_of_compare {operands : Operands} (hwell : operands.WellFormed)
    (hacyclic : operands.left.AcyclicScopes)
    (hcompare : operands.compare options = .ok (.equivalent pairing)) :
    pairing.OfReached operands.left operands.right :=
  (Operands.agreement_of_compare hwell hacyclic hcompare).bodies.ofReached hwell.left_distinct
    hwell.right_distinct

/-- The pairs of two graphs or functions that are found equivalent are of the nodes that the outputs
of either one reach. No function with a node that its outputs do not reach is found equivalent to
any function, from either side. -/
theorem compare_pairs_reached (options : CompareOptions) :
    (∀ (left right : Graph) (pairing : Pairing), left.checkWellFormed = .ok () →
        right.checkWellFormed = .ok () → left.body.AcyclicScopes →
        left.compare options right = .ok (.equivalent pairing) →
        pairing.OfReached left.body right.body) ∧
      (∀ (left right : Function) (pairing : Pairing), left.checkWellFormed = .ok () →
        right.checkWellFormed = .ok () → left.body.AcyclicScopes →
        left.compare options right = .ok (.equivalent pairing) →
        pairing.OfReached left.body right.body) ∧
      ∀ (function other : Function) (index : Nat) (pairing : Pairing),
        index < function.nodes.length → ¬ function.body.Reaches index →
        function.compare options other ≠ .ok (.equivalent pairing) ∧
          other.compare options function ≠ .ok (.equivalent pairing) := by
  refine ⟨?_, ?_, ?_⟩
  · intro left right pairing hleft hright
    exact @Operands.ofReached_of_compare _ _ (.graphs left right) ⟨hleft, hright⟩
  · intro left right pairing hleft hright
    exact @Operands.ofReached_of_compare _ _ (.functions left right) ⟨hleft, hright⟩
  · intro function other index pairing hindex hunreached
    constructor
    · intro hcompare
      exact hunreached ((@Operands.reaches_of_compare _ _ (.functions function other) rfl
        hcompare).1 index hindex)
    · intro hcompare
      exact hunreached ((@Operands.reaches_of_compare _ _ (.functions other function) rfl
        hcompare).2 index hindex)

/-- A choice whose branch captures a value in a node on which nothing depends. -/
def Graph.idleCapture : Graph where
  nodes := [
    { opType := "Relu", inputs := ["x"], outputs := ["a"] },
    { opType := "If", inputs := ["x"], outputs := ["y"]
      attributes := [⟨"then_branch", .graph
        { nodes := [
            { opType := "Neg", inputs := ["a"], outputs := ["n"] },
            { opType := "Add", inputs := ["x", "x"], outputs := ["t"] }]
          outputs := ["t"] }⟩] }]
  inputs := ["x"]
  outputs := ["y"]

/-- The same as a function. -/
def Function.idleCapture : Function where
  inputs := ["x"]
  outputs := ["y"]
  nodes := Graph.idleCapture.nodes

/-- The captured value is not reached, so the graph is found equivalent to itself without it, and the
function is not. The two choices of the other example reach all of their nodes. -/
theorem compare_pairs_reached_idleCapture :
    (¬ Graph.idleCapture.body.Reaches 0 ∧ Graph.idleCapture.body.Reaches 1) ∧
      (Function.choice.body.Reaches 0 ∧ Function.renamedChoice.body.Reaches 1) ∧
      ∀ (other : Function) (pairing : Pairing),
        Function.idleCapture.compare {} other ≠ .ok (.equivalent pairing) ∧
          other.compare {} Function.idleCapture ≠ .ok (.equivalent pairing) := by
  have hidle := (compare_pairs_reached {}).1 Graph.idleCapture Graph.idleCapture
    ⟨[(1, 1)], by decide⟩ rfl rfl (Body.acyclicScopes_of_inOrder rfl) rfl
  have hchoice := (compare_pairs_reached {}).2.1 Function.choice Function.renamedChoice
    ⟨[(0, 1), (1, 0)], by decide⟩ rfl rfl (Body.acyclicScopes_of_inOrder rfl) rfl
  have hunreached : ¬ Graph.idleCapture.body.Reaches 0 := by
    intro hreaches
    obtain ⟨index', hpartner⟩ := (hidle.left_iff 0).mpr hreaches
    cases hpartner
  refine ⟨⟨hunreached, (hidle.left_iff 1).mp ⟨1, rfl⟩⟩,
    ⟨(hchoice.left_iff 0).mp ⟨1, rfl⟩, (hchoice.right_iff 1).mp ⟨0, rfl⟩⟩, fun other pairing => ?_⟩
  exact (compare_pairs_reached {}).2.2 Function.idleCapture other 0 pairing (by decide) hunreached

end Operands

end OpGraph
