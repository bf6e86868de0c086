import OpGraph.Proofs.Descent.Confirmation
import OpGraph.Proofs.Matching.Symmetry

/-!
Comparisons of two graphs from both sides. A pair is written for a left node, and only a second
partner of a left node is a conflict; so several left nodes may share a partner, and then the graphs
differ from the other side. Where pairs are one to one, in the graphs and in all graphs nested in
them, the verdict is the same from both sides, under the inverse pairs.
-/

namespace OpGraph

open CompareM

/-- What a comparison holds for the same, with partners that are one to one. -/
def oneToOneGraphs : GraphRule := fun left right partner? =>
  comparedRule.graphs left right partner? ∧ InjectivePartners partner?

/-- The verdict is that of equivalence, and pairs are one to one: those of the operands, and the
partners in all graphs that are found to agree inside of them. -/
def Verdict.OneToOne (left right : Graph) : Verdict → Prop
  | .equivalent pairing => InjectivePartners pairing.partner? ∧
      BodiesAgree oneToOneGraphs [] left.body right.body pairing.partner?
  | .different _ => False

theorem Verdict.OneToOne.exists_equivalent {left right : Graph} {verdict : Verdict}
    (honeToOne : verdict.OneToOne left right) : ∃ pairing, verdict = .equivalent pairing := by
  cases verdict with
  | equivalent pairing => exact ⟨pairing, rfl⟩
  | different difference => exact honeToOne.elim

/-- Two bodies that are found to agree from both sides, in which no name is defined twice. -/
structure AgreeBothWays (outer outer' : List Layer) (left right : Body)
    (partner? partner?' : Nat → Option Nat) : Prop where
  left_unique : left.UniqueScopes
  right_unique : right.UniqueScopes
  forth : BodiesAgree comparedRule.graphs outer left right partner?
  forth_reached : ReachedPartners left right partner?
  back : BodiesAgree comparedRule.graphs outer' right left partner?'
  back_reached : ReachedPartners right left partner?'

namespace AgreeBothWays

variable {left right : Body} {partner? partner?' : Nat → Option Nat} {outer outer' : List Layer}

/-- Partners that are found from both sides are inverse to each other. -/
theorem inverse (hboth : AgreeBothWays outer outer' left right partner? partner?') :
    InversePartners partner? partner?' := by
  intro index index'
  constructor
  · intro hpartner
    apply partner?_of_agree_both hboth.forth hboth.back hboth.left_unique _ hpartner
    exact (hboth.forth_reached.reached index).mp ⟨index', hpartner⟩
  · intro hpartner
    apply partner?_of_agree_both hboth.back hboth.forth hboth.right_unique _ hpartner
    exact (hboth.back_reached.reached index').mp ⟨index, hpartner⟩

/-- The graphs at the same place of partners are found to agree from both sides in turn. -/
theorem nested (hboth : AgreeBothWays outer outer' left right partner? partner?')
    {index index' : Nat} {node node' : Node} {graph graph' : Graph}
    (hpartner : partner? index = some index') (hnode : left.nodes[index]? = some node)
    (hnode' : right.nodes[index']? = some node') (hcarry : node.CarryTogether node' graph graph') :
    graph.inputs.length = graph'.inputs.length ∧ ∃ inner? inner?',
      comparedRule.graphs graph graph' inner? ∧
        AgreeBothWays (⟨left, right, partner?⟩ :: outer) (⟨right, left, partner?'⟩ :: outer')
          graph.body graph'.body inner? inner?' := by
  have hforth := hboth.forth.nodes index index' node node' hpartner hnode hnode'
  have hback := hboth.back.nodes index' index node' node ((hboth.inverse index index').mp hpartner)
    hnode' hnode
  obtain ⟨hinputs, inner?, hrule, hinner⟩ := graphsAgree_iff.mp (hforth.graphsAgree hcarry)
  obtain ⟨_, inner?', hrule', hinner'⟩ := graphsAgree_iff.mp (hback.graphsAgree hcarry.symm)
  exact ⟨hinputs, inner?, inner?', hrule,
    { left_unique := hboth.left_unique.of_carries (List.mem_of_getElem? hnode) hcarry.carries
      right_unique :=
        hboth.right_unique.of_carries (List.mem_of_getElem? hnode') hcarry.symm.carries
      forth := hinner
      forth_reached := hrule.2.2
      back := hinner'
      back_reached := hrule'.2.2 }⟩

/-- Bodies that are found to agree from both sides do so with partners that are one to one, in all
graphs nested in them. -/
theorem oneToOne (hboth : AgreeBothWays outer outer' left right partner? partner?') :
    BodiesAgree oneToOneGraphs outer left right partner? := by
  induction left using Body.nested_induction
    generalizing right partner? partner?' outer outer' with
  | hstep left ih =>
      refine ⟨hboth.forth.outputs, ?_⟩
      intro index index' node node' hpartner hnode hnode'
      apply NodesAgree.imp _ (hboth.forth.nodes index index' node node' hpartner hnode hnode')
      intro graph graph' hcarry _
      obtain ⟨hinputs, inner?, inner?', hrule, hinner⟩ := hboth.nested hpartner hnode hnode' hcarry
      exact graphsAgree_iff.mpr ⟨hinputs, inner?, ⟨hrule, hinner.inverse.injective⟩,
        ih node (List.mem_of_getElem? hnode) graph hcarry.carries hinner⟩

end AgreeBothWays

/-- What agrees with partners that are one to one can be confirmed from the other side. -/
theorem oneToOneGraphs_reverses : GraphRule.Reverses oneToOneGraphs ConfirmableGraphs := by
  rintro left right partner? ⟨⟨hbare, hbare', hreached⟩, hinjective⟩
  refine ⟨hinjective, hbare', hbare, ?_⟩
  intro index' index hinverse
  exact (hreached.in_range index index' ((inverse?_eq_some_iff hinjective).mp hinverse)).symm

section Verdicts

variable {options : CompareOptions} {left right : Graph} {verdict verdict' : Verdict}
  {pairing pairing' : Pairing}

/-- Two graphs that are found equivalent from both sides are so under pairs that are one to one, and
inverse to each other. -/
theorem Graph.oneToOne_of_compare_both (hleft : left.checkWellFormed = .ok ())
    (hright : right.checkWellFormed = .ok ()) (hacyclic : left.body.AcyclicScopes)
    (hacyclic' : right.body.AcyclicScopes)
    (hcompare : left.compare options right = .ok (.equivalent pairing))
    (hcompare' : right.compare options left = .ok (.equivalent pairing')) :
    Verdict.OneToOne left right (.equivalent pairing) ∧
      InversePartners pairing.partner? pairing'.partner? := by
  obtain ⟨_, hrule, hagree⟩ := Graph.agree_of_compare hleft hright hacyclic hcompare
  obtain ⟨_, hrule', hagree'⟩ := Graph.agree_of_compare hright hleft hacyclic' hcompare'
  have hboth : AgreeBothWays [] [] left.body right.body pairing.partner? pairing'.partner? :=
    { left_unique := (Graph.distinct_of_checkWellFormed hleft).names
      right_unique := (Graph.distinct_of_checkWellFormed hright).names
      forth := hagree
      forth_reached := hrule.2.2
      back := hagree'
      back_reached := hrule'.2.2 }
  exact ⟨⟨hboth.inverse.injective, hboth.oneToOne⟩, hboth.inverse⟩

/-- Graphs that are found equivalent under pairs that are one to one are so from the other side, if
there is a verdict from there. -/
theorem Graph.exists_equivalent_of_oneToOne (hleft : left.checkWellFormed = .ok ())
    (hright : right.checkWellFormed = .ok ()) (hacyclic : left.body.AcyclicScopes)
    (hall : options.pairAllNodes = false)
    (hcompare : left.compare options right = .ok (.equivalent pairing))
    (honeToOne : Verdict.OneToOne left right (.equivalent pairing))
    (hcompare' : right.compare options left = .ok verdict') :
    ∃ pairing', verdict' = .equivalent pairing' := by
  obtain ⟨hinputs, hrule, _⟩ := Graph.agree_of_compare hleft hright hacyclic hcompare
  obtain ⟨hinjective, hagree⟩ := honeToOne
  have hboth : GraphsAgree oneToOneGraphs [] left right :=
    graphsAgree_iff.mpr ⟨hinputs, _, ⟨hrule, hinjective⟩, hagree⟩
  have hback := hboth.swap oneToOneGraphs_reverses fun layer hlayer => by cases hlayer
  exact Graph.eq_equivalent_of_graphsAgree hright hleft (confirmableGraphs_confirmedBy hall) hback
    hcompare'

/-- Where there are verdicts on two graphs from both sides, either both are those of equivalence
under pairs that are one to one throughout, or none of them is. So they are if the graphs are found
equivalent from both sides, and then the pairs are inverse to each other. -/
theorem Graph.compare_symm (hleft : left.checkWellFormed = .ok ())
    (hright : right.checkWellFormed = .ok ()) (hacyclic : left.body.AcyclicScopes)
    (hacyclic' : right.body.AcyclicScopes) (hall : options.pairAllNodes = false)
    (hcompare : left.compare options right = .ok verdict)
    (hcompare' : right.compare options left = .ok verdict') :
    (verdict.OneToOne left right ↔ verdict'.OneToOne right left) ∧
      ∀ pairing pairing' : Pairing, verdict = .equivalent pairing →
        verdict' = .equivalent pairing' →
        verdict.OneToOne left right ∧
          ∀ index index', pairing.partner? index = some index' ↔
            pairing'.partner? index' = some index := by
  refine ⟨⟨fun honeToOne => ?_, fun honeToOne => ?_⟩, ?_⟩
  · obtain ⟨pairing, rfl⟩ := honeToOne.exists_equivalent
    obtain ⟨pairing', rfl⟩ :=
      Graph.exists_equivalent_of_oneToOne hleft hright hacyclic hall hcompare honeToOne hcompare'
    exact (Graph.oneToOne_of_compare_both hright hleft hacyclic' hacyclic hcompare' hcompare).1
  · obtain ⟨pairing', rfl⟩ := honeToOne.exists_equivalent
    obtain ⟨pairing, rfl⟩ :=
      Graph.exists_equivalent_of_oneToOne hright hleft hacyclic' hall hcompare' honeToOne hcompare
    exact (Graph.oneToOne_of_compare_both hleft hright hacyclic hacyclic' hcompare hcompare').1
  · rintro pairing pairing' rfl rfl
    exact Graph.oneToOne_of_compare_both hleft hright hacyclic hacyclic' hcompare hcompare'

/-- Two nodes that share a partner are found equivalent to it, but not the other way round. -/
theorem Graph.compare_reluOnce_reluTwice :
    Graph.reluTwice.checkWellFormed = .ok () ∧ Graph.reluOnce.checkWellFormed = .ok () ∧
      Graph.reluTwice.body.AcyclicScopes ∧ Graph.reluOnce.body.AcyclicScopes ∧
      (∃ pairing : Pairing,
        Graph.reluTwice.compare {} Graph.reluOnce = .ok (.equivalent pairing)) ∧
      Graph.reluOnce.compare {} Graph.reluTwice = .ok (.different none) :=
  ⟨rfl, rfl, Body.acyclicScopes_of_inOrder rfl, Body.acyclicScopes_of_inOrder rfl, ⟨_, rfl⟩, rfl⟩

/-- Two values, and a loop that starts with one of them and captures the other one. -/
def Graph.capturingLoop : Graph where
  nodes := [
    { opType := "Relu", inputs := ["x"], outputs := ["a"] },
    { opType := "Neg", inputs := ["x"], outputs := ["n"] },
    { opType := "Loop", inputs := ["n"], outputs := ["y"]
      attributes := [⟨"body", .graph (Graph.addCaptured "a" "i" "t")⟩] }]
  inputs := ["x"]
  outputs := ["y"]

/-- The same with other names, and with the values in another order. -/
def Graph.reorderedLoop : Graph where
  nodes := [
    { opType := "Neg", inputs := ["v"], outputs := ["m"] },
    { opType := "Relu", inputs := ["v"], outputs := ["b"] },
    { opType := "Loop", inputs := ["m"], outputs := ["w"]
      attributes := [⟨"body", .graph (Graph.addCaptured "b" "k" "s")⟩] }]
  inputs := ["v"]
  outputs := ["w"]

/-- The two loops are found equivalent from both sides; the nodes behind what the bodies capture are
partners from both. -/
theorem Graph.compare_symm_loop : ∃ pairing pairing' : Pairing,
    Graph.capturingLoop.compare {} Graph.reorderedLoop = .ok (.equivalent pairing) ∧
      Graph.reorderedLoop.compare {} Graph.capturingLoop = .ok (.equivalent pairing') ∧
      Verdict.OneToOne Graph.capturingLoop Graph.reorderedLoop (.equivalent pairing) ∧
      Verdict.OneToOne Graph.reorderedLoop Graph.capturingLoop (.equivalent pairing') ∧
      pairing.partner? 0 = some 1 ∧ pairing'.partner? 1 = some 0 := by
  have hcompare : Graph.capturingLoop.compare {} Graph.reorderedLoop =
      .ok (.equivalent ⟨[(0, 1), (2, 2), (1, 0)], by decide⟩) := rfl
  have hcompare' : Graph.reorderedLoop.compare {} Graph.capturingLoop =
      .ok (.equivalent ⟨[(1, 0), (2, 2), (0, 1)], by decide⟩) := rfl
  obtain ⟨hiff, hboth⟩ := Graph.compare_symm rfl rfl (Body.acyclicScopes_of_inOrder rfl)
    (Body.acyclicScopes_of_inOrder rfl) rfl hcompare hcompare'
  obtain ⟨honeToOne, hinverse⟩ := hboth _ _ rfl rfl
  exact ⟨_, _, hcompare, hcompare', honeToOne, hiff.mp honeToOne, rfl, (hinverse 0 1).mp rfl⟩

end Verdicts

end OpGraph
