import OpGraph.Proofs.Descent.Invariants
import OpGraph.Proofs.Descent.Verdicts
import OpGraph.Proofs.Matching.Counting
import OpGraph.Proofs.Scoping.Mentioned

/-!
What the check that all nodes are paired guarantees. It compares two counts, that of the pairs with
the left nodes and that of the targets with the right nodes. Pairs are always of nodes that are
there, so the check finds that all nodes take part; that they do so one to one follows for bodies
of equally many nodes only.
-/

namespace OpGraph

/-- All nodes of two bodies take part in a pairing, one to one exactly if there are equally many. -/
structure Pairing.CoversBodies (pairing : Pairing) (left right : Body) : Prop where
  cover : NodeCover pairing.partner? left.nodes.length right.nodes.length
  bijection_iff : NodeBijection pairing.partner? left.nodes.length right.nodes.length ↔
    left.nodes.length = right.nodes.length

theorem NodeCover.coversBodies {pairing : Pairing} {left right : Body}
    (hcover : NodeCover pairing.partner? left.nodes.length right.nodes.length) :
    pairing.CoversBodies left right :=
  ⟨hcover, Pairing.bijection_iff_of_cover hcover⟩

section Comparisons

open CompareM

variable {options : CompareOptions}

theorem initial_inRangeAt (left right : Body) (level : Nat) :
    (CompareState.initial left right).stack.InRangeAt level := by
  intro scope hscope
  have hmem := List.mem_of_getElem? hscope
  rw [List.mem_singleton.mp hmem]
  exact Scope.inRange_empty none left right

/-- Where all nodes have to be paired, those of operands that are found equivalent take part,
whatever the operands are. -/
theorem Operands.cover_of_compare {operands : Operands} {pairing : Pairing}
    (hall : operands.pairsAllNodes options = true)
    (hcompare : operands.compare options = .ok (.equivalent pairing)) :
    NodeCover pairing.partner? operands.left.nodes.length operands.right.nodes.length := by
  obtain ⟨_, final, houtputs, rfl, hpaired⟩ := Operands.outputs_of_compare hcompare
  obtain ⟨hscope, hleft, hright⟩ :=
    root_eq_of_extends (houtputs.grows (nestedRun_grows options options.depthLimit))
  have hrange := houtputs.inRangeAt (initial_inRangeAt operands.left operands.right 0) _ hscope
  have hcover := (unpairedRule?_eq_none_iff hrange).mp (hpaired hall)
  rwa [hleft, hright] at hcover

/-- What a comparison of nested graphs that ends well did: it compared their bodies in a scope of
their own, in which all nodes take part. -/
theorem coversBodies_of_compareNested (hall : options.pairAllNodes = true) {levels level : Nat}
    {left right : Graph} {state final : CompareState}
    (hexec : exec (compareNested options levels level left right) state = (.ok true, final)) :
    ∃ below inner scope, levels = below + 1 ∧
      exec (compareBodies options (compareNested options below) state.stack.depth)
        (state.entered level left.body right.body) = (.ok true, inner) ∧
      final = inner.popped ∧ inner.stack.scope? state.stack.depth = some scope ∧
      scope.pairing.CoversBodies left.body right.body := by
  cases levels with
  | zero =>
      have hrun := compareNested_run options 0 level left right state
      rw [hexec] at hrun
      rcases hrun with _ | ⟨_, houtcome, _⟩
      cases houtcome
  | succ below =>
      have hheader : headerDifference? left right = none := by
        have hrun := compareNested_run options (below + 1) level left right state
        rw [hexec] at hrun
        rcases hrun with _ | ⟨hheader, _⟩
        exact hheader
      rw [exec_compareNested hheader] at hexec
      rcases hbody : exec (compareBodies options (compareNested options below)
        state.stack.depth) (state.entered level left.body right.body) with ⟨outcome, inner⟩
      rw [hbody] at hexec
      obtain ⟨rfl, rfl⟩ := Prod.mk.inj hexec
      have hrun := compareBodies_run options (compareNested_run options below)
        (nestedRun_grows options below) state.stack.depth
        (state.entered level left.body right.body)
      rw [hbody] at hrun
      obtain ⟨scope, hscope, hcover⟩ :=
        hrun.covers hall (inRangeAt_entered state level left.body right.body)
      obtain ⟨scope', hscope', hscopes⟩ := (hrun.grows (nestedRun_grows options below)).scope?
        (state.stack.scope?_push_depth level left.body right.body)
      rw [hscope, Option.some.injEq] at hscope'
      subst hscope'
      rw [hscopes.left, hscopes.right] at hcover
      exact ⟨below, inner, scope, rfl, hbody, rfl, hscope, hcover.coversBodies⟩

/-- Where all nodes have to take part, they do so in the operands of a comparison of graphs that
ends well and in all graphs that it compares on the way: every left node has a partner and every
right node is one. No two left nodes share a partner exactly if there are equally many nodes. -/
theorem Graph.compare_covers_all_nodes (hall : options.pairAllNodes = true) :
    (∀ (left right : Graph) (pairing : Pairing),
      left.compare options right = .ok (.equivalent pairing) →
        pairing.CoversBodies left.body right.body) ∧
      ∀ (levels level : Nat) (left right : Graph) (state final : CompareState),
        exec (compareNested options levels level left right) state = (.ok true, final) →
        ∃ below inner scope, levels = below + 1 ∧
          exec (compareBodies options (compareNested options below) state.stack.depth)
            (state.entered level left.body right.body) = (.ok true, inner) ∧
          final = inner.popped ∧ inner.stack.scope? state.stack.depth = some scope ∧
          scope.pairing.CoversBodies left.body right.body :=
  ⟨fun left right _ hcompare =>
      (@Operands.cover_of_compare options (.graphs left right) _ hall hcompare).coversBodies,
    fun _ _ _ _ _ _ hexec => coversBodies_of_compareNested hall hexec⟩

/-- Two nodes that compute the same. -/
def Graph.reluTwice : Graph where
  nodes := [(Node.ofType "Relu").withInputs ["x"] |>.withOutputs ["a"],
    (Node.ofType "Relu").withInputs ["x"] |>.withOutputs ["b"]]
  inputs := ["x"]
  outputs := ["a", "b"]

/-- The same with one node. -/
def Graph.reluOnce : Graph where
  nodes := [(Node.ofType "Relu").withInputs ["x"] |>.withOutputs ["c"]]
  inputs := ["x"]
  outputs := ["c", "c"]

/-- Though all nodes take part, two of them may share a partner. -/
theorem Graph.compare_reluTwice_reluOnce : ∃ pairing : Pairing,
    Graph.reluTwice.checkWellFormed = .ok () ∧ Graph.reluOnce.checkWellFormed = .ok () ∧
      Graph.reluTwice.body.AcyclicScopes ∧ Graph.reluOnce.body.AcyclicScopes ∧
      Graph.reluTwice.compare { pairAllNodes := true } Graph.reluOnce =
        .ok (.equivalent pairing) ∧
      ¬ NodeBijection pairing.partner? Graph.reluTwice.nodes.length
        Graph.reluOnce.nodes.length := by
  refine ⟨⟨[(0, 0), (1, 0)], by decide⟩, rfl, rfl, Body.acyclicScopes_of_inOrder rfl,
    Body.acyclicScopes_of_inOrder rfl, rfl, fun hbijection => ?_⟩
  have hsame := hbijection.injective 0 1 0 rfl rfl
  omega

/-- The same two graphs, as operands and inside of a comparison of their own. -/
theorem Graph.compare_covers_reluTwice :
    (∃ pairing : Pairing, Graph.reluTwice.compare { pairAllNodes := true } Graph.reluOnce =
        .ok (.equivalent pairing) ∧
      pairing.CoversBodies Graph.reluTwice.body Graph.reluOnce.body) ∧
      ∃ inner scope, exec (compareBodies { pairAllNodes := true }
          (compareNested { pairAllNodes := true } 0) 1)
          ((CompareState.initial Graph.reluOnce.body Graph.reluOnce.body).entered 0
            Graph.reluTwice.body Graph.reluOnce.body) = (.ok true, inner) ∧
        inner.stack.scope? 1 = some scope ∧
        scope.pairing.CoversBodies Graph.reluTwice.body Graph.reluOnce.body := by
  have hcovers := @Graph.compare_covers_all_nodes { pairAllNodes := true } rfl
  refine ⟨⟨⟨[(0, 0), (1, 0)], by decide⟩, rfl, hcovers.1 _ _ _ rfl⟩, ?_⟩
  obtain ⟨below, inner, scope, hlevels, hexec, _, hscope, hcovered⟩ :=
    hcovers.2 1 0 Graph.reluTwice Graph.reluOnce
      (CompareState.initial Graph.reluOnce.body Graph.reluOnce.body) _ rfl
  obtain rfl : below = 0 := by omega
  exact ⟨inner, scope, hexec, hscope, hcovered⟩

end Comparisons

end OpGraph
