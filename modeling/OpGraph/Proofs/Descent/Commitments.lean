import OpGraph.Proofs.Descent.Guarantees
import OpGraph.Proofs.Descent.PairedOnce

/-!
What becomes of a pair of nodes that a comparison has settled on. A node is looked up before its
attributes are compared and paired after that, and in between a nested comparison may come to the
same node from inside and pair it: then the comparison stops with a fault. If no node of the left
operand depends on itself, this never happens. An accepted pair is always the one that is written,
and the verdict says so.
-/

namespace OpGraph

namespace CompareM

open ScopeStack

/-- What the comparison of two operands comes by: a state with all that is pending in its innermost
descent, and how many comparisons of nested graphs may still go on inside each other. -/
inductive Reached (options : CompareOptions) (leftRoot rightRoot : Body) :
    Nat → CompareState → List Pending → Prop where
  | outputs : leftRoot.outputs.length = rightRoot.outputs.length →
      Reached options leftRoot rightRoot options.depthLimit (.initial leftRoot rightRoot)
        (pendingValues 0 leftRoot.outputs rightRoot.outputs [])
  | step {levels : Nat} {state inner : CompareState} {next : Pending}
      {rest pending : List Pending} :
      Reached options leftRoot rightRoot levels state (next :: rest) →
      exec (step options (compareNested options levels) next) state = (.ok (some pending), inner) →
      Reached options leftRoot rightRoot levels inner (pending ++ rest)
  | nested {levels level left right : Nat} {via : List UseStep} {rest : List Pending}
      {state inner : CompareState} {scope : Scope} {leftNode rightNode : Node}
      {calls later : List GraphCall} {call : GraphCall} :
      Reached options leftRoot rightRoot (levels + 1) state (.nodes level left right via :: rest) →
      FreshNodes state.stack level left right scope leftNode rightNode →
      nodeRule? leftNode rightNode = none →
      (attributePlan leftNode.attributes rightNode.attributes).calls = calls ++ call :: later →
      exec (makeCalls (compareNested options (levels + 1) level) calls) state = (.ok none, inner) →
      headerDifference? call.left call.right = none →
      call.left.outputs.length = call.right.outputs.length →
      Reached options leftRoot rightRoot levels
        (inner.entered level call.left.body call.right.body)
        (pendingValues inner.stack.depth call.left.outputs call.right.outputs [])

section Execution

variable {options : CompareOptions} {nested : NestedComparison} {relation : NestedRelation}
  {level levels : Nat} {state : CompareState}

theorem exec_compareOutputs {lefts rights : List String} (hlength : lefts.length = rights.length) :
    exec (compareOutputs options nested level lefts rights) state =
      exec (drain options nested (2 * ((pendingValues level lefts rights []).length +
        inputTotal state.stack)) (pendingValues level lefts rights [])) state := by
  simp only [compareOutputs, exec_bind, exec_valuesStep, if_pos hlength]
  rfl

/-- After the outputs of two bodies nothing else is done to the scopes. -/
theorem compareBodies_stack {scope : Scope} (hscope : state.stack.scope? level = some scope) :
    (exec (compareBodies options nested level) state).2.stack =
      (exec (compareOutputs options nested level scope.left.outputs scope.right.outputs)
        state).2.stack := by
  simp only [compareBodies, exec_bind, exec_scopeAt, hscope]
  rcases exec (compareOutputs options nested level scope.left.outputs scope.right.outputs)
    state with ⟨error | matched, inner⟩
  · rfl
  · cases matched with
    | false => rfl
    | true =>
        cases hall : options.pairAllNodes with
        | false => rfl
        | true => exact (requireAllPaired_run options level inner).stack_eq

/-- The step for two nodes starts with the calls for their attributes. -/
theorem FreshNodes.extends_of_calls (options : CompareOptions) (nested : NestedComparison)
    {left right : Nat} (via : List UseStep) {scope : Scope} {leftNode rightNode : Node}
    (hfresh : FreshNodes state.stack level left right scope leftNode rightNode)
    (hrule : nodeRule? leftNode rightNode = none) :
    (exec (makeCalls (nested level)
        (attributePlan leftNode.attributes rightNode.attributes).calls) state).2.stack.Extends
      (exec (nodeStep options nested level left right via) state).2.stack := by
  rw [exec_nodeStep_fresh hfresh, exec_bind, exec_headsMatch, hrule]
  simp only
  rcases exec (makeCalls (nested level)
    (attributePlan leftNode.attributes rightNode.attributes).calls) state with
    ⟨error | call | call, inner⟩
  · exact Extends.refl _
  · cases (attributePlan leftNode.attributes rightNode.attributes).difference? with
    | none =>
        simp only [if_true, exec_bind, exec_valuesStep]
        by_cases hlength : leftNode.inputs.length = rightNode.inputs.length
        · simp only [if_pos hlength, exec_bind, exec_pair]
          cases inner.stack.partner? level left with
          | none => exact extends_pair inner.stack level left right
          | some partner => exact Extends.refl _
        · simp only [if_neg hlength]
          change inner.stack.Extends (inner.rejected options _ _).stack
          rw [CompareState.stack_rejected]
          exact Extends.refl _
    | some difference =>
        change inner.stack.Extends (inner.rejected options _ _).stack
        rw [CompareState.stack_rejected]
        exact Extends.refl _
  · exact Extends.refl _

/-- A descent with enough steps keeps what its first step did. -/
theorem drain_extends_step (hnested : Realizes nested relation) (hgrows : Grows relation)
    {next : Pending} {rest : List Pending} {steps : Nat}
    (hsteps : pendingWeight (next :: rest) + 2 * state.stack.openInputs ≤ steps + 1) :
    (exec (step options nested next) state).2.stack.Extends
      (exec (drain options nested (steps + 1) (next :: rest)) state).2.stack := by
  have hstep := step_run options hnested next state
  rw [drain, exec_bind]
  rcases hexec : exec (step options nested next) state with ⟨error | pending | pending, inner⟩
  · exact Extends.refl _
  · exact Extends.refl _
  · rw [hexec] at hstep
    have hweight := hstep.weight_le hgrows
    rw [pendingWeight_cons] at hsteps
    refine (drain_run options hnested hgrows ?_).grows hgrows
    rw [pendingWeight_append]
    omega

/-- The calls up to one of them keep what this one did. -/
theorem makeCalls_extends_call (hnested : Realizes nested relation) (hgrows : Grows relation)
    {calls : List GraphCall} {inner : CompareState} (call : GraphCall) (later : List GraphCall)
    (hcalls : exec (makeCalls (nested level) calls) state = (.ok none, inner)) :
    (exec (nested level call.left call.right) inner).2.stack.Extends
      (exec (makeCalls (nested level) (calls ++ call :: later)) state).2.stack := by
  rw [makeCalls_append, exec_bind, hcalls]
  simp only [makeCalls, exec_bind]
  rcases exec (nested level call.left call.right) inner with ⟨error | matched, final⟩
  · exact Extends.refl _
  · cases matched with
    | false => exact Extends.refl _
    | true => exact (makeCalls_run hnested level later final).grows hgrows

end Execution

section Reaching

variable {options : CompareOptions} {leftRoot rightRoot : Body} {levels : Nat}
  {state final : CompareState} {pending : List Pending}

/-- What a step does is a run of it. -/
theorem stepRun_of_exec {next : Pending} {outcome : Outcome (Option (List Pending))}
    (hstep : exec (step options (compareNested options levels) next) state = (outcome, final)) :
    StepRun options (NestedRun options levels) state next outcome final := by
  have hrun := step_run options (compareNested_run options levels) next state
  rwa [hstep] at hrun

/-- What the calls for two nodes do is a run of them. -/
theorem callsRun_of_exec {level : Nat} {calls : List GraphCall}
    {outcome : Outcome (Option GraphCall)}
    (hcalls : exec (makeCalls (compareNested options levels level) calls) state =
      (outcome, final)) :
    CallsRun (NestedRun options levels) level calls state outcome final := by
  have hrun := makeCalls_run (compareNested_run options levels) level calls state
  rwa [hcalls] at hrun

/-- What the comparison of outputs does is a run of it. -/
theorem outputsRun_of_exec {level : Nat} {lefts rights : List String} {outcome : Outcome Bool}
    (houtputs : exec (compareOutputs options (compareNested options levels) level lefts rights)
      state = (outcome, final)) :
    OutputsRun options (NestedRun options levels) level lefts rights state outcome final := by
  have hrun := compareOutputs_run options (compareNested_run options levels)
    (nestedRun_grows options levels) level lefts rights state
  rwa [houtputs] at hrun

/-- The calls of two nodes are for graphs that the bodies at their level carry. -/
theorem FreshNodes.entered {level left right : Nat} {scope : Scope} {leftNode rightNode : Node}
    {inner : CompareState} {call : GraphCall} (hproper : state.stack.Proper leftRoot rightRoot)
    (hfresh : FreshNodes state.stack level left right scope leftNode rightNode)
    (hextends : state.stack.Extends inner.stack)
    (hcall : call ∈ (attributePlan leftNode.attributes rightNode.attributes).calls) :
    (inner.entered level call.left.body call.right.body).stack.Proper leftRoot rightRoot := by
  have hbodies : state.stack.HasBodies level scope.left scope.right :=
    ⟨scope, hfresh.scope_eq, rfl, rfl⟩
  obtain ⟨hcarries, hcarries'⟩ := mem_attributePlan hcall
  apply Proper.entered (hproper.of_extends hextends) (hbodies.of_extends hextends)
  exact ⟨⟨leftNode, List.mem_of_getElem? hfresh.left_eq, hcarries⟩,
    ⟨rightNode, List.mem_of_getElem? hfresh.right_eq, hcarries'⟩⟩

/-- All that a comparison comes by are scopes of its operands. -/
theorem Reached.proper (hreached : Reached options leftRoot rightRoot levels state pending) :
    state.stack.Proper leftRoot rightRoot := by
  induction hreached with
  | outputs _ => exact proper_initial leftRoot rightRoot
  | step _ hstep ih => exact ih.of_extends ((stepRun_of_exec hstep).grows (nestedRun_grows _ _))
  | nested _ hfresh _ hplan hcalls _ _ ih =>
      refine hfresh.entered ih ((callsRun_of_exec hcalls).grows (nestedRun_grows _ _)) ?_
      rw [hplan]
      exact List.mem_append_right _ List.mem_cons_self

/-- The pairs of the operands go on to be there. -/
def RootPairsStay (state final : CompareState) : Prop :=
  ∀ ⦃index index' : Nat⦄, state.stack.partner? 0 index = some index' →
    final.stack.partner? 0 index = some index'

theorem rootPairsStay_of_extends {inner : CompareState} (hextends : state.stack.Extends inner.stack)
    (hstay : RootPairsStay inner final) : RootPairsStay state final :=
  fun _ _ hpartner => hstay (hextends.partner? hpartner)

/-- What is paired at the root in a scope that was entered is paired there when it is left. -/
theorem rootPairsStay_popped {inner : CompareState} {parent : Nat} {left right : Body}
    (hextends : (state.entered parent left right).stack.Extends inner.stack)
    (hstay : RootPairsStay inner.popped final) : RootPairsStay inner final := by
  intro index index' hpartner
  apply hstay
  have hdepth : inner.stack.depth = state.stack.depth + 1 := by
    rw [hextends.depth_eq, CompareState.stack_entered, depth_push]
  have hpos : 0 < state.stack.depth := by simp [depth, scopes]
  rw [CompareState.stack_popped, ScopeStack.partner?, scope?_pop_of_lt (by omega)]
  exact hpartner

/-- Whatever a comparison comes by, the pairs of the operands that its descent makes from there on
are among those in which the whole comparison ends. -/
theorem Reached.rootPairsStay
    (hfinal : (exec (compareOutputs options (compareNested options options.depthLimit) 0
      leftRoot.outputs rightRoot.outputs) (.initial leftRoot rightRoot)).2 = final)
    (hreached : Reached options leftRoot rightRoot levels state pending) :
    ∃ steps, pendingWeight pending + 2 * state.stack.openInputs ≤ steps ∧
      RootPairsStay (exec (drain options (compareNested options levels) steps pending) state).2
        final := by
  induction hreached with
  | outputs hlength =>
      rw [exec_compareOutputs hlength] at hfinal
      refine ⟨_, weight_le_steps (CompareState.initial leftRoot rightRoot).stack 0 hlength, ?_⟩
      rw [hfinal]
      exact fun _ _ hpartner => hpartner
  | @step levels state inner next rest pending _ hstep ih =>
      obtain ⟨steps, hsteps, hstay⟩ := ih
      have hweight := (stepRun_of_exec hstep).weight_le (nestedRun_grows options levels)
      rw [pendingWeight_cons] at hsteps
      obtain ⟨fewer, rfl⟩ : ∃ fewer, steps = fewer + 1 := ⟨steps - 1, by omega⟩
      rw [drain, exec_bind, hstep] at hstay
      refine ⟨fewer, ?_, hstay⟩
      rw [pendingWeight_append]
      omega
  | @nested levels level left right via rest state inner scope leftNode rightNode calls later call
      hbefore hfresh hrule hplan hcalls hheader hlength ih =>
      obtain ⟨steps, hsteps, hstay⟩ := ih
      have hnested := compareNested_run options (levels + 1)
      have hgrows := nestedRun_grows options (levels + 1)
      obtain ⟨fewer, rfl⟩ : ∃ fewer, steps = fewer + 1 := by
        rw [pendingWeight_cons, Pending.weight] at hsteps
        exact ⟨steps - 1, by omega⟩
      have hentered := scope?_push_depth inner.stack level call.left.body call.right.body
      have houtputs := @compareBodies_stack options (compareNested options levels) _
        (inner.entered level call.left.body call.right.body) _ hentered
      have hbodies := compareBodies_run options (compareNested_run options levels)
        (nestedRun_grows options levels) inner.stack.depth
        (inner.entered level call.left.body call.right.body)
      -- the pairs stay when the scope is left, in the later calls, and in the rest of the descent
      have hcall := makeCalls_extends_call hnested hgrows call later hcalls
      have hnodes := (hfresh.extends_of_calls options (compareNested options (levels + 1)) via
        hrule).trans (drain_extends_step hnested hgrows hsteps)
      rw [hplan] at hnodes
      rw [exec_compareNested hheader] at hcall
      have hpopped := rootPairsStay_popped
        (hbodies.grows (nestedRun_grows options levels))
        (rootPairsStay_of_extends (hcall.trans hnodes) hstay)
      refine ⟨_, weight_le_steps (inner.entered level call.left.body call.right.body).stack
        inner.stack.depth hlength, ?_⟩
      rw [RootPairsStay, houtputs] at hpopped
      rw [← exec_compareOutputs hlength]
      exact hpopped

/-- Where no node depends on itself, the attributes of two nodes are compared without pairing the
left one. -/
theorem Reached.unpaired_after {level left right : Nat} {via : List UseStep} {rest : List Pending}
    {scope : Scope} {leftNode rightNode : Node} {calls : List GraphCall}
    {outcome : Outcome (Option GraphCall)} (hacyclic : leftRoot.AcyclicScopes)
    (hreached : Reached options leftRoot rightRoot levels state
      (.nodes level left right via :: rest))
    (hfresh : FreshNodes state.stack level left right scope leftNode rightNode)
    (hplan : (attributePlan leftNode.attributes rightNode.attributes).calls = calls)
    (hcalls : CallsRun (NestedRun options levels) level calls state outcome final) :
    final.stack.partner? level left = none := by
  subst hplan
  exact hfresh.unpaired_after hacyclic (nestedRun_reachesOnly options leftRoot rightRoot levels)
    (nestedRun_grows options levels) hreached.proper hcalls

/-- Two nodes that are accepted are partners: they were before, or have been paired just now. -/
theorem partner?_of_nodeStep {level left right : Nat} {via : List UseStep}
    (hstep : exec (nodeStep options (compareNested options levels) level left right via) state =
      (.ok (some pending), final)) : final.stack.partner? level left = some right := by
  have hrun : StepRun options (NestedRun options levels) state (.nodes level left right via)
      (.ok (some pending)) final := stepRun_of_exec hstep
  cases hrun with
  | partners hscope hpartner => rw [partner?_of_scope? hscope, hpartner]
  | nodesPaired hfresh _ hcalls _ _ hunpaired =>
      obtain ⟨scope, hscope, _⟩ := (hcalls.grows (nestedRun_grows options levels)).scope?
        hfresh.scope_eq
      rw [CompareState.stack_paired, partner?_pair hscope, if_pos ⟨rfl, rfl⟩, hunpaired,
        Option.getD_none]

end Reaching

end CompareM

open CompareM

section Operands

variable {options : CompareOptions} {pairing : Pairing}

/-- What a comparison of two operands accepts, it writes and keeps. -/
structure Operands.KeepsAccepted (options : CompareOptions) (operands : Operands) : Prop where
  /-- Two nodes that are accepted are partners right after that. -/
  accepted : ∀ ⦃levels level left right : Nat⦄ ⦃via : List UseStep⦄ ⦃rest pending : List Pending⦄
    ⦃state final : CompareState⦄,
    Reached options operands.left operands.right levels state
      (.nodes level left right via :: rest) →
    exec (nodeStep options (compareNested options levels) level left right via) state =
      (.ok (some pending), final) →
    final.stack.partner? level left = some right
  /-- Two nodes of the operands that are accepted are partners in the verdict. -/
  kept : ∀ ⦃levels left right : Nat⦄ ⦃via : List UseStep⦄ ⦃rest pending : List Pending⦄
    ⦃state final : CompareState⦄ ⦃pairing : Pairing⦄,
    Reached options operands.left operands.right levels state (.nodes 0 left right via :: rest) →
    exec (nodeStep options (compareNested options levels) 0 left right via) state =
      (.ok (some pending), final) →
    operands.compare options = .ok (.equivalent pairing) → pairing.partner? left = some right

/-- A comparison of two operands pairs no left node that has a partner. -/
structure Operands.CommitsOnce (options : CompareOptions) (operands : Operands) : Prop where
  /-- When two nodes are about to be paired, the left one has no partner. -/
  fresh : ∀ ⦃levels level left right : Nat⦄ ⦃via : List UseStep⦄ ⦃rest : List Pending⦄
    ⦃state inner : CompareState⦄ ⦃scope : Scope⦄ ⦃leftNode rightNode : Node⦄,
    Reached options operands.left operands.right levels state
      (.nodes level left right via :: rest) →
    FreshNodes state.stack level left right scope leftNode rightNode →
    exec (compareAttributes (compareNested options levels level) leftNode.attributes
      rightNode.attributes) state = (.ok none, inner) →
    inner.stack.partner? level left = none
  /-- So the comparison is not stopped for pairing a node twice. -/
  not_twice : operands.compare options ≠ .error (.unfinished (.fault .pairedTwice))

/-- The pairs of operands that are found equivalent are those after their outputs. -/
theorem Operands.pairing_eq_of_compare {operands : Operands}
    (hcompare : operands.compare options = .ok (.equivalent pairing)) :
    pairing = (exec (compareOutputs options (compareNested options options.depthLimit) 0
      operands.left.outputs operands.right.outputs)
      (.initial operands.left operands.right)).2.stack.root.pairing := by
  obtain ⟨_, matched, houtcome, hverdict⟩ := Operands.ending_of_compare hcompare
  obtain ⟨rfl, rfl⟩ := CompareState.verdict_eq_equivalent.mp hverdict
  rw [ending, run] at houtcome ⊢
  cases hopening : operands.openingRule? with
  | some rule =>
      rw [hopening] at houtcome
      cases houtcome
  | none =>
      simp only [matchBodies, exec_bind]
      rcases exec (compareOutputs options (compareNested options options.depthLimit) 0
        operands.left.outputs operands.right.outputs) (.initial operands.left operands.right)
        with ⟨error | matched, inner⟩
      · rfl
      · cases matched with
        | false => rfl
        | true =>
            cases operands.pairsAllNodes options with
            | false => rfl
            | true => exact congrArg (·.root.pairing) (requireAllPaired_run options 0 inner).stack_eq

theorem Operands.keepsAccepted (options : CompareOptions) (operands : Operands) :
    operands.KeepsAccepted options where
  accepted := fun _ _ _ _ _ _ _ _ _ _ hstep => partner?_of_nodeStep hstep
  kept := by
    intro levels left right via rest pending state final pairing hreached hstep hcompare
    have hpartner := partner?_of_nodeStep hstep
    obtain ⟨steps, hsteps, hstay⟩ := Reached.rootPairsStay rfl (hreached.step hstep)
    have hlater := (drain_run options (compareNested_run options levels)
      (nestedRun_grows options levels) hsteps).grows (nestedRun_grows options levels)
    have hfinal := hstay (hlater.partner? hpartner)
    rw [ScopeStack.partner?_of_scope? rfl] at hfinal
    rw [Operands.pairing_eq_of_compare hcompare]
    exact hfinal

theorem Operands.commitsOnce {operands : Operands} (options : CompareOptions)
    (hacyclic : operands.left.AcyclicScopes) : operands.CommitsOnce options where
  fresh := by
    intro levels level left right via rest state inner scope leftNode rightNode hreached hfresh
      hexec
    rw [compareAttributes_eq, exec_followPlan] at hexec
    rcases hcalls : exec (makeCalls (compareNested options levels level)
      (attributePlan leftNode.attributes rightNode.attributes).calls) state with
      ⟨error | call | call, final⟩ <;> rw [hcalls] at hexec
    · cases hexec
    · rw [← (Prod.mk.inj hexec).2]
      exact hreached.unpaired_after hacyclic hfresh rfl (callsRun_of_exec hcalls)
    · cases hexec
  not_twice := Operands.compare_ne_pairedTwice hacyclic

/-- Whatever the operands are, a pair that is accepted is the one that is written, and the verdict
has those of the operands. Where no left node depends on itself, in any scope, a node that is about
to be paired has no partner. -/
theorem compare_commits_once (options : CompareOptions) (operands : Operands) :
    operands.KeepsAccepted options ∧
      (operands.left.AcyclicScopes → operands.CommitsOnce options) :=
  ⟨operands.keepsAccepted options, Operands.commitsOnce options⟩

/-- Two choices that use each other, through the node that computes the branches of both. -/
def Graph.crossUsing : Graph where
  nodes := [
    { opType := "If", outputs := ["b"]
      attributes := [⟨"body", .graph { outputs := ["d"] }⟩] },
    { opType := "Relu", inputs := ["e"], outputs := ["d"] },
    { opType := "If", outputs := ["e"]
      attributes := [⟨"body", .graph { outputs := ["d"] }⟩] }]
  outputs := ["b"]

/-- If a node depends on itself, it may be paired while its attributes are compared. Then it is about
to be paired again, and the comparison stops with a fault. -/
theorem Graph.compare_selfUsing_crossUsing :
    Graph.selfUsing.checkWellFormed = .ok () ∧ Graph.crossUsing.checkWellFormed = .ok () ∧
      Graph.selfUsing.compare {} Graph.crossUsing =
        .error (.unfinished (.fault .pairedTwice)) ∧
      ∃ state via inner,
        Reached {} Graph.selfUsing.body Graph.crossUsing.body 256 state [.nodes 0 0 0 via] ∧
          state.stack.partner? 0 0 = none ∧
          exec (compareAttributes (compareNested {} 256 0)
            [⟨"body", .graph { outputs := ["c"] }⟩] [⟨"body", .graph { outputs := ["d"] }⟩]) state =
              (.ok none, inner) ∧
          inner.stack.partner? 0 0 = some 2 ∧
          exec (nodeStep {} (compareNested {} 256) 0 0 0 via) state =
            (.error (.fault .pairedTwice), inner) := by
  refine ⟨rfl, rfl, rfl, ?_⟩
  have hstart : Reached {} Graph.selfUsing.body Graph.crossUsing.body 256 _ _ := .outputs rfl
  exact ⟨_, _, _, hstart.step rfl, rfl, rfl, rfl, rfl⟩

/-- Pairs are written once for the two choices and for the nodes that share a partner; of the
choices, that of the nodes behind the outputs is in the verdict. -/
theorem compare_commits_once_choice :
    (Operands.functions Function.choice Function.renamedChoice).CommitsOnce {} ∧
      (Operands.graphs Graph.reluTwice Graph.reluOnce).CommitsOnce {} ∧
      ∃ pairing : Pairing,
        Function.choice.compare {} Function.renamedChoice = .ok (.equivalent pairing) ∧
          pairing.partner? 1 = some 0 := by
  obtain ⟨hkeeps, hfunctions⟩ :=
    compare_commits_once {} (.functions Function.choice Function.renamedChoice)
  have hgraphs := (compare_commits_once {} (.graphs Graph.reluTwice Graph.reluOnce)).2
  have hcompare : Function.choice.compare {} Function.renamedChoice =
      .ok (.equivalent ⟨[(0, 1), (1, 0)], by decide⟩) := rfl
  have hstart : Reached {} Function.choice.body Function.renamedChoice.body 256 _ _ := .outputs rfl
  exact ⟨hfunctions (Body.acyclicScopes_of_inOrder rfl), hgraphs (Body.acyclicScopes_of_inOrder rfl),
    _, hcompare, hkeeps.kept (hstart.step rfl) rfl hcompare⟩

end Operands

end OpGraph
