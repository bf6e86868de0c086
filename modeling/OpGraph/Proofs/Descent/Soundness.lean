import OpGraph.Proofs.Descent.Filling
import OpGraph.Proofs.Descent.Invariants

/-!
What a comparison that ends well guarantees. Nodes are paired before their inputs are compared, and
a nested comparison may pair nodes of all the levels around it; so nothing is known of the pairs
while a descent goes on. But all that is pending is settled when it ends well, and then the pairs
that it made are of nodes that agree.
-/

namespace OpGraph

/-- The nodes of a body that have partners are those that it reaches. -/
structure ReachedPartners (left right : Body) (partner? : Nat → Option Nat) : Prop where
  in_range : ∀ index index', partner? index = some index' →
    index < left.nodes.length ∧ index' < right.nodes.length
  reached : ∀ index, (∃ index', partner? index = some index') ↔ left.Reaches index

/-- What a comparison holds for the same: equal values, inputs that are not omitted, and graphs
without initializers in which the partners are those of the nodes that the left one reaches. -/
def comparedRule : MatchRule where
  values := AttributeValue.SamePlain
  omissions := False
  graphs left right partner? := left.Bare ∧ right.Bare ∧
    ReachedPartners left.body right.body partner?

/-- What a comparison with these options holds for the same: if all nodes have to take part, they do.
-/
def CompareOptions.agreementRule (options : CompareOptions) : GraphRule := fun left right partner? =>
  comparedRule.graphs left right partner? ∧
    (options.pairAllNodes = true → NodeCover partner? left.nodes.length right.nodes.length)

namespace CompareM

open ScopeStack

/-- Two operands whose names are unique, and of which the left one refers to no node in a circle. -/
structure OrderlyOperands (left right : Body) : Prop where
  left_distinct : left.Distinct
  right_distinct : right.Distinct
  acyclic : left.AcyclicScopes

/-- What was to be compared has been found to be the same. -/
def Settled (stack : ScopeStack) : Pending → Prop
  | .values level left right _ => Agrees (stack.layersAt level) left right
  | .nodes level left right _ => stack.partner? level left = some right

/-- The pairs that the second stack has on top of the first one are of nodes that agree. -/
def PairsAgree (options : CompareOptions) (stack stack' : ScopeStack) : Prop :=
  ∀ ⦃level index index' : Nat⦄ ⦃scope : Scope⦄ ⦃node node' : Node⦄,
    stack'.partner? level index = some index' → stack.partner? level index = none →
    stack'.scope? level = some scope → scope.left.nodes[index]? = some node →
    scope.right.nodes[index']? = some node' →
    NodesAgree options.agreementRule (stack'.layersAt level) node node'

/-- A comparison of graphs that ends well has found graphs that agree, and has paired nodes that
agree. -/
def FindsAgreement (options : CompareOptions) (leftRoot rightRoot : Body)
    (relation : NestedRelation) : Prop :=
  ∀ ⦃level : Nat⦄ ⦃graph graph' : Graph⦄ ⦃state final : CompareState⦄ ⦃left right : Body⦄,
    relation level graph graph' state (.ok true) final →
    state.stack.Proper leftRoot rightRoot → state.stack.HasBodies level left right →
    Carried left right graph graph' →
    GraphsAgree options.agreementRule (final.stack.layersAt level) graph graph' ∧
      PairsAgree options state.stack final.stack

section Settling

variable {options : CompareOptions} {stack stack' : ScopeStack} {level : Nat}

theorem PairsAgree.refl (stack : ScopeStack) : PairsAgree options stack stack := by
  intro level index index' scope node node' hsome hnone
  rw [hsome] at hnone
  cases hnone

theorem PairsAgree.trans {first second third : ScopeStack} (hextends : second.Extends third)
    (hsecond : PairsAgree options first second) (hthird : PairsAgree options second third) :
    PairsAgree options first third := by
  intro level index index' scope node node' hsome hnone hscope hnode hnode'
  cases hpartner : second.partner? level index with
  | none => exact hthird hsome hpartner hscope hnode hnode'
  | some partner =>
      have hkept := hextends.partner? hpartner
      rw [hsome, Option.some.injEq] at hkept
      subst hkept
      obtain ⟨scope', hscope', hscopes⟩ := hextends.scope?_back hscope
      rw [hscopes.left] at hnode
      rw [hscopes.right] at hnode'
      exact (hsecond hpartner hnone hscope' hnode hnode').mono (layersAt_extends hextends level)

/-- If all values of two lists are settled, they agree one by one. -/
theorem forall₂_of_settled {lefts rights : List String} {via : List UseStep}
    (hlength : lefts.length = rights.length)
    (hsettled : ∀ next ∈ pendingValues level lefts rights via, Settled stack next) :
    List.Forall₂ (Agrees (stack.layersAt level)) lefts rights := by
  induction lefts generalizing rights with
  | nil =>
      rcases rights with _ | ⟨right, rights⟩
      · exact .nil
      · simp at hlength
  | cons left lefts ih =>
      rcases rights with _ | ⟨right, rights⟩
      · simp at hlength
      · rw [pendingValues, List.zipWith_cons_cons] at hsettled
        have hhead := hsettled _ List.mem_cons_self
        refine .cons hhead (ih (by simpa using hlength) fun next hnext => ?_)
        exact hsettled next (List.mem_cons_of_mem _ hnext)

/-- Two names without a failing rule are found together, and what they lead to decides. -/
theorem lookupRule?_eq_none {left right : String} {lookup : Lookup} {found : Nat}
    {via : List UseStep} (hrule : lookupRule? left right lookup = none)
    (hsettled : ∀ next ∈ lookupPending found via lookup, Settled stack next) :
    ∃ origin origin', lookup = .here origin origin' ∧
      OriginsMatch (stack.partner? found) origin origin' := by
  rcases lookupRule?_eq_none_iff.mp hrule with ⟨slot, rfl⟩ | ⟨index, index', slot, rfl⟩
  · exact ⟨_, _, rfl, .input slot⟩
  · have hpartner := hsettled (.nodes found index index' via) List.mem_cons_self
    exact ⟨_, _, rfl, .output slot hpartner⟩

end Settling

section Soundness

variable {leftRoot rightRoot : Body} {options : CompareOptions} {relation : NestedRelation}
  {level : Nat} {state final : CompareState}

/-- Calls that all succeed are for graphs that agree. -/
theorem CallsRun.sound (hfinds : FindsAgreement options leftRoot rightRoot relation)
    (hgrows : Grows relation) {calls : List GraphCall} {left right : Body}
    {outcome : Outcome (Option GraphCall)}
    (hrun : CallsRun relation level calls state outcome final) (houtcome : outcome = .ok none)
    (hproper : state.stack.Proper leftRoot rightRoot)
    (hbodies : state.stack.HasBodies level left right)
    (hcarried : ∀ call ∈ calls, Carried left right call.left call.right) :
    (∀ call ∈ calls,
        GraphsAgree options.agreementRule (final.stack.layersAt level) call.left call.right) ∧
      PairsAgree options state.stack final.stack := by
  induction hrun with
  | finished => exact ⟨by simp, PairsAgree.refl _⟩
  | matched hcall hrest ih =>
      have hfirst := hgrows _ _ _ _ _ _ hcall
      have hlater := hrest.grows hgrows
      obtain ⟨hmatch, hpairs⟩ := hfinds hcall hproper hbodies (hcarried _ List.mem_cons_self)
      obtain ⟨hmatches, hpairs'⟩ := ih houtcome (hproper.of_extends hfirst)
        (hbodies.of_extends hfirst) fun call hmem => hcarried call (List.mem_cons_of_mem _ hmem)
      refine ⟨?_, hpairs.trans hlater hpairs'⟩
      intro call hmem
      rcases List.mem_cons.mp hmem with rfl | hrest
      · exact hmatch.mono (layersAt_extends hlater level)
      · exact hmatches call hrest
  | differed _ => cases houtcome
  | stopped _ => cases houtcome

/-- Two nodes that are paired agree, once all that they lead to is settled. -/
theorem nodesAgree_of_settled (hoperands : OrderlyOperands leftRoot rightRoot)
    (hfinds : FindsAgreement options leftRoot rightRoot relation) (hgrows : Grows relation)
    {left right : Nat} {scope : Scope} {leftNode rightNode : Node} {via : List UseStep} {inner : CompareState}
    (hproper : state.stack.Proper leftRoot rightRoot)
    (hfresh : FreshNodes state.stack level left right scope leftNode rightNode)
    (hrule : nodeRule? leftNode rightNode = none)
    (hcalls : CallsRun relation level
      (attributePlan leftNode.attributes rightNode.attributes).calls state (.ok none) inner)
    (hdifference : (attributePlan leftNode.attributes rightNode.attributes).difference? = none)
    (hlength : leftNode.inputs.length = rightNode.inputs.length)
    (hextends : inner.stack.Extends final.stack)
    (hsettled : ∀ next ∈ pendingValues level leftNode.inputs rightNode.inputs via,
      Settled final.stack next) :
    NodesAgree options.agreementRule (final.stack.layersAt level) leftNode rightNode ∧
      PairsAgree options state.stack inner.stack := by
  have hleft := List.mem_of_getElem? hfresh.left_eq
  have hright := List.mem_of_getElem? hfresh.right_eq
  have hcarried : ∀ call ∈ (attributePlan leftNode.attributes rightNode.attributes).calls,
      Carried scope.left scope.right call.left call.right := by
    intro call hcall
    obtain ⟨hcarries, hcarries'⟩ := mem_attributePlan hcall
    exact ⟨⟨leftNode, hleft, hcarries⟩, ⟨rightNode, hright, hcarries'⟩⟩
  obtain ⟨hmatches, hpairs⟩ := hcalls.sound hfinds hgrows rfl hproper
    ⟨scope, hfresh.scope_eq, rfl, rfl⟩ hcarried
  obtain ⟨htype, hdomain⟩ := nodeRule?_eq_none_iff.mp hrule
  have hinputs := forall₂_of_settled hlength hsettled
  have hnodup := hoperands.left_distinct.attributes _ (hproper.left hfresh.scope_eq) _ hleft
  have hnodup' := hoperands.right_distinct.attributes _ (hproper.right hfresh.scope_eq) _ hright
  obtain ⟨hnames, hvalues⟩ := attributesAgree_of_plan hnodup hnodup' hdifference
    fun call hcall => (hmatches call hcall).mono (layersAt_extends hextends level)
  exact ⟨.intro htype hdomain hinputs hnames hvalues, hpairs⟩

/-- A step settles what it is about, and pairs nodes that agree, once all that it leads to is
settled. -/
theorem StepRun.sound (hoperands : OrderlyOperands leftRoot rightRoot)
    (hfinds : FindsAgreement options leftRoot rightRoot relation)
    (hreaches : ReachesOnly leftRoot rightRoot relation) (hgrows : Grows relation)
    {next : Pending} {pending : List Pending} {inner : CompareState}
    (hrun : StepRun options relation state next (.ok (some pending)) inner)
    (hproper : state.stack.Proper leftRoot rightRoot)
    (hextends : inner.stack.Extends final.stack)
    (hsettled : ∀ other ∈ pending, Settled final.stack other)
    (hpairs : PairsAgree options inner.stack final.stack) :
    Settled final.stack next ∧ PairsAgree options state.stack final.stack := by
  cases hrun with
  | @namesLead level found left right via lookup hlookup hrule =>
      refine ⟨?_, hpairs⟩
      obtain ⟨origin, origin', rfl, hmatch⟩ := lookupRule?_eq_none hrule hsettled
      rw [Settled, layersAt, layers_of_extends hextends]
      exact agrees_of_lookup hproper hlookup hmatch
  | partners hscope hpartner =>
      refine ⟨hextends.partner? ?_, hpairs⟩
      rw [partner?_of_scope? hscope, hpartner]
  | @nodesPaired level left right via scope leftNode rightNode inner hfresh hrule hcalls
      hdifference hlength =>
      have hmiddle : inner.stack.Extends (inner.paired level left right).stack :=
        extends_pair inner.stack level left right
      have hlater := hmiddle.trans hextends
      have hunpaired := hfresh.unpaired_after hoperands.acyclic hreaches hgrows hproper hcalls
      obtain ⟨scope', hscope', hscopes⟩ := (hcalls.grows hgrows).scope? hfresh.scope_eq
      obtain ⟨hnodes, hcallPairs⟩ := nodesAgree_of_settled hoperands hfinds hgrows hproper hfresh
        hrule hcalls hdifference hlength hlater hsettled
      have hpaired : (inner.paired level left right).stack.partner? level left = some right := by
        rw [CompareState.stack_paired, partner?_pair hscope', if_pos ⟨rfl, rfl⟩, hunpaired,
          Option.getD_none]
      refine ⟨hextends.partner? hpaired, hcallPairs.trans hlater ?_⟩
      -- of the later pairs, this step made one; the others are those of the steps that follow
      intro place index index' other node node' hsome hnone hscope hnode hnode'
      cases hbefore : (inner.paired level left right).stack.partner? place index with
      | none => exact hpairs hsome hbefore hscope hnode hnode'
      | some partner =>
          have hkept := hextends.partner? hbefore
          rw [hsome, Option.some.injEq] at hkept
          subst hkept
          rw [CompareState.stack_paired, partner?_pair hscope'] at hbefore
          split at hbefore
          next hsame =>
            obtain ⟨rfl, rfl⟩ := hsame
            rw [hunpaired, Option.getD_none, Option.some.injEq] at hbefore
            subst hbefore
            obtain ⟨other', hother', hothers⟩ := hlater.scope?_back hscope
            rw [hscope', Option.some.injEq] at hother'
            subst hother'
            rw [hothers.left, hscopes.left, hfresh.left_eq, Option.some.injEq] at hnode
            rw [hothers.right, hscopes.right, hfresh.right_eq, Option.some.injEq] at hnode'
            exact hnode ▸ hnode' ▸ hnodes
          next =>
            rw [hbefore] at hnone
            cases hnone

/-- A descent that ends well has settled all that was pending, and has paired nodes that agree. -/
theorem DrainRun.sound (hoperands : OrderlyOperands leftRoot rightRoot)
    (hfinds : FindsAgreement options leftRoot rightRoot relation)
    (hreaches : ReachesOnly leftRoot rightRoot relation) (hgrows : Grows relation)
    {pending : List Pending} {outcome : Outcome Bool}
    (hrun : DrainRun options relation state pending outcome final) (houtcome : outcome = .ok true)
    (hproper : state.stack.Proper leftRoot rightRoot) :
    (∀ next ∈ pending, Settled final.stack next) ∧ PairsAgree options state.stack final.stack := by
  induction hrun with
  | finished => exact ⟨by simp, PairsAgree.refl _⟩
  | failed _ => cases houtcome
  | stopped _ => cases houtcome
  | continued hstep hrest ih =>
      have hextends := hrest.grows hgrows
      obtain ⟨hsettled, hpairs⟩ := ih houtcome (hproper.of_extends (hstep.grows hgrows))
      obtain ⟨hnext, hpairs'⟩ := hstep.sound hoperands hfinds hreaches hgrows hproper hextends
        (fun other hother => hsettled other (List.mem_append_left _ hother)) hpairs
      refine ⟨?_, hpairs'⟩
      intro other hother
      rcases List.mem_cons.mp hother with rfl | hmem
      · exact hnext
      · exact hsettled other (List.mem_append_right _ hmem)

theorem OutputsRun.sound (hoperands : OrderlyOperands leftRoot rightRoot)
    (hfinds : FindsAgreement options leftRoot rightRoot relation)
    (hreaches : ReachesOnly leftRoot rightRoot relation) (hgrows : Grows relation)
    {lefts rights : List String}
    (hrun : OutputsRun options relation level lefts rights state (.ok true) final)
    (hproper : state.stack.Proper leftRoot rightRoot) :
    List.Forall₂ (Agrees (final.stack.layersAt level)) lefts rights ∧
      PairsAgree options state.stack final.stack := by
  rcases hrun with _ | ⟨hlength, hdrain⟩
  obtain ⟨hsettled, hpairs⟩ := hdrain.sound hoperands hfinds hreaches hgrows rfl hproper
  exact ⟨forall₂_of_settled hlength hsettled, hpairs⟩

/-- Two bodies whose comparison ends well agree. -/
theorem BodiesRun.sound (hoperands : OrderlyOperands leftRoot rightRoot)
    (hfinds : FindsAgreement options leftRoot rightRoot relation)
    (hreaches : ReachesOnly leftRoot rightRoot relation) (hgrows : Grows relation)
    {left right : Body} (hrun : BodiesRun options relation level state (.ok true) final)
    (hproper : state.stack.Proper leftRoot rightRoot)
    (hbodies : state.stack.HasBodies level left right) :
    List.Forall₂ (Agrees (final.stack.layersAt level)) left.outputs right.outputs ∧
      PairsAgree options state.stack final.stack := by
  obtain ⟨scope, hscope, rfl, rfl⟩ := hbodies
  obtain ⟨inner, houtputs, hstack⟩ := hrun.outputsRun hscope
  rw [hstack]
  exact houtputs.sound hoperands hfinds hreaches hgrows hproper

theorem partner?_entered (state : CompareState) (level index : Nat) (left right : Body) :
    (state.entered level left right).stack.partner? state.stack.depth index = none := by
  rw [CompareState.stack_entered, partner?, scope?_push_depth]
  rfl

/-- The partners of two graphs whose bodies are compared in a scope of their own are as the options
ask, if this ends well. -/
theorem BodiesRun.agreementRule (hoperands : OrderlyOperands leftRoot rightRoot) {levels : Nat}
    {graph graph' : Graph} {left right : Body} {inner : CompareState}
    (hproper : state.stack.Proper leftRoot rightRoot)
    (hbodies : state.stack.HasBodies level left right)
    (hcarried : Carried left right graph graph') (hbare : graph.Bare) (hbare' : graph'.Bare)
    (hrun : BodiesRun options (NestedRun options levels) state.stack.depth
      (state.entered level graph.body graph'.body) (.ok true) inner) :
    options.agreementRule graph graph' (inner.stack.partner? state.stack.depth) := by
  have hgrows := nestedRun_grows options levels
  have hproper' := Proper.entered hproper hbodies hcarried
  have hentered := entered_hasBodies state level graph.body graph'.body
  have hrangeAt := inRangeAt_entered state level graph.body graph'.body
  obtain ⟨scope, hscope, hleft, hright⟩ := hentered.of_extends (hrun.grows hgrows)
  have hpartners : inner.stack.partner? state.stack.depth = scope.pairing.partner? :=
    funext fun _ => partner?_of_scope? hscope
  refine ⟨⟨hbare, hbare', ?_, fun index => ⟨?_, ?_⟩⟩, ?_⟩
  · intro index index' hpartner
    rw [hpartners] at hpartner
    have hrange := hrun.keeps (inRangeAt_invariant state.stack.depth)
      (nestedRun_keeps options (inRangeAt_invariant state.stack.depth) levels) hgrows hrangeAt
      scope hscope index index' hpartner
    rwa [hleft, hright] at hrange
  · rintro ⟨index', hpartner⟩
    have hwithin : PairsWithin (withReached state.stack.depth graph fun _ _ => True)
        (state.stack.push level graph.body graph'.body) inner.stack :=
      hrun.pairsWithin_entered (nestedRun_reachesOnly options leftRoot rightRoot levels) hgrows
        hproper hbodies hcarried (fun _ _ _ _ _ _ _ _ _ _ _ _ _ => trivial)
        (fun _ _ _ _ _ _ _ => trivial)
    have hreached := hwithin hpartner (partner?_entered state level index graph.body graph'.body)
    rwa [withReached, if_pos rfl] at hreached
  · intro hreached
    obtain ⟨inner', houtputs, hstack⟩ :=
      hrun.outputsRun (scope?_push_depth state.stack level graph.body graph'.body)
    have hpaired := houtputs.paired_of_reaches hoperands.left_distinct hoperands.right_distinct
      (nestedRun_fills options hoperands.left_distinct hoperands.right_distinct levels) hgrows
      hproper' hentered (fun index => unpaired_entered state level index graph.body graph'.body)
      hreached
    rw [← hstack] at hpaired
    exact Option.ne_none_iff_exists'.mp hpaired
  · intro hall
    obtain ⟨covered, hcovered, hcover⟩ := hrun.covers hall hrangeAt
    rw [hscope, Option.some.injEq] at hcovered
    subst hcovered
    rwa [hleft, hright, ← hpartners] at hcover

/-- Two graphs whose bodies are compared in a scope of their own agree if this ends well. -/
theorem BodiesRun.graphsAgree (hoperands : OrderlyOperands leftRoot rightRoot) {levels : Nat}
    (hfinds : FindsAgreement options leftRoot rightRoot (NestedRun options levels))
    {graph graph' : Graph} {left right : Body} {inner : CompareState}
    (hproper : state.stack.Proper leftRoot rightRoot)
    (hbodies : state.stack.HasBodies level left right)
    (hcarried : Carried left right graph graph')
    (hheader : headerDifference? graph graph' = none)
    (hrun : BodiesRun options (NestedRun options levels) state.stack.depth
      (state.entered level graph.body graph'.body) (.ok true) inner) :
    GraphsAgree options.agreementRule (inner.popped.stack.layersAt level) graph graph' ∧
      PairsAgree options state.stack inner.popped.stack := by
  have hgrows := nestedRun_grows options levels
  have hreaches := nestedRun_reachesOnly options leftRoot rightRoot levels
  have hproper' := Proper.entered hproper hbodies hcarried
  have hentered := entered_hasBodies state level graph.body graph'.body
  have hextends := hrun.grows hgrows
  obtain ⟨houtputs, hpairs⟩ := hrun.sound hoperands hfinds hreaches hgrows hproper' hentered
  obtain ⟨scope, hscope, hleft, hright⟩ := hentered.of_extends hextends
  have hlevel := hbodies.lt_depth
  have hlayers := layersAt_entered (hproper'.of_extends hextends) hextends hlevel
  obtain ⟨hinputs, hbare, hbare'⟩ := headerDifference?_eq_none_iff.mp hheader
  have hrule := hrun.agreementRule hoperands hproper hbodies hcarried hbare hbare'
  constructor
  · refine graphsAgree_iff.mpr ⟨hinputs, _, hrule, hlayers ▸ houtputs, ?_⟩
    intro index index' node node' hpartner hnode hnode'
    rw [CompareState.stack_popped, ← hlayers]
    exact hpairs hpartner (partner?_entered state level index graph.body graph'.body) hscope
      (hleft ▸ hnode) (hright ▸ hnode')
  · intro place index index' outer node node' hsome hnone houter hnode hnode'
    have hplace := scope?_eq_some_lt houter
    rw [CompareState.stack_popped, hextends.pop.depth_eq] at hplace
    have hdepth : inner.stack.depth = state.stack.depth + 1 := by
      rw [hextends.depth_eq, CompareState.stack_entered, depth_push]
    rw [CompareState.stack_popped, layersAt_pop (by omega)]
    rw [CompareState.stack_popped, partner?, scope?_pop_of_lt (by omega)] at hsome
    rw [CompareState.stack_popped, scope?_pop_of_lt (by omega)] at houter
    refine hpairs hsome ?_ houter hnode hnode'
    rw [CompareState.stack_entered, partner?, scope?_push_of_lt hplace]
    exact hnone

theorem nestedRun_findsAgreement (options : CompareOptions)
    (hoperands : OrderlyOperands leftRoot rightRoot) (levels : Nat) :
    FindsAgreement options leftRoot rightRoot (NestedRun options levels) := by
  induction levels with
  | zero =>
      intro level graph graph' state final left right hrun _ _ _
      rcases hrun with _ | ⟨_, houtcome, _⟩
      cases houtcome
  | succ levels ih =>
      intro level graph graph' state final left right hrun hproper hbodies hcarried
      rcases hrun with _ | ⟨hheader, inner, hrun, rfl⟩
      exact hrun.graphsAgree hoperands ih hproper hbodies hcarried hheader

end Soundness

end CompareM

end OpGraph
