import OpGraph.Proofs.Descent.Filling
import OpGraph.Proofs.Descent.Invariants
import OpGraph.Proofs.Descent.Tracing
import OpGraph.Proofs.Scoping.WellFormed

/-!
Why a comparison cannot miss that two bodies agree, although it never takes back a pair. In each
scope there are partners of nodes, and all that comes up for comparison is found to be the same
under them: the outputs are, and if two nodes are partners, so is what they lead to. Hence each pair that
is made is one of partners, in whatever scope and however often the nodes are shared, and no step
fails. Where all nodes have to take part, they do if their partners are reached. A descent can only
be given up, for the depth of the nesting.
-/

namespace OpGraph

/-- All nodes of two bodies take part, and the left one reaches those of its nodes that have partners.
-/
structure CoveredBodies (left right : Body) (partner? : Nat → Option Nat) : Prop where
  cover : NodeCover partner? left.nodes.length right.nodes.length
  reached : ∀ index index', partner? index = some index' → left.Reaches index

/-- A rule that grants all that a comparison with these options asks of graphs. -/
structure GraphRule.ConfirmedBy (rule : GraphRule) (options : CompareOptions) : Prop where
  confirmable : ∀ left right partner?, rule left right partner? →
    ConfirmableGraphs left right partner?
  covered : options.pairAllNodes = true → ∀ left right partner?, rule left right partner? →
    CoveredBodies left.body right.body partner?

/-- Where not all nodes have to take part, there is nothing else to ask. -/
theorem confirmableGraphs_confirmedBy {options : CompareOptions}
    (hall : options.pairAllNodes = false) : GraphRule.ConfirmedBy ConfirmableGraphs options where
  confirmable _ _ _ := id
  covered hcovered := by simp [hall] at hcovered

namespace CompareM

open ScopeStack

/-- At each level the partners are nodes of the bodies there, and agree. -/
structure PartnersAgree (rule : GraphRule) (stack : ScopeStack) (partner? : Nat → Nat → Option Nat) : Prop where
  in_range : ∀ ⦃level index index' : Nat⦄ ⦃scope : Scope⦄, stack.scope? level = some scope →
    partner? level index = some index' →
    index < scope.left.nodes.length ∧ index' < scope.right.nodes.length
  nodes : ∀ ⦃level index index' : Nat⦄ ⦃scope : Scope⦄ ⦃node node' : Node⦄,
    stack.scope? level = some scope → partner? level index = some index' →
    scope.left.nodes[index]? = some node → scope.right.nodes[index']? = some node' →
    NodesAgree rule (stack.layers partner? level) node node'

/-- All pairs of the scopes are among the partners. -/
def PairsAmong (partner? : Nat → Nat → Option Nat) (stack : ScopeStack) : Prop :=
  ∀ ⦃level index index' : Nat⦄, stack.partner? level index = some index' →
    partner? level index = some index'

/-- What is to be compared is the same under the partners. -/
def Expected (stack : ScopeStack) (partner? : Nat → Nat → Option Nat) : Pending → Prop
  | .values level left right _ => Agrees (stack.layers partner? level) left right
  | .nodes level left right _ => partner? level left = some right ∧
      ∃ scope, stack.scope? level = some scope

/-- A comparison of graphs that agree ends well, and makes pairs of their partners only. -/
def Accepts (options : CompareOptions) (rule : GraphRule) (leftRoot rightRoot : Body)
    (relation : NestedRelation) : Prop :=
  ∀ ⦃level : Nat⦄ ⦃graph graph' : Graph⦄ ⦃state final : CompareState⦄ ⦃outcome : Outcome Bool⦄
    ⦃left right : Body⦄ ⦃partner? : Nat → Nat → Option Nat⦄,
    relation level graph graph' state outcome final → state.stack.Proper leftRoot rightRoot →
    state.stack.HasBodies level left right → Carried left right graph graph' →
    PartnersAgree rule state.stack partner? → PairsAmong partner? state.stack →
    GraphsAgree rule (state.stack.layers partner? level) graph graph' →
    EndsWith options true outcome ∧ PairsAmong partner? final.stack

section Partners

variable {rule : GraphRule} {stack stack' : ScopeStack} {partner? : Nat → Nat → Option Nat}
  {level : Nat}

theorem PartnersAgree.of_extends (hextends : stack.Extends stack')
    (hpartners : PartnersAgree rule stack partner?) : PartnersAgree rule stack' partner? := by
  constructor
  · intro level index index' scope' hscope' hpartner
    obtain ⟨scope, hscope, hscopes⟩ := hextends.scope?_back hscope'
    rw [hscopes.left, hscopes.right]
    exact hpartners.in_range hscope hpartner
  · intro level index index' scope' node node' hscope' hpartner hnode hnode'
    obtain ⟨scope, hscope, hscopes⟩ := hextends.scope?_back hscope'
    rw [hscopes.left] at hnode
    rw [hscopes.right] at hnode'
    rw [layers_of_extends hextends]
    exact hpartners.nodes hscope hpartner hnode hnode'

theorem Expected.of_extends (hextends : stack.Extends stack') {next : Pending}
    (hexpected : Expected stack partner? next) : Expected stack' partner? next := by
  rcases next with ⟨level, left, right, via⟩ | ⟨level, left, right, via⟩
  · rw [Expected, layers_of_extends hextends]
    exact hexpected
  · obtain ⟨hpartner, scope, hscope⟩ := hexpected
    obtain ⟨scope', hscope', _⟩ := hextends.scope? hscope
    exact ⟨hpartner, scope', hscope'⟩

/-- Where a node is paired with its partner, the pairs go on to be among the partners. -/
theorem PairsAmong.pair (hamong : PairsAmong partner? stack) {left right : Nat} {scope : Scope}
    (hscope : stack.scope? level = some scope) (hpartner : partner? level left = some right) :
    PairsAmong partner? (stack.pair level left right) := by
  intro place index index' hpair
  rw [partner?_pair hscope] at hpair
  split at hpair
  next hsame =>
    obtain ⟨rfl, rfl⟩ := hsame
    cases hold : stack.partner? place index with
    | none =>
        rw [hold, Option.getD_none] at hpair
        exact hpair ▸ hpartner
    | some partner =>
        rw [hold, Option.getD_some] at hpair
        exact hamong (hold.trans hpair)
  next => exact hamong hpair

/-- The partners at a level that is entered, and those at the others. -/
def withPartners (depth : Nat) (inner? : Nat → Option Nat) (partner? : Nat → Nat → Option Nat)
    (level : Nat) : Nat → Option Nat :=
  if level = depth then inner? else partner? level

variable {leftRoot rightRoot left right : Body} {inner? : Nat → Option Nat}

/-- A scope that is entered changes nothing for what the others see. -/
theorem layers_push_of_lt {parent : Nat} (hlevel : level < stack.depth) :
    (stack.push parent left right).layers (withPartners stack.depth inner? partner?) level =
      stack.layers partner? level := by
  refine layers_congr (fun other hother => scope?_push_of_lt hother) ?_ hlevel
  intro other hother
  rw [withPartners, if_neg (Nat.ne_of_lt hother)]

/-- The scope that is entered sees itself and what the level around it sees. -/
theorem layers_push_depth (hproper : (stack.push level left right).Proper leftRoot rightRoot)
    (hlevel : level < stack.depth) :
    (stack.push level left right).layers (withPartners stack.depth inner? partner?) stack.depth =
      ⟨left, right, inner?⟩ :: stack.layers partner? level := by
  rw [layers_eq hproper (scope?_push_depth stack level left right), Option.elim_some,
    layers_push_of_lt hlevel, withPartners, if_pos rfl]

theorem PartnersAgree.push (hpartners : PartnersAgree rule stack partner?)
    (hproper : (stack.push level left right).Proper leftRoot rightRoot)
    (hlevel : level < stack.depth)
    (hrange : ∀ index index', inner? index = some index' →
      index < left.nodes.length ∧ index' < right.nodes.length)
    (hbodies : BodiesAgree rule (stack.layers partner? level) left right inner?) :
    PartnersAgree rule (stack.push level left right) (withPartners stack.depth inner? partner?) := by
  constructor
  · intro place index index' scope hscope hpartner
    by_cases hplace : place = stack.depth
    · subst hplace
      rw [scope?_push_depth, Option.some.injEq] at hscope
      subst hscope
      rw [withPartners, if_pos rfl] at hpartner
      exact hrange index index' hpartner
    · rw [scope?_push, if_neg hplace] at hscope
      rw [withPartners, if_neg hplace] at hpartner
      exact hpartners.in_range hscope hpartner
  · intro place index index' scope node node' hscope hpartner hnode hnode'
    by_cases hplace : place = stack.depth
    · subst hplace
      rw [layers_push_depth hproper hlevel]
      rw [scope?_push_depth, Option.some.injEq] at hscope
      subst hscope
      rw [withPartners, if_pos rfl] at hpartner
      exact hbodies.nodes index index' node node' hpartner hnode hnode'
    · rw [scope?_push, if_neg hplace] at hscope
      rw [withPartners, if_neg hplace] at hpartner
      rw [layers_push_of_lt (scope?_eq_some_lt hscope)]
      exact hpartners.nodes hscope hpartner hnode hnode'

theorem PairsAmong.push {parent : Nat} (hamong : PairsAmong partner? stack) :
    PairsAmong (withPartners stack.depth inner? partner?) (stack.push parent left right) := by
  intro place index index' hpair
  by_cases hplace : place = stack.depth
  · subst hplace
    rw [ScopeStack.partner?, scope?_push_depth] at hpair
    cases hpair
  · rw [ScopeStack.partner?, scope?_push, if_neg hplace] at hpair
    rw [withPartners, if_neg hplace]
    exact hamong hpair

theorem PairsAmong.pop {parent : Nat}
    (hextends : (stack.push parent left right).Extends stack')
    (hamong : PairsAmong (withPartners stack.depth inner? partner?) stack') :
    PairsAmong partner? stack'.pop := by
  intro place index index' hpair
  obtain ⟨scope, hscope, hpartner⟩ := Option.bind_eq_some_iff.mp hpair
  have hplace := scope?_eq_some_lt hscope
  rw [hextends.pop.depth_eq] at hplace
  have hinner :=
    hamong (Option.bind_eq_some_iff.mpr ⟨scope, scope?_eq_some_of_pop hscope, hpartner⟩)
  rwa [withPartners, if_neg (Nat.ne_of_lt hplace)] at hinner

end Partners

section Steps

variable {leftRoot rightRoot : Body} {options : CompareOptions} {rule : GraphRule}
  {relation : NestedRelation} {level : Nat} {state final : CompareState}
  {partner? : Nat → Nat → Option Nat}

theorem CallsRun.accepts (haccepts : Accepts options rule leftRoot rightRoot relation)
    (hgrows : Grows relation) {calls : List GraphCall} {outcome : Outcome (Option GraphCall)}
    {left right : Body} (hrun : CallsRun relation level calls state outcome final)
    (hproper : state.stack.Proper leftRoot rightRoot)
    (hbodies : state.stack.HasBodies level left right)
    (hcarried : ∀ call ∈ calls, Carried left right call.left call.right)
    (hpartners : PartnersAgree rule state.stack partner?) (hamong : PairsAmong partner? state.stack)
    (hmatches : ∀ call ∈ calls,
      GraphsAgree rule (state.stack.layers partner? level) call.left call.right) :
    EndsWith options none outcome ∧ PairsAmong partner? final.stack := by
  induction hrun with
  | finished => exact ⟨.answered, hamong⟩
  | matched hcall _ ih =>
      have hextends := hgrows _ _ _ _ _ _ hcall
      obtain ⟨_, hamong'⟩ := haccepts hcall hproper hbodies (hcarried _ List.mem_cons_self)
        hpartners hamong (hmatches _ List.mem_cons_self)
      refine ih (hproper.of_extends hextends) (hbodies.of_extends hextends) ?_
        (hpartners.of_extends hextends) hamong' ?_
      · exact fun call hmem => hcarried call (List.mem_cons_of_mem _ hmem)
      · intro call hmem
        rw [layers_of_extends hextends]
        exact hmatches call (List.mem_cons_of_mem _ hmem)
  | differed hcall =>
      obtain ⟨hends, _⟩ := haccepts hcall hproper hbodies (hcarried _ List.mem_cons_self) hpartners
        hamong (hmatches _ List.mem_cons_self)
      cases hends
  | stopped hcall =>
      obtain ⟨hends, hamong'⟩ := haccepts hcall hproper hbodies (hcarried _ List.mem_cons_self)
        hpartners hamong (hmatches _ List.mem_cons_self)
      exact ⟨hends.stopped _, hamong'⟩

/-- The calls for two partners, and the plan behind them. -/
theorem FreshNodes.accepts (hleftRoot : leftRoot.Distinct) (hrightRoot : rightRoot.Distinct)
    (haccepts : Accepts options rule leftRoot rightRoot relation) (hgrows : Grows relation)
    {left right : Nat} {scope : Scope} {leftNode rightNode : Node}
    {outcome : Outcome (Option GraphCall)} (hproper : state.stack.Proper leftRoot rightRoot)
    (hfresh : FreshNodes state.stack level left right scope leftNode rightNode)
    (hcalls : CallsRun relation level
      (attributePlan leftNode.attributes rightNode.attributes).calls state outcome final)
    (hpartners : PartnersAgree rule state.stack partner?) (hamong : PairsAmong partner? state.stack)
    (hpartner : partner? level left = some right) :
    (attributePlan leftNode.attributes rightNode.attributes).difference? = none ∧
      EndsWith options none outcome ∧ PairsAmong partner? final.stack := by
  have hmatch := hpartners.nodes hfresh.scope_eq hpartner hfresh.left_eq hfresh.right_eq
  have hleft := List.mem_of_getElem? hfresh.left_eq
  have hright := List.mem_of_getElem? hfresh.right_eq
  obtain ⟨hnone, hmatches⟩ := attributePlan_of_nodesAgree
    (hleftRoot.attributes _ (hproper.left hfresh.scope_eq) _ hleft)
    (hrightRoot.attributes _ (hproper.right hfresh.scope_eq) _ hright) hmatch
  refine ⟨hnone, hcalls.accepts haccepts hgrows hproper ⟨scope, hfresh.scope_eq, rfl, rfl⟩ ?_
    hpartners hamong hmatches⟩
  intro call hcall
  obtain ⟨hcarries, hcarries'⟩ := mem_attributePlan hcall
  exact ⟨⟨leftNode, hleft, hcarries⟩, ⟨rightNode, hright, hcarries'⟩⟩

/-- Two names that agree are found by the lookup, at places without a failing rule, and what they
lead to is the same in turn. -/
theorem lookup_leads_of_agrees (hproper : state.stack.Proper leftRoot rightRoot)
    {left right : String} (hagrees : Agrees (state.stack.layers partner? level) left right)
    (via : List UseStep) :
    ∃ found lookup, state.stack.lookupOutward? left right level level = some (found, lookup) ∧
      lookupRule? left right lookup = none ∧
      ∀ next ∈ lookupPending found via lookup, Expected state.stack partner? next := by
  obtain ⟨found, origin, origin', hlookup, hmatch, hscope⟩ :=
    lookup_of_agrees hproper hagrees (Nat.le_refl level)
  refine ⟨found, _, hlookup, ?_⟩
  cases hmatch with
  | input slot => exact ⟨by simp [lookupRule?], by simp [lookupPending]⟩
  | output slot hpartner =>
      refine ⟨by simp [lookupRule?, Origin.slot], ?_⟩
      intro next hnext
      rw [lookupPending, List.mem_singleton] at hnext
      subst hnext
      exact ⟨hpartner, hscope⟩

/-- The values of two lists that agree one by one are the same. -/
theorem expected_of_forall₂ {stack : ScopeStack} {lefts rights : List String} {via : List UseStep}
    (hagree : List.Forall₂ (Agrees (stack.layers partner? level)) lefts rights) {next : Pending}
    (hnext : next ∈ pendingValues level lefts rights via) : Expected stack partner? next := by
  induction hagree with
  | nil => simp [pendingValues] at hnext
  | cons hhead _ ih =>
      rw [pendingValues, List.zipWith_cons_cons] at hnext
      rcases List.mem_cons.mp hnext with rfl | hrest
      · exact hhead
      · exact ih hrest

/-- A step on what is the same leads to what is the same, or is given up, and pairs only partners.
-/
theorem StepRun.accepts (hleftRoot : leftRoot.Distinct) (hrightRoot : rightRoot.Distinct)
    (haccepts : Accepts options rule leftRoot rightRoot relation) (hgrows : Grows relation)
    {next : Pending} {outcome : Outcome (Option (List Pending))}
    (hrun : StepRun options relation state next outcome final)
    (hproper : state.stack.Proper leftRoot rightRoot)
    (hpartners : PartnersAgree rule state.stack partner?)
    (hamong : PairsAmong partner? state.stack) (hexpected : Expected state.stack partner? next) :
    (∃ pending, EndsWith options (some pending) outcome ∧
        ∀ other ∈ pending, Expected final.stack partner? other) ∧
      PairsAmong partner? final.stack := by
  cases hrun with
  | @namesLost level left right via hlookup =>
      obtain ⟨_, _, hfound, _⟩ := lookup_leads_of_agrees hproper hexpected via
      rw [hlookup] at hfound
      cases hfound
  | @namesDiffer level found left right via lookup rule hlookup hrule =>
      obtain ⟨_, _, hfound, hnone, _⟩ := lookup_leads_of_agrees hproper hexpected via
      rw [hlookup] at hfound
      cases hfound
      rw [hrule] at hnone
      cases hnone
  | @namesLead level found left right via lookup hlookup hrule =>
      obtain ⟨_, _, hfound, _, hleads⟩ := lookup_leads_of_agrees hproper hexpected via
      rw [hlookup] at hfound
      cases hfound
      exact ⟨⟨_, .answered, hleads⟩, hamong⟩
  | scopeLost hlost =>
      obtain ⟨_, scope, hscope⟩ := hexpected
      rw [hlost] at hscope
      cases hscope
  | partners _ _ => exact ⟨⟨[], .answered, by simp⟩, hamong⟩
  | conflict hscope hpartner hne =>
      have hpair := hamong ((partner?_of_scope? hscope).trans hpartner)
      rw [hexpected.1, Option.some.injEq] at hpair
      exact absurd hpair.symm hne
  | leftLost hscope _ hlost =>
      have hlt := (hpartners.in_range hscope hexpected.1).1
      rw [List.getElem?_eq_getElem hlt] at hlost
      cases hlost
  | rightLost hscope _ _ hlost =>
      have hlt := (hpartners.in_range hscope hexpected.1).2
      rw [List.getElem?_eq_getElem hlt] at hlost
      cases hlost
  | nodesDiffer hfresh hrule =>
      rcases hpartners.nodes hfresh.scope_eq hexpected.1 hfresh.left_eq hfresh.right_eq with
        ⟨htype, hdomain, _⟩
      rw [nodeRule?_eq_none_iff.mpr ⟨htype, hdomain⟩] at hrule
      cases hrule
  | callStopped hfresh _ hcalls =>
      obtain ⟨_, hends, hamong'⟩ := hfresh.accepts hleftRoot hrightRoot haccepts hgrows hproper
        hcalls hpartners hamong hexpected.1
      exact ⟨⟨[], hends.stopped _, by simp⟩, hamong'⟩
  | pairedTwice hfresh _ hcalls _ _ _ =>
      obtain ⟨_, _, hamong'⟩ := hfresh.accepts hleftRoot hrightRoot haccepts hgrows hproper
        hcalls hpartners hamong hexpected.1
      exact ⟨⟨[], .pairedTwice, by simp⟩, hamong'⟩
  | callDiffered hfresh _ hcalls =>
      obtain ⟨_, hends, _⟩ := hfresh.accepts hleftRoot hrightRoot haccepts hgrows hproper
        hcalls hpartners hamong hexpected.1
      cases hends
  | attributesDiffer hfresh _ hcalls hdifference =>
      obtain ⟨hnone, _⟩ := hfresh.accepts hleftRoot hrightRoot haccepts hgrows hproper
        hcalls hpartners hamong hexpected.1
      rw [hdifference] at hnone
      cases hnone
  | inputCountsDiffer hfresh _ _ _ hlength =>
      rcases hpartners.nodes hfresh.scope_eq hexpected.1 hfresh.left_eq hfresh.right_eq with
        ⟨_, _, hinputs, _⟩
      exact absurd hinputs.length_eq hlength
  | @nodesPaired level left right via scope leftNode rightNode inner hfresh _ hcalls _ _ =>
      obtain ⟨_, _, hamong'⟩ := hfresh.accepts hleftRoot hrightRoot haccepts hgrows hproper
        hcalls hpartners hamong hexpected.1
      rcases hpartners.nodes hfresh.scope_eq hexpected.1 hfresh.left_eq hfresh.right_eq with
        ⟨_, _, hinputs, _⟩
      have hextends := (hcalls.grows hgrows).trans (extends_pair inner.stack level left right)
      obtain ⟨scope', hscope', _⟩ := (hcalls.grows hgrows).scope? hfresh.scope_eq
      refine ⟨⟨_, .answered, fun other hother => ?_⟩, hamong'.pair hscope' hexpected.1⟩
      exact (expected_of_forall₂ hinputs hother).of_extends hextends

/-- A descent over what is the same ends well, or is given up. -/
theorem DrainRun.accepts (hleftRoot : leftRoot.Distinct) (hrightRoot : rightRoot.Distinct)
    (haccepts : Accepts options rule leftRoot rightRoot relation) (hgrows : Grows relation)
    {pending : List Pending} {outcome : Outcome Bool}
    (hrun : DrainRun options relation state pending outcome final)
    (hproper : state.stack.Proper leftRoot rightRoot)
    (hpartners : PartnersAgree rule state.stack partner?)
    (hamong : PairsAmong partner? state.stack)
    (hexpected : ∀ next ∈ pending, Expected state.stack partner? next) :
    EndsWith options true outcome ∧ PairsAmong partner? final.stack := by
  induction hrun with
  | finished => exact ⟨.answered, hamong⟩
  | failed hstep =>
      obtain ⟨⟨_, hends, _⟩, _⟩ := hstep.accepts hleftRoot hrightRoot haccepts hgrows hproper
        hpartners hamong (hexpected _ List.mem_cons_self)
      cases hends
  | stopped hstep =>
      obtain ⟨⟨_, hends, _⟩, hamong'⟩ := hstep.accepts hleftRoot hrightRoot haccepts hgrows hproper
        hpartners hamong (hexpected _ List.mem_cons_self)
      exact ⟨hends.stopped _, hamong'⟩
  | continued hstep _ ih =>
      have hextends := hstep.grows hgrows
      obtain ⟨⟨_, hends, hleads⟩, hamong'⟩ := hstep.accepts hleftRoot hrightRoot haccepts hgrows
        hproper hpartners hamong (hexpected _ List.mem_cons_self)
      cases hends
      refine ih (hproper.of_extends hextends) (hpartners.of_extends hextends) hamong' ?_
      intro next hnext
      rcases List.mem_append.mp hnext with hled | hrest
      · exact hleads next hled
      · exact (hexpected next (List.mem_cons_of_mem _ hrest)).of_extends hextends

/-- The comparison of outputs that agree ends well, or is given up. -/
theorem OutputsRun.accepts (hleftRoot : leftRoot.Distinct) (hrightRoot : rightRoot.Distinct)
    (haccepts : Accepts options rule leftRoot rightRoot relation) (hgrows : Grows relation)
    {lefts rights : List String} {outcome : Outcome Bool}
    (hrun : OutputsRun options relation level lefts rights state outcome final)
    (hproper : state.stack.Proper leftRoot rightRoot)
    (hpartners : PartnersAgree rule state.stack partner?)
    (hamong : PairsAmong partner? state.stack)
    (hagree : List.Forall₂ (Agrees (state.stack.layers partner? level)) lefts rights) :
    EndsWith options true outcome ∧ PairsAmong partner? final.stack := by
  rcases hrun with hlength | ⟨_, hdrain⟩
  · exact absurd hagree.length_eq hlength
  · exact hdrain.accepts hleftRoot hrightRoot haccepts hgrows hproper hpartners hamong
      fun _ hnext => expected_of_forall₂ hagree hnext

/-- Where the left body reaches all nodes that have partners, its pairs are these when the outputs
have been compared well. -/
theorem OutputsRun.partner?_eq (hleftRoot : leftRoot.Distinct) (hrightRoot : rightRoot.Distinct)
    (hfills : Fills leftRoot rightRoot relation) (hgrows : Grows relation) {left right : Body}
    (hrun : OutputsRun options relation level left.outputs right.outputs state (.ok true) final)
    (hproper : state.stack.Proper leftRoot rightRoot)
    (hbodies : state.stack.HasBodies level left right)
    (hunpaired : ∀ index, ¬ state.stack.Paired level index)
    (hamong : PairsAmong partner? final.stack)
    (hreached : ∀ index index', partner? level index = some index' → left.Reaches index)
    (index : Nat) : final.stack.partner? level index = partner? level index := by
  cases hpair : final.stack.partner? level index with
  | some index' => exact (hamong hpair).symm
  | none =>
      cases hpartner : partner? level index with
      | none => rfl
      | some index' =>
          have hpaired := hrun.paired_of_reaches hleftRoot hrightRoot hfills hgrows hproper hbodies
            hunpaired (hreached index index' hpartner)
          exact absurd hpair hpaired

/-- The comparison of two bodies whose outputs agree ends well, or is given up, if all nodes take part
where they have to. -/
theorem BodiesRun.accepts (hleftRoot : leftRoot.Distinct) (hrightRoot : rightRoot.Distinct)
    (haccepts : Accepts options rule leftRoot rightRoot relation)
    (hfills : Fills leftRoot rightRoot relation) (hgrows : Grows relation) {left right : Body}
    {outcome : Outcome Bool} (hrun : BodiesRun options relation level state outcome final)
    (hproper : state.stack.Proper leftRoot rightRoot)
    (hbodies : state.stack.HasBodies level left right)
    (hunpaired : ∀ index, ¬ state.stack.Paired level index)
    (hcovered : options.pairAllNodes = true → CoveredBodies left right (partner? level))
    (hpartners : PartnersAgree rule state.stack partner?)
    (hamong : PairsAmong partner? state.stack)
    (hagree : List.Forall₂ (Agrees (state.stack.layers partner? level)) left.outputs
      right.outputs) :
    EndsWith options true outcome ∧ PairsAmong partner? final.stack := by
  obtain ⟨scope, hscope, hleft, hright⟩ := hbodies
  have haccepted : ∀ {outcome : Outcome Bool} {final : CompareState},
      OutputsRun options relation level left.outputs right.outputs state outcome final →
        EndsWith options true outcome ∧ PairsAmong partner? final.stack := fun houtputs =>
    houtputs.accepts hleftRoot hrightRoot haccepts hgrows hproper hpartners hamong hagree
  have hruns := hrun.outputs_or_paired hscope
  rw [hleft, hright] at hruns
  rcases hruns with houtputs | ⟨hall, inner, houtputs, hpaired⟩
  · exact haccepted houtputs
  · obtain ⟨_, hamong'⟩ := haccepted houtputs
    obtain ⟨hcover, hreached⟩ := hcovered hall
    obtain ⟨scope', hscope', hscopes⟩ := (houtputs.grows hgrows).scope? hscope
    have hpairs : scope'.pairing.partner? = partner? level := by
      refine funext fun index => ?_
      rw [← partner?_of_scope? hscope']
      exact houtputs.partner?_eq hleftRoot hrightRoot hfills hgrows hproper
        ⟨scope, hscope, hleft, hright⟩ hunpaired hamong' hreached index
    have houtcome := hpaired.eq_ok_of_cover hscope' (by
      rw [hpairs, hscopes.left, hscopes.right, hleft, hright]
      exact hcover)
    rw [hpaired.stack_eq]
    exact ⟨houtcome ▸ .answered, hamong'⟩

theorem headerDifference?_of_graphsAgree (hrule : rule.ConfirmedBy options) {graph graph' : Graph}
    {layers : List Layer} (hagree : GraphsAgree rule layers graph graph') :
    headerDifference? graph graph' = none := by
  obtain ⟨hinputs, _, hgraphs, _⟩ := graphsAgree_iff.mp hagree
  have hconfirmable := hrule.confirmable _ _ _ hgraphs
  exact headerDifference?_eq_none_iff.mpr
    ⟨hinputs, hconfirmable.left_bare, hconfirmable.right_bare⟩

theorem nestedRun_accepts (hleftRoot : leftRoot.Distinct) (hrightRoot : rightRoot.Distinct)
    (hrule : rule.ConfirmedBy options) (levels : Nat) :
    Accepts options rule leftRoot rightRoot (NestedRun options levels) := by
  induction levels with
  | zero =>
      intro level graph graph' state final outcome left right partner? hrun hproper hbodies
        hcarried hpartners hamong hmatch
      have hheader := headerDifference?_of_graphsAgree hrule hmatch
      rcases hrun with hdiffer | ⟨_, rfl, rfl⟩
      · rw [hheader] at hdiffer
        cases hdiffer
      · exact ⟨.tooDeep, hamong⟩
  | succ levels ih =>
      intro level graph graph' state final outcome left right partner? hrun hproper hbodies
        hcarried hpartners hamong hmatch
      have hheader := headerDifference?_of_graphsAgree hrule hmatch
      rcases hrun with hdiffer | ⟨_, inner, hrun, rfl⟩
      · rw [hheader] at hdiffer
        cases hdiffer
      · obtain ⟨_, inner?, hgraphs, hmatch⟩ := graphsAgree_iff.mp hmatch
        have hgrows := nestedRun_grows options levels
        have hlevel := hbodies.lt_depth
        have hproper' := Proper.entered hproper hbodies hcarried
        have hrange := (hrule.confirmable _ _ _ hgraphs).in_range
        have houtputs := hmatch.outputs
        rw [← layers_push_depth hproper' hlevel] at houtputs
        obtain ⟨hends, hamong'⟩ := hrun.accepts hleftRoot hrightRoot ih
          (nestedRun_fills options hleftRoot hrightRoot levels) hgrows hproper'
          (entered_hasBodies state level graph.body graph'.body)
          (fun index => unpaired_entered state level index graph.body graph'.body)
          (fun hall => by
            rw [withPartners, if_pos rfl]
            exact hrule.covered hall _ _ _ hgraphs)
          (hpartners.push hproper' hlevel hrange hmatch) hamong.push houtputs
        exact ⟨hends, PairsAmong.pop (hrun.grows hgrows) hamong'⟩

end Steps

end CompareM

end OpGraph
