import OpGraph.Proofs.Descent.Reach
import OpGraph.Proofs.Scoping.WellFormed

/-!
Which left nodes a comparison that ends well has paired: all that are needed for what was pending.
With a node that it pairs, it pairs all that this node needs, itself or from inside of the graphs
that it carries. Together with the converse, the paired nodes of a scope are those that its left
body reaches.
-/

namespace OpGraph

namespace ScopeStack

/-- The left node has a partner. -/
def Paired (stack : ScopeStack) (level index : Nat) : Prop := stack.partner? level index ≠ none

/-- With each left node that has a partner in the second stack only, all that it needs has one. -/
def Filled (stack stack' : ScopeStack) : Prop :=
  ∀ ⦃level index found other slot : Nat⦄ ⦃scope : Scope⦄ ⦃node : Node⦄ ⦃name : String⦄,
    stack'.Paired level index → ¬ stack.Paired level index → stack'.scope? level = some scope →
    scope.left.nodes[index]? = some node → node.Needs name →
    stack'.FindsLeft name level found (.output other slot) → stack'.Paired found other

section Filling

variable {stack stack' : ScopeStack} {level index : Nat}

theorem Paired.of_extends (hextends : stack.Extends stack') (hpaired : stack.Paired level index) :
    stack'.Paired level index := by
  obtain ⟨right, hright⟩ := Option.ne_none_iff_exists'.mp hpaired
  rw [Paired, hextends.partner? hright]
  exact Option.some_ne_none right

theorem paired_of_partner? {right : Nat} (hright : stack.partner? level index = some right) :
    stack.Paired level index := by
  rw [Paired, hright]
  exact Option.some_ne_none right

theorem paired_pop (hlevel : level + 1 < stack.depth) :
    stack.pop.Paired level index ↔ stack.Paired level index := by
  rw [Paired, Paired, partner?, partner?, scope?_pop_of_lt hlevel]

/-- What is found without the innermost scope is found with it. -/
theorem FindsLeft.of_pop {name : String} {found : Nat} {origin : Origin}
    (hfinds : stack.pop.FindsLeft name level found origin) :
    stack.FindsLeft name level found origin := by
  induction hfinds with
  | here hscope hdefines => exact .here (scope?_eq_some_of_pop hscope) hdefines
  | outward hscope hlacks hparent _ ih =>
      exact .outward (scope?_eq_some_of_pop hscope) hlacks hparent ih

theorem Supplies.of_extends {graph : Graph} (hextends : stack.Extends stack')
    (hsupplies : stack.Supplies level graph stack.Paired) :
    stack'.Supplies level graph stack'.Paired := by
  intro name found other slot hneeds hlacks hfinds
  exact (hsupplies hneeds hlacks (hfinds.of_extends_back hextends)).of_extends hextends

theorem Filled.refl (stack : ScopeStack) : Filled stack stack :=
  fun _ _ _ _ _ _ _ _ hpaired hunpaired => absurd hpaired hunpaired

theorem Filled.trans {first second third : ScopeStack} (hextends : second.Extends third)
    (hsecond : Filled first second) (hthird : Filled second third) : Filled first third := by
  intro level index found other slot scope node name hpaired hunpaired hscope hnode hneeds hfinds
  by_cases hmiddle : second.Paired level index
  · obtain ⟨scope', hscope', hscopes⟩ := hextends.scope?_back hscope
    rw [hscopes.left] at hnode
    exact (hsecond hmiddle hunpaired hscope' hnode hneeds
      (hfinds.of_extends_back hextends)).of_extends hextends
  · exact hthird hpaired hmiddle hscope hnode hneeds hfinds

end Filling

end ScopeStack

namespace CompareM

open ScopeStack

/-- A comparison of graphs that ends well has paired all that they need from around them. -/
def Fills (leftRoot rightRoot : Body) (relation : NestedRelation) : Prop :=
  ∀ ⦃level : Nat⦄ ⦃graph graph' : Graph⦄ ⦃state final : CompareState⦄ ⦃left right : Body⦄,
    relation level graph graph' state (.ok true) final →
    state.stack.Proper leftRoot rightRoot → state.stack.HasBodies level left right →
    Carried left right graph graph' →
    final.stack.Supplies level graph final.stack.Paired ∧ Filled state.stack final.stack

section Filling

variable {leftRoot rightRoot : Body} {options : CompareOptions} {relation : NestedRelation}
  {level : Nat} {state final : CompareState}

theorem CallsRun.fills (hfills : Fills leftRoot rightRoot relation) (hgrows : Grows relation)
    {calls : List GraphCall} {left right : Body} {outcome : Outcome (Option GraphCall)}
    (hrun : CallsRun relation level calls state outcome final) (houtcome : outcome = .ok none)
    (hproper : state.stack.Proper leftRoot rightRoot)
    (hbodies : state.stack.HasBodies level left right)
    (hcarried : ∀ call ∈ calls, Carried left right call.left call.right) :
    (∀ call ∈ calls, final.stack.Supplies level call.left final.stack.Paired) ∧
      Filled state.stack final.stack := by
  induction hrun with
  | finished => exact ⟨by simp, Filled.refl _⟩
  | matched hcall hrest ih =>
      have hfirst := hgrows _ _ _ _ _ _ hcall
      have hlater := hrest.grows hgrows
      obtain ⟨hsupplies, hfilled⟩ := hfills hcall hproper hbodies (hcarried _ List.mem_cons_self)
      obtain ⟨hothers, hfilled'⟩ := ih houtcome (hproper.of_extends hfirst)
        (hbodies.of_extends hfirst) fun call hmem => hcarried call (List.mem_cons_of_mem _ hmem)
      refine ⟨?_, hfilled.trans hlater hfilled'⟩
      intro call hmem
      rcases List.mem_cons.mp hmem with rfl | hrest
      · exact hsupplies.of_extends hlater
      · exact hothers call hrest
  | differed _ => cases houtcome
  | stopped _ => cases houtcome

theorem mem_pendingValues_of_mem {lefts rights : List String} {via : List UseStep} {left : String}
    (hlength : lefts.length = rights.length) (hleft : left ∈ lefts) :
    ∃ right, Pending.values level left right via ∈ pendingValues level lefts rights via := by
  obtain ⟨place, hplace⟩ := List.mem_iff_getElem?.mp hleft
  obtain ⟨right, hplace'⟩ := exists_getElem?_of_length_eq hlength hplace
  exact ⟨right, List.mem_of_getElem? (List.getElem?_zipWith_eq_some.mpr
    ⟨left, right, hplace, hplace', rfl⟩)⟩

/-- A step has paired what it needs, once all that it leads to is settled. -/
theorem StepRun.fills (hleft : leftRoot.Distinct) (hright : rightRoot.Distinct)
    (hfills : Fills leftRoot rightRoot relation) (hgrows : Grows relation) {next : Pending}
    {pending : List Pending} {inner : CompareState}
    (hrun : StepRun options relation state next (.ok (some pending)) inner)
    (hproper : state.stack.Proper leftRoot rightRoot)
    (hextends : inner.stack.Extends final.stack)
    (hawaits : ∀ other ∈ pending, final.stack.Awaits final.stack.Paired other)
    (hfilled : Filled inner.stack final.stack) :
    final.stack.Awaits final.stack.Paired next ∧ Filled state.stack final.stack := by
  cases hrun with
  | @namesLead level found left right via lookup hlookup hrule =>
      refine ⟨fun found' other slot hfinds => ?_, hfilled⟩
      have hbefore := hfinds.of_extends_back hextends
      rcases lookupRule?_eq_none_iff.mp hrule with ⟨place, rfl⟩ | ⟨index, index', place, rfl⟩ <;>
        obtain ⟨rfl, horigin⟩ := hbefore.eq_of_lookup hproper hleft.names hlookup <;> cases horigin
      exact hawaits (.nodes found' other index' via) List.mem_cons_self
  | partners hscope hpartner =>
      refine ⟨?_, hfilled⟩
      exact (paired_of_partner? ((partner?_of_scope? hscope).trans hpartner)).of_extends hextends
  | @nodesPaired level left right via scope leftNode rightNode inner hfresh _ hcalls hdifference
      hlength =>
      have hlater : inner.stack.Extends final.stack :=
        (extends_pair inner.stack level left right).trans hextends
      obtain ⟨scope', hscope', hscopes⟩ := (hcalls.grows hgrows).scope? hfresh.scope_eq
      have hpair := partner?_pair hscope' left right
      have hleftMem := List.mem_of_getElem? hfresh.left_eq
      have hrightMem := List.mem_of_getElem? hfresh.right_eq
      have hnodup := hleft.attributes _ (hproper.left hfresh.scope_eq) _ hleftMem
      have hnodup' := hright.attributes _ (hproper.right hfresh.scope_eq) _ hrightMem
      obtain ⟨hsupplies, hcallsFilled⟩ := hcalls.fills hfills hgrows rfl hproper
        ⟨scope, hfresh.scope_eq, rfl, rfl⟩ fun call hcall =>
          ⟨⟨leftNode, hleftMem, (mem_attributePlan hcall).1⟩,
            ⟨rightNode, hrightMem, (mem_attributePlan hcall).2⟩⟩
      have hpaired : final.stack.Paired level left := by
        refine Paired.of_extends hextends ?_
        rw [CompareState.stack_paired, Paired, hpair, if_pos ⟨rfl, rfl⟩]
        exact Option.some_ne_none _
      refine ⟨hpaired, hcallsFilled.trans hlater ?_⟩
      intro place index found other slot outer node name hnew hold hscope hnode hneeds hfinds
      by_cases hmiddle : (inner.paired level left right).stack.Paired place index
      · -- the only node paired in between is that of this step
        rw [CompareState.stack_paired, Paired, hpair] at hmiddle
        split at hmiddle
        next hsame =>
          obtain ⟨rfl, rfl⟩ := hsame
          obtain ⟨outer', houter', houters⟩ := hlater.scope?_back hscope
          rw [hscope', Option.some.injEq] at houter'
          subst houter'
          rw [houters.left, hscopes.left, hfresh.left_eq, Option.some.injEq] at hnode
          subst hnode
          cases hneeds with
          | input hinput =>
              obtain ⟨rightName, hpending⟩ := mem_pendingValues_of_mem hlength hinput
              exact hawaits _ hpending hfinds
          | captured hcarries hneeds hlacks =>
              obtain ⟨call, hcall, rfl⟩ :=
                (exists_call_of_carries hnodup hnodup' hdifference).1 hcarries
              exact (hsupplies call hcall).of_extends hlater hneeds hlacks hfinds
        next => exact absurd hmiddle hold
      · exact hfilled hnew hmiddle hscope hnode hneeds hfinds

/-- A descent that ends well has paired all that is needed for what was pending. -/
theorem DrainRun.fills (hleft : leftRoot.Distinct) (hright : rightRoot.Distinct)
    (hfills : Fills leftRoot rightRoot relation) (hgrows : Grows relation) {pending : List Pending}
    {outcome : Outcome Bool} (hrun : DrainRun options relation state pending outcome final)
    (houtcome : outcome = .ok true) (hproper : state.stack.Proper leftRoot rightRoot) :
    (∀ next ∈ pending, final.stack.Awaits final.stack.Paired next) ∧
      Filled state.stack final.stack := by
  induction hrun with
  | finished => exact ⟨by simp, Filled.refl _⟩
  | failed _ => cases houtcome
  | stopped _ => cases houtcome
  | continued hstep hrest ih =>
      have hextends := hrest.grows hgrows
      obtain ⟨hawaits, hfilled⟩ := ih houtcome (hproper.of_extends (hstep.grows hgrows))
      obtain ⟨hnext, hfilled'⟩ := hstep.fills hleft hright hfills hgrows hproper hextends
        (fun other hother => hawaits other (List.mem_append_left _ hother)) hfilled
      refine ⟨?_, hfilled'⟩
      intro other hother
      rcases List.mem_cons.mp hother with rfl | hmem
      · exact hnext
      · exact hawaits other (List.mem_append_right _ hmem)

/-- If the nodes behind the outputs of a body are paired, and all that is needed for what was paired
on the way, then so are the nodes behind all that the body needs. -/
theorem paired_of_needs {stack stack' : ScopeStack} {left right : Body} {name : String}
    (hneeds : left.Needs name) (hbodies : stack'.HasBodies level left right)
    (hunpaired : ∀ index, ¬ stack.Paired level index) (hfilled : Filled stack stack')
    (houtputs : ∀ name ∈ left.outputs, ∀ ⦃found other slot : Nat⦄,
      stack'.FindsLeft name level found (.output other slot) → stack'.Paired found other)
    {found other slot : Nat} (hfinds : stack'.FindsLeft name level found (.output other slot)) :
    stack'.Paired found other := by
  obtain ⟨scope, hscope, hleft, _⟩ := hbodies
  induction hneeds generalizing found other slot with
  | output hname => exact houtputs _ hname hfinds
  | input _ hdefines hnode hinput ih =>
      have hpaired := ih houtputs (.here hscope (hleft ▸ hdefines)) hleft
      exact hfilled hpaired (hunpaired _) hscope (hleft ▸ hnode) (.input hinput) hfinds
  | captured _ hdefines hnode hcarries hneeds hlacks ih _ =>
      have hpaired := ih houtputs (.here hscope (hleft ▸ hdefines)) hleft
      exact hfilled hpaired (hunpaired _) hscope (hleft ▸ hnode) (.captured hcarries hneeds hlacks)
        hfinds

/-- A comparison of outputs that ends well has paired the nodes behind all that is needed for them.
-/
theorem OutputsRun.fills (hleft : leftRoot.Distinct) (hright : rightRoot.Distinct)
    (hfills : Fills leftRoot rightRoot relation) (hgrows : Grows relation) {left right : Body}
    (hrun : OutputsRun options relation level left.outputs right.outputs state (.ok true) final)
    (hproper : state.stack.Proper leftRoot rightRoot)
    (hbodies : state.stack.HasBodies level left right)
    (hunpaired : ∀ index, ¬ state.stack.Paired level index) :
    (∀ ⦃name : String⦄ ⦃found other slot : Nat⦄, left.Needs name →
        final.stack.FindsLeft name level found (.output other slot) →
        final.stack.Paired found other) ∧
      Filled state.stack final.stack := by
  have hextends := hrun.grows hgrows
  rcases hrun with _ | ⟨hlength, hdrain⟩
  obtain ⟨hawaits, hfilled⟩ := hdrain.fills hleft hright hfills hgrows rfl hproper
  refine ⟨?_, hfilled⟩
  intro name found other slot hneeds hfinds
  refine paired_of_needs hneeds (hbodies.of_extends hextends) hunpaired hfilled ?_ hfinds
  intro output houtput found other slot hfinds
  obtain ⟨rightName, hpending⟩ := mem_pendingValues_of_mem hlength houtput
  exact hawaits _ hpending hfinds

/-- In its scope, a body that is compared well has a partner for each node that it reaches. -/
theorem OutputsRun.paired_of_reaches (hleft : leftRoot.Distinct) (hright : rightRoot.Distinct)
    (hfills : Fills leftRoot rightRoot relation) (hgrows : Grows relation) {left right : Body}
    (hrun : OutputsRun options relation level left.outputs right.outputs state (.ok true) final)
    (hproper : state.stack.Proper leftRoot rightRoot)
    (hbodies : state.stack.HasBodies level left right)
    (hunpaired : ∀ index, ¬ state.stack.Paired level index) {index : Nat}
    (hreaches : left.Reaches index) : final.stack.Paired level index := by
  obtain ⟨scope, hscope, hscopeLeft, _⟩ := hbodies.of_extends (hrun.grows hgrows)
  obtain ⟨name, slot, hneeds, hdefines⟩ := hreaches
  exact (hrun.fills hleft hright hfills hgrows hproper hbodies hunpaired).1 hneeds
    (.here hscope (hscopeLeft ▸ hdefines))

theorem unpaired_entered (state : CompareState) (level index : Nat) (left right : Body) :
    ¬ (state.entered level left right).stack.Paired state.stack.depth index := by
  rw [CompareState.stack_entered, Paired, partner?, scope?_push_depth]
  exact fun hpaired => hpaired rfl

theorem nestedRun_fills (options : CompareOptions) (hleft : leftRoot.Distinct)
    (hright : rightRoot.Distinct) (levels : Nat) :
    Fills leftRoot rightRoot (NestedRun options levels) := by
  induction levels with
  | zero =>
      intro level graph graph' state final left right hrun _ _ _
      rcases hrun with _ | ⟨_, houtcome, _⟩
      cases houtcome
  | succ levels ih =>
      intro level graph graph' state final left right hrun hproper hbodies hcarried
      rcases hrun with _ | ⟨_, inner, hrun, rfl⟩
      have hgrows := nestedRun_grows options levels
      have hentered := entered_hasBodies state level graph.body graph'.body
      have hproper' := Proper.entered hproper hbodies hcarried
      have hlevel := hbodies.lt_depth
      obtain ⟨inner', houtputs, hstack⟩ :=
        hrun.outputsRun (scope?_push_depth state.stack level graph.body graph'.body)
      have hextends := houtputs.grows hgrows
      obtain ⟨hneeded, hfilled⟩ := houtputs.fills hleft hright ih hgrows hproper' hentered
        fun index => unpaired_entered state level index graph.body graph'.body
      have hpopped := hproper.of_extends hextends.pop
      have hdepth : inner'.stack.depth = state.stack.depth + 1 := by
        rw [hextends.depth_eq, CompareState.stack_entered, depth_push]
      rw [CompareState.stack_popped, hstack]
      constructor
      · intro name found other slot hneeds hlacks hfinds
        obtain ⟨scope, hscope, hscopes⟩ :=
          hextends.scope? (scope?_push_depth state.stack level graph.body graph'.body)
        have hle := hfinds.found_le hpopped
        have hpaired := hneeded hneeds
          (.outward hscope (hscopes.left ▸ hlacks) hscopes.parent hfinds.of_pop)
        exact (paired_pop (by omega)).mpr hpaired
      · intro place index found other slot scope node name hpaired hunpaired hscope hnode hneeds
          hfinds
        have hplace := scope?_eq_some_lt hscope
        rw [hextends.pop.depth_eq] at hplace
        have hle := hfinds.found_le hpopped
        refine (paired_pop (by omega)).mpr (hfilled ((paired_pop (by omega)).mp hpaired) ?_
          (scope?_eq_some_of_pop hscope) hnode hneeds hfinds.of_pop)
        rw [CompareState.stack_entered, Paired, partner?, scope?_push_of_lt hplace]
        exact hunpaired

end Filling

end CompareM

end OpGraph
