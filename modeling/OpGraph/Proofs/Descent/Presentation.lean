import OpGraph.Proofs.Descent.Lockstep
import OpGraph.Proofs.Descent.Presented
import OpGraph.Proofs.Descent.Verdicts

/-!
The result of a comparison does not depend on how the operands are presented. Two comparisons of the
same operands in different presentations go on in lockstep: they look up the same values, compare the
same nodes and enter the same graphs, one under the names and places of the other.
-/

namespace OpGraph

/-- A difference is recorded in both of the states or in none. -/
def RecordedAlike (state state' : CompareState) : Prop :=
  state.difference.isSome = state'.difference.isSome

/-- Two states are the same but for the presentation of the operands. -/
structure CompareState.PresentedAs (maps : Presentations) (state state' : CompareState) : Prop where
  stack : state.stack.PresentedAs maps state'.stack
  recorded : RecordedAlike state state'

namespace CompareM

open ScopeStack

/-- Both comparisons give the same answer. If it is that the operands match, the states go on to be
the same but for the presentation. -/
abbrev AnswerPresented (maps : Presentations) :
    Outcome Bool × CompareState → Outcome Bool × CompareState → Prop :=
  EndAlike (Answers RecordedAlike (CompareState.PresentedAs maps))

/-- Both steps fail, or they lead to the same comparisons. -/
abbrev LeadsPresented (maps : Presentations) :
    Option (List Pending) → CompareState → Option (List Pending) → CompareState → Prop :=
  Leads (Pending.PresentedAs maps) RecordedAlike (CompareState.PresentedAs maps)

/-- Graphs in attributes, with so many inside each other, have the same answer in any presentation. -/
def NestedPresented (options : CompareOptions) (levels : Nat) : Prop :=
  ∀ ⦃maps : Presentations⦄ ⦃level : Nat⦄ ⦃left left' right right' : Graph⦄
    ⦃state state' : CompareState⦄, state.PresentedAs maps state' → level < maps.depth →
    (maps.scope level).left.PresentsGraph left left' →
    (maps.scope level).right.PresentsGraph right right' →
    AnswerPresented maps (exec (compareNested options levels level left right) state)
      (exec (compareNested options levels level left' right') state')

section States

variable {options : CompareOptions} {maps : Presentations} {state state' : CompareState}

theorem recordedAlike_rejected (hrecorded : RecordedAlike state state') (rule rule' : FailedRule)
    (path path' : List UseStep) :
    RecordedAlike (state.rejected options rule path) (state'.rejected options rule' path') := by
  unfold RecordedAlike at *
  unfold CompareState.rejected
  cases hleft : state.difference <;> cases hright : state'.difference <;>
    cases options.trace <;> simp_all

theorem recordedAlike_extended (hrecorded : RecordedAlike state state') (path path' : List UseStep) :
    RecordedAlike (state.extended path) (state'.extended path') := by
  unfold RecordedAlike at *
  rw [CompareState.extended, CompareState.extended, Option.isSome_map, Option.isSome_map, hrecorded]

theorem answerPresented_rejected (hrecorded : RecordedAlike state state') (rule rule' : FailedRule)
    (path path' : List UseStep) :
    AnswerPresented maps (.ok false, state.rejected options rule path)
      (.ok false, state'.rejected options rule' path') :=
  .ended (.differed (recordedAlike_rejected hrecorded rule rule' path path'))

theorem rejections_alike {rule? rule?' : Option FailedRule} (hrules : rule? = rule?')
    (hrecorded : RecordedAlike state state') (path path' : List UseStep) :
    Option.Rel (fun rule rule' =>
      RecordedAlike (state.rejected options rule path) (state'.rejected options rule' path'))
      rule? rule?' := by
  subst hrules
  cases rule? with
  | none => exact .none
  | some rule => exact .some (recordedAlike_rejected hrecorded rule rule path path')

end States

section Steps

variable {options : CompareOptions} {maps : Presentations} {levels level : Nat}
  {state state' : CompareState} {via via' : List UseStep}

theorem valueStep_presented {left left' right right' : String}
    (hleft : FoundAlike (maps.scope level).left.layers left left')
    (hright : FoundAlike (maps.scope level).right.layers right right')
    (hstate : state.PresentedAs maps state') :
    EndAlike (LeadsPresented maps) (exec (valueStep options level left right via) state)
      (exec (valueStep options level left' right' via') state') := by
  have hlookup := hstate.stack.lookupOutward? hleft hright level
  rw [exec_valueStep, exec_valueStep]
  generalize state.stack.lookupOutward? left right level level = found? at hlookup
  generalize state'.stack.lookupOutward? left' right' level level = found?' at hlookup
  cases hlookup with
  | none => exact .stopped
  | @some found found' hfound =>
      obtain ⟨place, lookup⟩ := found
      obtain ⟨place', lookup'⟩ := found'
      obtain ⟨hplace, hlookup⟩ := hfound
      obtain rfl : place = place' := hplace
      have hsome := @LookupsPresented.isSome_eq _ _ _ left left' right right' hlookup
      have hpending := @LookupsPresented.pending maps place via via' _ _ hlookup
      simp only
      cases hrule : lookupRule? left right lookup <;> cases hrule' : lookupRule? left' right' lookup'
      · exact .ended (.led hpending hstate)
      · simp [hrule, hrule'] at hsome
      · simp [hrule, hrule'] at hsome
      · exact .ended (.failed (recordedAlike_rejected hstate.recorded _ _ _ _))

/-- Two nodes that are not paired have the same answer as regards all but their inputs. -/
theorem headsMatch_presented (hnested : NestedPresented options levels) (hlevel : level < maps.depth)
    {left left' right right' : Node}
    (hleft : left.RenamedBy left' (maps.scope level).left.names
      (AttributesRearranged (maps.scope level).left.names))
    (hright : right.RenamedBy right' (maps.scope level).right.names
      (AttributesRearranged (maps.scope level).right.names))
    (hcarried : ∃ layer ∈ (maps.scope level).left.layers.head?, left ∈ layer.left.nodes)
    (hcarried' : ∃ layer ∈ (maps.scope level).right.layers.head?, right ∈ layer.left.nodes)
    (hstate : state.PresentedAs maps state') :
    AnswerPresented maps
      (exec (headsMatch options (compareNested options levels) level left right via) state)
      (exec (headsMatch options (compareNested options levels) level left' right' via') state') := by
  obtain ⟨hcalls, hdifference⟩ := attributePlan_presented hleft.attributes hright.attributes
  let both (call call' : GraphCall) : Prop :=
    (maps.scope level).left.PresentsGraph call.left call'.left ∧
      (maps.scope level).right.PresentsGraph call.right call'.right
  have hboth : List.Forall₂ both (attributePlan left.attributes right.attributes).calls
      (attributePlan left'.attributes right'.attributes).calls := by
    obtain ⟨hlength, hplaces⟩ := forall₂_iff_getElem?.mp hcalls
    refine forall₂_iff_getElem?.mpr ⟨hlength, fun place call call' hcall hcall' => ?_⟩
    obtain ⟨hcarries, hcarries'⟩ := mem_attributePlan (List.mem_of_getElem? hcall)
    obtain ⟨layer, hlayer, hmem⟩ := hcarried
    obtain ⟨layer', hlayer', hmem'⟩ := hcarried'
    obtain ⟨_, _, hgraph, hgraph'⟩ := hplaces place call call' hcall hcall'
    exact ⟨⟨⟨layer, hlayer, left, hmem, hcarries⟩, hgraph⟩,
      ⟨⟨layer', hlayer', right, hmem', hcarries'⟩, hgraph'⟩⟩
  have hrule : nodeRule? left right = nodeRule? left' right' := by
    rw [nodeRule?, nodeRule?, hleft.opType, hleft.domain, hright.opType, hright.domain]
  refine headsMatch_alike ?_ ?_ hboth ?_ hstate
  · exact rejections_alike hrule hstate.recorded _ _
  · rintro call call' ⟨hgraph, hgraph'⟩
    exact ⟨fun inner inner' hinner => hnested hinner hlevel hgraph hgraph',
      fun final final' hfinal => recordedAlike_extended hfinal _ _⟩
  · rw [← hdifference]
    cases (attributePlan left.attributes right.attributes).difference? with
    | none => exact .none
    | some difference =>
        exact .some fun final final' hfinal => recordedAlike_rejected hfinal.recorded _ _ _ _

/-- The step of two nodes that are not paired is the same in any presentation. -/
theorem freshStep_presented (hnested : NestedPresented options levels) {scope scope' : Scope}
    {left left' right right' : Nat} (hscope : state.stack.scope? level = some scope)
    (hscope' : state'.stack.scope? level = some scope')
    (hscopes : scope.PresentedAs maps level scope')
    (hunpaired : scope.pairing.partner? left = none)
    (hunpaired' : scope'.pairing.partner? left' = none)
    (hleft : (maps.scope level).left.place? left = some left')
    (hright : (maps.scope level).right.place? right = some right')
    (hstate : state.PresentedAs maps state') :
    EndAlike (LeadsPresented maps)
      (exec (nodeStep options (compareNested options levels) level left right via) state)
      (exec (nodeStep options (compareNested options levels) level left' right' via') state') := by
  have hlevel := scope?_eq_some_lt hscope
  rw [hstate.stack.depth_eq] at hlevel
  obtain ⟨node, node', hnode, hnode', hrenamed⟩ := hscopes.left.exists_nodes hleft
  obtain ⟨other, other', hother, hother', hrenamed'⟩ := hscopes.right.exists_nodes hright
  have hmem := List.mem_of_getElem? hnode
  have hmem' := List.mem_of_getElem? hother
  refine freshStep_alike ⟨hscope, hunpaired, hnode, hother⟩ ⟨hscope', hunpaired', hnode', hother'⟩
    (headsMatch_presented hnested hlevel hrenamed hrenamed' (hscopes.left.head_layer hmem)
      (hscopes.right.head_layer hmem') hstate) ?_ ?_ ?_ ?_ ?_ ?_
  · rw [hrenamed.inputs, List.length_map]
  · rw [hrenamed'.inputs, List.length_map]
  · exact fun inner inner' hinner => recordedAlike_rejected hinner.recorded _ _ _ _
  · exact fun inner inner' hinner => hinner.stack.partner?_eq_none_iff hleft
  · exact fun inner inner' hinner => ⟨hinner.stack.pair hleft hright, hinner.recorded⟩
  · rw [hrenamed.inputs, hrenamed'.inputs]
    exact pendingValues_presented
      (hscopes.left.foundAlike fun name hname => Or.inr ⟨node, hmem, .input hname⟩)
      (hscopes.right.foundAlike fun name hname => Or.inr ⟨other, hmem', .input hname⟩)

theorem nodeStep_presented (hnested : NestedPresented options levels)
    {left left' right right' : Nat}
    (hleft : (maps.scope level).left.place? left = some left')
    (hright : (maps.scope level).right.place? right = some right')
    (hstate : state.PresentedAs maps state') :
    EndAlike (LeadsPresented maps)
      (exec (nodeStep options (compareNested options levels) level left right via) state)
      (exec (nodeStep options (compareNested options levels) level left' right' via') state') := by
  cases hscope : state.stack.scope? level with
  | none =>
      have hscope' := hstate.stack.scope?_eq_none hscope
      simp only [nodeStep, exec_bind, exec_scopeAt, hscope, hscope']
      exact .stopped
  | some scope =>
      obtain ⟨scope', hscope', hscopes⟩ := hstate.stack.scope? hscope
      refine nodeStep_alike hscope hscope' hstate
        (hscopes.pairing.partner? hscopes.left.renamed.bijection.injective hleft) ?_
        (fun _ _ _ => recordedAlike_rejected hstate.recorded _ _ _ _) fun hunpaired hunpaired' =>
          freshStep_presented hnested hscope hscope' hscopes hunpaired hunpaired' hleft hright hstate
      intro partner partner' hpartner
      constructor
      · rintro rfl
        exact Option.some.inj (hpartner.symm.trans hright)
      · rintro rfl
        exact hscopes.right.renamed.bijection.injective _ _ _ hpartner hright

theorem step_presented (hnested : NestedPresented options levels) {next next' : Pending}
    (hnext : next.PresentedAs maps next') (hstate : state.PresentedAs maps state') :
    EndAlike (LeadsPresented maps) (exec (step options (compareNested options levels) next) state)
      (exec (step options (compareNested options levels) next') state') := by
  cases hnext with
  | values hleft hright => exact valueStep_presented hleft hright hstate
  | nodes hleft hright => exact nodeStep_presented hnested hleft hright hstate

theorem compareOutputs_presented (hnested : NestedPresented options levels)
    {lefts lefts' rights rights' : List String}
    (hlefts : List.Forall₂ (FoundAlike (maps.scope level).left.layers) lefts lefts')
    (hrights : List.Forall₂ (FoundAlike (maps.scope level).right.layers) rights rights')
    (hstate : state.PresentedAs maps state') :
    AnswerPresented maps
      (exec (compareOutputs options (compareNested options levels) level lefts rights) state)
      (exec (compareOutputs options (compareNested options levels) level lefts' rights') state') :=
  compareOutputs_alike (fun _ _ _ _ => step_presented hnested) hlefts.length_eq hrights.length_eq
    (recordedAlike_rejected hstate.recorded _ _ _ _) (pendingValues_presented hlefts hrights) hstate

/-- As many nodes are paired in any presentation. -/
theorem requireAllPaired_presented (hstate : state.PresentedAs maps state') :
    AnswerPresented maps (exec (requireAllPaired options level) state)
      (exec (requireAllPaired options level) state') := by
  rw [exec_requireAllPaired, exec_requireAllPaired]
  cases hscope : state.stack.scope? level with
  | none =>
      rw [hstate.stack.scope?_eq_none hscope]
      exact .stopped
  | some scope =>
      obtain ⟨scope', hscope', hscopes⟩ := hstate.stack.scope? hscope
      rw [hscope']
      obtain ⟨hsize, htargets⟩ := hscopes.pairing.counts hscopes.right.renamed.bijection.injective
      simp only [unpairedRule?, hsize, htargets, hscopes.left.renamed.bijection.count_eq,
        hscopes.right.renamed.bijection.count_eq]
      split
      · exact answerPresented_rejected hstate.recorded _ _ _ _
      · exact .ended (.matched hstate)

theorem compareBodies_presented (hnested : NestedPresented options levels)
    (hstate : state.PresentedAs maps state') :
    AnswerPresented maps
      (exec (compareBodies options (compareNested options levels) level) state)
      (exec (compareBodies options (compareNested options levels) level) state') := by
  rw [compareBodies, exec_bind, exec_bind, exec_scopeAt, exec_scopeAt]
  cases hscope : state.stack.scope? level with
  | none =>
      rw [hstate.stack.scope?_eq_none hscope]
      exact .stopped
  | some scope =>
      obtain ⟨scope', hscope', hscopes⟩ := hstate.stack.scope? hscope
      rw [hscope']
      simp only [hscopes.left.renamed.outputs, hscopes.right.renamed.outputs]
      refine (compareOutputs_presented hnested (hscopes.left.foundAlike fun name => Or.inl)
        (hscopes.right.foundAlike fun name => Or.inl) hstate).andThen fun inner inner' hinner => ?_
      cases options.pairAllNodes with
      | false => exact .ended (.matched hinner)
      | true => exact requireAllPaired_presented hinner

variable (options levels) in
/-- However many graphs may be inside each other, they have the same answer in any presentation. -/
theorem nestedPresented : NestedPresented options levels := by
  induction levels with
  | zero =>
      intro maps level left left' right right' state state' hstate hlevel hleft hright
      rw [compareNested, compareNested]
      exact underHeaders_alike (rejections_alike
        (headerDifference?_presented hleft.rearranged hright.rearranged) hstate.recorded [] [])
        fun _ => .stopped
  | succ levels ih =>
      intro maps level left left' right right' state state' hstate hlevel hleft hright
      obtain ⟨scope, hscope⟩ := exists_scope? (hstate.stack.depth_eq ▸ hlevel)
      obtain ⟨scope', hscope', hscopes⟩ := hstate.stack.scope? hscope
      obtain ⟨innerLeft, hinnerLeft⟩ := hscopes.left.exists_inner hleft
      obtain ⟨innerRight, hinnerRight⟩ := hscopes.right.exists_inner hright
      rw [compareNested, compareNested]
      refine underHeaders_alike (rejections_alike
        (headerDifference?_presented hleft.rearranged hright.rearranged) hstate.recorded [] [])
        fun _ => ?_
      have hentered : (state.entered level left.body right.body).PresentedAs
          (maps.push ⟨innerLeft, innerRight⟩) (state'.entered level left'.body right'.body) :=
        ⟨hstate.stack.push hlevel hinnerLeft hinnerRight, hstate.recorded⟩
      have hdepth : state'.stack.depth = state.stack.depth := by
        rw [hstate.stack.depth_eq, hstate.stack.depth_eq']
      have hinner : AnswerPresented (maps.push ⟨innerLeft, innerRight⟩)
          (exec (compareBodies options (compareNested options levels) state.stack.depth)
            (state.entered level left.body right.body))
          (exec (compareBodies options (compareNested options levels) state'.stack.depth)
            (state'.entered level left'.body right'.body)) := by
        rw [hdepth]
        exact compareBodies_presented ih hentered
      exact hinner.inScope (fun _ _ hdiffer => hdiffer)
        fun final final' hfinal => ⟨hfinal.stack.pop (Nat.zero_lt_of_lt hlevel), hfinal.recorded⟩

end Steps

end CompareM

end OpGraph
