import OpGraph.Proofs.Descent.Lockstep
import OpGraph.Proofs.Descent.ReachedNodes
import OpGraph.Proofs.Matching.Padding

/-!
Nodes that nothing refers to are invisible to the comparison of graphs, unless it requires that all
nodes are paired. The comparison of graphs with such nodes and that of the graphs without them go on
in lockstep: they do the same steps in the same order, and none of them comes by a further node. This
is so for all graphs, be they well-formed or not.
-/

namespace OpGraph

open CompareM

section Plans

variable {added : List String}

/-- A value with further nodes in its graphs is the same but for these graphs. -/
theorem ValuePadded.alike {value value' : AttributeValue} (hvalue : ValuePadded added value value')
    (hunwritten : ∀ graph ∈ value.subgraphs, ∀ name ∈ added, ¬ graph.body.Writes name) :
    value.Alike (Graph.PaddedBy added) value' := by
  cases hvalue with
  | same =>
      cases value with
      | graph graph => exact .graph ⟨.refl graph, hunwritten graph List.mem_cons_self⟩
      | graphs graphs =>
          exact .graphs (List.forall₂_same.mpr fun graph hgraph =>
            ⟨.refl graph, hunwritten graph hgraph⟩)
      | _ => exact .plain nofun nofun
  | graph hgraph => exact .graph ⟨hgraph, hunwritten _ List.mem_cons_self⟩
  | graphs hlength hgraphs =>
      refine .graphs (forall₂_iff_getElem?.mpr ⟨hlength, fun place left right hleft hright => ?_⟩)
      exact ⟨hgraphs place left right hleft hright, hunwritten left (List.mem_of_getElem? hleft)⟩

theorem Body.PaddedBy.attributes_alike {body body' : Body} (hbody : body.PaddedBy added body')
    {node node' : Node} (hnode : node ∈ body.nodes) (hpadded : NodePadded added node node') :
    List.Forall₂ (Attribute.Alike (Graph.PaddedBy added)) node.attributes node'.attributes := by
  obtain ⟨hlength, hattributes⟩ := forall₂_iff_getElem?.mp (nodePadded_iff.mp hpadded).2
  refine forall₂_iff_getElem?.mpr ⟨hlength, fun place attr attr' hattr hattr' => ?_⟩
  obtain ⟨hname, hvalue⟩ := hattributes place attr attr' hattr hattr'
  refine ⟨hname, hvalue.alike fun graph hgraph name hadded hwrites => ?_⟩
  exact hbody.unwritten name hadded
    (hwrites.of_carries hnode ⟨attr, List.mem_of_getElem? hattr, hgraph⟩)

end Plans

/-- The same scope with further nodes in its bodies. -/
structure Scope.PaddedBy (added added' : List String) (scope scope' : Scope) : Prop where
  parent : scope.parent = scope'.parent
  pairing : scope.pairing = scope'.pairing
  left : scope.left.PaddedBy added scope'.left
  right : scope.right.PaddedBy added' scope'.right

/-- The same scopes with further nodes. -/
def ScopeStack.PaddedBy (added added' : List String) (stack stack' : ScopeStack) : Prop :=
  List.Forall₂ (Scope.PaddedBy added added') stack.scopes stack'.scopes

/-- Two states after a start are the same but for the further nodes. -/
structure CompareState.PaddedBy (added added' : List String) (start : ScopeStack)
    (state state' : CompareState) : Prop where
  grown : start.Extends state.stack
  stack : state.stack.PaddedBy added added' state'.stack
  difference : state.difference = state'.difference

/-- Names that are looked up are none of the added ones, and nodes that are compared are not among
the further ones. -/
inductive Pending.Known (added added' : List String) (start : ScopeStack) : Pending → Prop where
  | values {level : Nat} {left right : String} {via : List UseStep} : left ∉ added →
      right ∉ added' → Known added added' start (.values level left right via)
  | nodes {level left right : Nat} {via : List UseStep} {scope : Scope} {node other : Node} :
      start.scope? level = some scope → scope.left.nodes[left]? = some node →
      scope.right.nodes[right]? = some other → Known added added' start (.nodes level left right via)

section Stacks

variable {added added' : List String} {stack stack' : ScopeStack} {level : Nat}

theorem Scope.PaddedBy.lookup {scope scope' : Scope} (hscope : scope.PaddedBy added added' scope')
    {left right : String} (hleft : left ∉ added) (hright : right ∉ added') :
    scope'.lookup left right = scope.lookup left right := by
  rw [Scope.lookup, Scope.lookup, hscope.left.origin? hleft, hscope.right.origin? hright,
    hscope.parent]

namespace ScopeStack.PaddedBy

theorem depth_eq (hstack : stack.PaddedBy added added' stack') : stack.depth = stack'.depth :=
  List.Forall₂.length_eq hstack

theorem scope? (hstack : stack.PaddedBy added added' stack') {scope : Scope}
    (hscope : stack.scope? level = some scope) :
    ∃ scope', stack'.scope? level = some scope' ∧ scope.PaddedBy added added' scope' := by
  obtain ⟨hlength, hscopes⟩ := forall₂_iff_getElem?.mp hstack
  obtain ⟨scope', hscope'⟩ := exists_getElem?_of_length_eq hlength hscope
  exact ⟨scope', hscope', hscopes level scope scope' hscope hscope'⟩

theorem scope?_eq_none (hstack : stack.PaddedBy added added' stack')
    (hscope : stack.scope? level = none) : stack'.scope? level = none := by
  rw [ScopeStack.scope?, List.getElem?_eq_none_iff] at hscope ⊢
  exact le_of_eq_of_le (Eq.symm hstack.depth_eq) hscope

/-- The further nodes have no partners, and the others have those that they had. -/
theorem partner?_eq (hstack : stack.PaddedBy added added' stack') (index : Nat) :
    stack'.partner? level index = stack.partner? level index := by
  rw [ScopeStack.partner?, ScopeStack.partner?]
  cases hscope : stack.scope? level with
  | none => rw [hstack.scope?_eq_none hscope]
  | some scope =>
      obtain ⟨scope', hscope', hscopes⟩ := hstack.scope? hscope
      rw [hscope', Option.bind_some, Option.bind_some, hscopes.pairing]

/-- Names that are not added are found where they were. -/
theorem lookupOutward? (hstack : stack.PaddedBy added added' stack') {left right : String}
    (hleft : left ∉ added) (hright : right ∉ added') (moves level : Nat) :
    stack'.lookupOutward? left right moves level = stack.lookupOutward? left right moves level := by
  refine lookupOutward?_congr (fun level => ?_) moves level
  cases hscope : stack.scope? level with
  | none => rw [lookup?, lookup?, hscope, hstack.scope?_eq_none hscope]
  | some scope =>
      obtain ⟨scope', hscope', hscopes⟩ := hstack.scope? hscope
      rw [lookup?, lookup?, hscope, hscope', Option.map_some, Option.map_some,
        hscopes.lookup hleft hright]

theorem pair (hstack : stack.PaddedBy added added' stack') (left right : Nat) :
    (stack.pair level left right).PaddedBy added added' (stack'.pair level left right) := by
  rw [ScopeStack.PaddedBy, scopes_pair, scopes_pair]
  obtain ⟨hlength, hscopes⟩ := forall₂_iff_getElem?.mp hstack
  refine forall₂_iff_getElem?.mpr ⟨by simpa using hlength, fun other scope scope' hscope hscope' => ?_⟩
  rw [List.getElem?_modify, Option.map_eq_map, Option.map_eq_some_iff] at hscope hscope'
  obtain ⟨before, hbefore, rfl⟩ := hscope
  obtain ⟨before', hbefore', rfl⟩ := hscope'
  have hpadded := hscopes other before before' hbefore hbefore'
  split
  · exact { hpadded with pairing := by rw [hpadded.pairing] }
  · exact hpadded

theorem push (hstack : stack.PaddedBy added added' stack') {left left' right right' : Body}
    (hleft : left.PaddedBy added left') (hright : right.PaddedBy added' right') (parent : Nat) :
    (stack.push parent left right).PaddedBy added added' (stack'.push parent left' right') := by
  rw [ScopeStack.PaddedBy, scopes_push, scopes_push]
  exact List.rel_append hstack (.cons ⟨rfl, rfl, hleft, hright⟩ .nil)

theorem root (hstack : stack.PaddedBy added added' stack') :
    stack.root.PaddedBy added added' stack'.root := by
  cases hstack
  assumption

theorem pop (hstack : stack.PaddedBy added added' stack') :
    stack.pop.PaddedBy added added' stack'.pop := by
  cases hstack with
  | cons hroot hnested =>
      refine .cons hroot ?_
      rw [ScopeStack.pop, ScopeStack.pop, List.dropLast_eq_take, List.dropLast_eq_take,
        hnested.length_eq]
      exact List.forall₂_take _ hnested

end ScopeStack.PaddedBy

end Stacks

namespace CompareM

open ScopeStack

/-- The same difference is recorded in both states. -/
def RecordedSame (state state' : CompareState) : Prop := state.difference = state'.difference

/-- Both comparisons give the same answer, with the same difference recorded. -/
abbrev AnswerPadded (added added' : List String) (start : ScopeStack) :
    Outcome Bool × CompareState → Outcome Bool × CompareState → Prop :=
  EndAlike (Answers RecordedSame (CompareState.PaddedBy added added' start))

/-- The same known comparison is pending in both. -/
def SameKnown (added added' : List String) (start : ScopeStack) (next next' : Pending) : Prop :=
  next = next' ∧ next.Known added added' start

/-- Both steps fail, or they lead to the same comparisons. -/
abbrev LeadsPadded (added added' : List String) (start : ScopeStack) :
    Option (List Pending) → CompareState → Option (List Pending) → CompareState → Prop :=
  Leads (SameKnown added added' start) RecordedSame (CompareState.PaddedBy added added' start)

/-- Graphs in attributes, with so many inside each other, have the same answer with further nodes. -/
def NestedPadded (options : CompareOptions) (levels : Nat) : Prop :=
  ∀ ⦃added added' : List String⦄ ⦃start : ScopeStack⦄ ⦃level : Nat⦄ ⦃left left' right right' : Graph⦄
    ⦃state state' : CompareState⦄, state.PaddedBy added added' start state' →
    left.PaddedBy added left' → right.PaddedBy added' right' →
    AnswerPadded added added' start (exec (compareNested options levels level left right) state)
      (exec (compareNested options levels level left' right') state')

section Steps

variable {options : CompareOptions} {added added' : List String} {start : ScopeStack}
  {levels level : Nat} {state state' : CompareState} {via : List UseStep}

theorem forall₂_sameKnown {pending : List Pending}
    (hknown : ∀ next ∈ pending, next.Known added added' start) :
    List.Forall₂ (SameKnown added added' start) pending pending :=
  List.forall₂_same.mpr fun next hnext => ⟨rfl, hknown next hnext⟩

theorem known_of_pendingValues {lefts rights : List String} (hlefts : ∀ name ∈ lefts, name ∉ added)
    (hrights : ∀ name ∈ rights, name ∉ added') :
    ∀ next ∈ pendingValues level lefts rights via, next.Known added added' start := by
  intro next hnext
  obtain ⟨left, hleft, right, hright, rfl⟩ := mem_pendingValues hnext
  exact .values (hlefts left hleft) (hrights right hright)

/-- A lookup leads to nodes that are there. -/
theorem known_of_lookup {found : Nat} {left right : String} {lookup : Lookup}
    (hgrown : start.Extends state.stack)
    (hlookup : state.stack.lookupOutward? left right level level = some (found, lookup)) :
    ∀ next ∈ lookupPending found via lookup, next.Known added added' start := by
  intro next hnext
  unfold lookupPending at hnext
  split at hnext
  · obtain rfl := List.mem_singleton.mp hnext
    obtain ⟨scope', hscope', horigin, horigin'⟩ := exists_scope_of_lookup hlookup
    obtain ⟨scope, hscope, hscopes⟩ := hgrown.scope?_back hscope'
    rw [hscopes.left] at horigin
    rw [hscopes.right] at horigin'
    obtain ⟨node, hnode⟩ := (Body.defines_of_origin?_eq_output horigin).exists_node
    obtain ⟨other, hother⟩ := (Body.defines_of_origin?_eq_output horigin').exists_node
    exact .nodes hscope hnode hother
  · cases hnext

theorem rejections_same {rule? rule?' : Option FailedRule} (hrules : rule? = rule?')
    (hrecorded : RecordedSame state state') (path : List UseStep) :
    Option.Rel (fun rule rule' =>
      RecordedSame (state.rejected options rule path) (state'.rejected options rule' path))
      rule? rule?' := by
  subst hrules
  cases rule? with
  | none => exact .none
  | some rule => exact .some (CompareState.difference_rejected hrecorded options rule path)

theorem valueStep_padded {left right : String} (hleft : left ∉ added) (hright : right ∉ added')
    (hstate : state.PaddedBy added added' start state') :
    EndAlike (LeadsPadded added added' start)
      (exec (valueStep options level left right via) state)
      (exec (valueStep options level left right via) state') := by
  rw [exec_valueStep, exec_valueStep, hstate.stack.lookupOutward? hleft hright]
  rcases hlookup : state.stack.lookupOutward? left right level level with _ | ⟨found, lookup⟩
  · exact .stopped
  · simp only
    cases lookupRule? left right lookup with
    | some rule =>
        exact .ended (.failed (CompareState.difference_rejected hstate.difference options rule via))
    | none => exact .ended (.led (forall₂_sameKnown (known_of_lookup hstate.grown hlookup)) hstate)

/-- Two nodes that are not paired have the same answer as regards all but their inputs. -/
theorem headsMatch_padded (hnested : NestedPadded options levels) {left left' right right' : Node}
    (hleft : NodePadded added left left') (hright : NodePadded added' right right')
    (hlefts : List.Forall₂ (Attribute.Alike (Graph.PaddedBy added)) left.attributes
      left'.attributes)
    (hrights : List.Forall₂ (Attribute.Alike (Graph.PaddedBy added')) right.attributes
      right'.attributes)
    (hstate : state.PaddedBy added added' start state') :
    AnswerPadded added added' start
      (exec (headsMatch options (compareNested options levels) level left right via) state)
      (exec (headsMatch options (compareNested options levels) level left' right' via) state') := by
  obtain ⟨hcalls, hdifference⟩ := attributePlan_alike hlefts hrights
  have hrule : nodeRule? left right = nodeRule? left' right' := by
    rw [hleft.rest, hright.rest]
    rfl
  refine headsMatch_alike (rejections_same hrule hstate.difference via) ?_ hcalls ?_ hstate
  · rintro call call' ⟨hname, hindex, hgraph, hgraph'⟩
    refine ⟨fun inner inner' hinner => hnested hinner hgraph hgraph', fun final final' hfinal => ?_⟩
    rw [hname, hindex]
    exact CompareState.difference_extended hfinal _
  · rw [← hdifference]
    cases (attributePlan left.attributes right.attributes).difference? with
    | none => exact .none
    | some difference =>
        exact .some fun final final' hfinal =>
          CompareState.difference_rejected hfinal.difference options _ via

/-- The step of two nodes that are not paired is the same with further nodes. -/
theorem freshStep_padded (hnested : NestedPadded options levels) {left right : Nat}
    {scope scope' : Scope} {node other : Node}
    (hfresh : FreshNodes state.stack level left right scope node other)
    (hscope' : state'.stack.scope? level = some scope')
    (hpadded : scope.PaddedBy added added' scope')
    (hstate : state.PaddedBy added added' start state') :
    EndAlike (LeadsPadded added added' start)
      (exec (nodeStep options (compareNested options levels) level left right via) state)
      (exec (nodeStep options (compareNested options levels) level left right via) state') := by
  obtain ⟨hscope, hunpaired, hnode, hother⟩ := hfresh
  have hmem := List.mem_of_getElem? hnode
  have hmem' := List.mem_of_getElem? hother
  obtain ⟨node', hnode', hnodes⟩ := hpadded.left.exists_node hnode
  obtain ⟨other', hother', hothers⟩ := hpadded.right.exists_node hother
  have htype : node'.opType = node.opType := by rw [hnodes.rest]
  refine freshStep_alike ⟨hscope, hunpaired, hnode, hother⟩
    ⟨hscope', hpadded.pairing ▸ hunpaired, hnode', hother'⟩ ?_ ?_ ?_ ?_ ?_ ?_ ?_
  · rw [htype]
    exact headsMatch_padded hnested hnodes hothers (hpadded.left.attributes_alike hmem hnodes)
      (hpadded.right.attributes_alike hmem' hothers) hstate
  · rw [hnodes.inputs]
  · rw [hothers.inputs]
  · intro inner inner' hinner
    rw [htype, ← hnodes.inputs, ← hothers.inputs]
    exact CompareState.difference_rejected hinner.difference options _ _
  · intro inner inner' hinner
    rw [hinner.stack.partner?_eq]
  · intro inner inner' hinner
    exact ⟨hinner.grown.trans (extends_pair _ _ _ _), hinner.stack.pair left right,
      hinner.difference⟩
  · rw [htype, ← hnodes.inputs, ← hothers.inputs]
    exact forall₂_sameKnown (known_of_pendingValues
      (fun _ => hpadded.left.notMem_of_mem_inputs hmem)
      (fun _ => hpadded.right.notMem_of_mem_inputs hmem'))

theorem nodeStep_padded (hnested : NestedPadded options levels) {left right : Nat} {scope : Scope}
    {node other : Node} (hscope : start.scope? level = some scope)
    (hnode : scope.left.nodes[left]? = some node) (hother : scope.right.nodes[right]? = some other)
    (hstate : state.PaddedBy added added' start state') :
    EndAlike (LeadsPadded added added' start)
      (exec (nodeStep options (compareNested options levels) level left right via) state)
      (exec (nodeStep options (compareNested options levels) level left right via) state') := by
  obtain ⟨inner, hinner, hextends⟩ := hstate.grown.scope? hscope
  obtain ⟨inner', hinner', hpadded⟩ := hstate.stack.scope? hinner
  rw [← hextends.left] at hnode
  rw [← hextends.right] at hother
  have hpartner : Option.Rel Eq (inner.pairing.partner? left) (inner'.pairing.partner? left) := by
    rw [hpadded.pairing]
    cases inner'.pairing.partner? left with
    | none => exact .none
    | some partner => exact .some rfl
  refine nodeStep_alike hinner hinner' hstate hpartner ?_ ?_ fun hunpaired _ => ?_
  · rintro partner _ rfl
    exact Iff.rfl
  · rintro partner _ rfl
    exact CompareState.difference_rejected hstate.difference options _ via
  · exact freshStep_padded hnested ⟨hinner, hunpaired, hnode, hother⟩ hinner' hpadded hstate

theorem step_padded (hnested : NestedPadded options levels) {next next' : Pending}
    (hnext : SameKnown added added' start next next')
    (hstate : state.PaddedBy added added' start state') :
    EndAlike (LeadsPadded added added' start)
      (exec (step options (compareNested options levels) next) state)
      (exec (step options (compareNested options levels) next') state') := by
  obtain ⟨rfl, hknown⟩ := hnext
  cases hknown with
  | values hleft hright => exact valueStep_padded hleft hright hstate
  | nodes hscope hnode hother => exact nodeStep_padded hnested hscope hnode hother hstate

/-- The bodies at a level have the same answer with further nodes, unless all nodes have to be paired.
-/
theorem compareBodies_padded (hall : options.pairAllNodes = false)
    (hnested : NestedPadded options levels) (hstate : state.PaddedBy added added' start state') :
    AnswerPadded added added' start
      (exec (compareBodies options (compareNested options levels) level) state)
      (exec (compareBodies options (compareNested options levels) level) state') := by
  rw [compareBodies, exec_bind, exec_bind, exec_scopeAt, exec_scopeAt]
  cases hscope : state.stack.scope? level with
  | none =>
      rw [hstate.stack.scope?_eq_none hscope]
      exact .stopped
  | some scope =>
      obtain ⟨scope', hscope', hpadded⟩ := hstate.stack.scope? hscope
      rw [hscope']
      simp only [hall, Bool.false_eq_true, if_false, ← hpadded.left.outputs,
        ← hpadded.right.outputs]
      refine EndAlike.andThen (compareOutputs_alike (fun _ _ _ _ => step_padded hnested) rfl rfl ?_ ?_
        hstate) fun inner inner' hinner => .ended (.matched hinner)
      · exact CompareState.difference_rejected hstate.difference options _ _
      · exact forall₂_sameKnown (known_of_pendingValues
          (fun _ => hpadded.left.notMem_of_mem_outputs)
          (fun _ => hpadded.right.notMem_of_mem_outputs))

theorem headerDifference?_padded {left left' right right' : Graph} (hleft : left.PaddedBy added left')
    (hright : right.PaddedBy added' right') :
    headerDifference? left right = headerDifference? left' right' := by
  obtain ⟨_, _, hrest, _⟩ := graphPadded_iff.mp hleft.padded
  obtain ⟨_, _, hrest', _⟩ := graphPadded_iff.mp hright.padded
  rw [hrest, hrest']
  rfl

variable (levels) in
/-- However many graphs may be inside each other, they have the same answer with further nodes. -/
theorem nestedPadded (hall : options.pairAllNodes = false) : NestedPadded options levels := by
  induction levels with
  | zero =>
      intro added added' start level left left' right right' state state' hstate hleft hright
      rw [compareNested, compareNested]
      exact underHeaders_alike (rejections_same (headerDifference?_padded hleft hright)
        hstate.difference []) fun _ => .stopped
  | succ levels ih =>
      intro added added' start level left left' right right' state state' hstate hleft hright
      rw [compareNested, compareNested]
      refine underHeaders_alike (rejections_same (headerDifference?_padded hleft hright)
        hstate.difference []) fun _ => ?_
      have hentered : (state.entered level left.body right.body).PaddedBy added added'
          (state.entered level left.body right.body).stack
          (state'.entered level left'.body right'.body) :=
        ⟨.refl _, hstate.stack.push hleft.body hright.body level, hstate.difference⟩
      have hinner : AnswerPadded added added' (state.entered level left.body right.body).stack
          (exec (compareBodies options (compareNested options levels) state.stack.depth)
            (state.entered level left.body right.body))
          (exec (compareBodies options (compareNested options levels) state'.stack.depth)
            (state'.entered level left'.body right'.body)) := by
        rw [← hstate.stack.depth_eq]
        exact compareBodies_padded hall ih hentered
      exact hinner.inScope (fun _ _ hdiffer => hdiffer) fun final final' hfinal =>
        ⟨hstate.grown.trans hfinal.grown.pop, hfinal.stack.pop, hfinal.difference⟩

/-- Comparisons that have the same answer have the same outcome. -/
theorem verdict_eq_of_answerPadded {left left' right right' : Body} {compare compare' : CompareM Bool}
    (hanswer : AnswerPadded added added' (CompareState.initial left right).stack
      (exec compare (.initial left right)) (exec compare' (.initial left' right'))) :
    CompareM.verdict left' right' compare' = CompareM.verdict left right compare := by
  rw [verdict_eq, verdict_eq]
  generalize exec compare (.initial left right) = ends at hanswer
  generalize exec compare' (.initial left' right') = ends' at hanswer
  cases hanswer with
  | stopped => rfl
  | @ended _ _ final final' hanswers =>
      cases hanswers with
      | differed hrecorded =>
          have hdifference : final.difference = final'.difference := hrecorded
          simp only [Except.map, CompareState.verdict, hdifference, Bool.false_eq_true, if_false]
      | matched hfinal =>
          simp only [Except.map, CompareState.verdict, hfinal.stack.root.pairing, if_true]

end Steps

end CompareM

/-- Unless all nodes have to be paired or the operands have to be well-formed, further nodes in them,
at any depth, whose outputs are written nowhere else, make no difference to the comparison of graphs:
it ends with the same error, the same pairs or the same recorded difference. -/
theorem Graph.compare_eq_of_paddedBy {options : CompareOptions} {added added' : List String}
    {left left' right right' : Graph} (hall : options.pairAllNodes = false)
    (hrequired : options.requireWellFormed = false) (hleft : left.PaddedBy added left')
    (hright : right.PaddedBy added' right') :
    left'.compare options right' = left.compare options right := by
  have hinitial : (CompareState.initial left.body right.body).PaddedBy added added'
      (CompareState.initial left.body right.body).stack (.initial left'.body right'.body) :=
    ⟨.refl _, .cons ⟨rfl, rfl, hleft.body, hright.body⟩ .nil, rfl⟩
  have hanswer : AnswerPadded added added' (CompareState.initial left.body right.body).stack
      (exec (compareRootGraphs options left right) (.initial left.body right.body))
      (exec (compareRootGraphs options left' right') (.initial left'.body right'.body)) := by
    rw [compareRootGraphs, compareRootGraphs]
    exact underHeaders_alike
      (rejections_same (headerDifference?_padded hleft hright) hinitial.difference [])
      fun _ => compareBodies_padded hall (nestedPadded options.depthLimit hall) hinitial
  rw [Graph.compare, Graph.compare, CompareOptions.checkOperands_of_not_required hrequired,
    CompareOptions.checkOperands_of_not_required hrequired, verdict_eq_of_answerPadded hanswer]

/-- The graph with an idle capture, with a node in the nested graph that uses a name that is not
defined, and with a node that uses itself. -/
def Graph.idleCapturePadded : Graph where
  nodes := [
    { opType := "Relu", inputs := ["x"], outputs := ["a"] },
    { opType := "If", inputs := ["x"], outputs := ["y"]
      attributes := [⟨"then_branch", .graph
        { nodes := [
            { opType := "Neg", inputs := ["a"], outputs := ["n"] },
            { opType := "Add", inputs := ["x", "x"], outputs := ["t"] },
            { opType := "Exp", inputs := ["lost"], outputs := ["e", ""] }]
          outputs := ["t"] }⟩] },
    { opType := "If", inputs := ["d"], outputs := ["d"]
      attributes := [⟨"then_branch", .graph { outputs := ["y"] }⟩] }]
  inputs := ["x"]
  outputs := ["y"]

theorem Graph.idleCapture_paddedBy : Graph.idleCapture.PaddedBy ["d", "e"] Graph.idleCapturePadded := by
  constructor
  · refine graphPadded_iff.mpr ⟨_, [_], rfl, .cons (.refl _) (.cons ?_ .nil), by simp⟩
    refine nodePadded_iff.mpr ⟨rfl, .cons (.intro rfl (.graph ?_)) .nil⟩
    exact .of_append _ (by simp)
  · rintro name hname ⟨scope, hscope, hwritten⟩
    have hnone : ∀ name ∈ ["d", "e"], ∀ scope ∈ Graph.idleCapture.body.scopes,
        name ∉ scope.written := by decide
    exact hnone name hname scope hscope.mem_scopes hwritten

/-- The graph with an idle capture is found equivalent with the further nodes as it is without them.
-/
theorem Graph.compare_eq_of_paddedBy_idleCapture :
    Graph.idleCapturePadded.compare {} Graph.idleCapture =
      .ok (.equivalent ⟨[(1, 1)], by decide⟩) :=
  (Graph.compare_eq_of_paddedBy rfl rfl Graph.idleCapture_paddedBy
    Graph.idleCapture.paddedBy_self).trans rfl

end OpGraph
