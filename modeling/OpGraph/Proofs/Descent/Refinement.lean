import OpGraph.Proofs.Descent.Ahead
import OpGraph.Proofs.Descent.Lockstep
import OpGraph.Proofs.Descent.Recursion
import OpGraph.Proofs.Descent.Settling

/-!
The comparison by pending comparisons gives what the comparison by recursion gives. Both go through
the same values and nodes in the same order; only that the first one pairs two nodes before their
inputs are compared, and the second one afterwards. This is never noticed, because a node that is
under way is not met again: what its inputs and graphs lead to, by a recursion that is less high.
-/

namespace OpGraph

namespace CompareM

open ScopeStack

variable {options : CompareOptions}

/-- The same comparison of nodes that are not paired, with their operations, domains and attributes
taken together. -/
theorem sameNodes_eq (calls levels level left right : Nat) (via : List UseStep) :
    sameNodes options (calls + 1) levels level left right via = (do
      let scope ← scopeAt level
      match scope.pairing.partner? left with
      | some partner =>
          if partner = right then return true
          else
            reject options (.mappingConflict left partner right) via
            return false
      | none =>
          let leftNode ← nodeAt level scope.left left
          let rightNode ← nodeAt level scope.right right
          let via := .nodes level left right leftNode.opType :: via
          if ← headsMatch options (sameGraphs options (sameNodes options calls) levels) level
              leftNode rightNode via then
            if ← sameValues options (sameNodes options calls levels) level leftNode.inputs
                rightNode.inputs via then
              pair level left right
              return true
            else return false
          else return false) := by
  rw [sameNodes]
  unfold headsMatch
  refine bind_congr fun scope => ?_
  cases scope.pairing.partner? left with
  | some partner => rfl
  | none =>
      refine bind_congr fun leftNode => bind_congr fun rightNode => ?_
      by_cases htype : leftNode.opType = rightNode.opType
      · by_cases hdomain : leftNode.domain = rightNode.domain
        · simp only [htype, hdomain, ne_eq, not_true_eq_false, if_false, bind_assoc]
          refine bind_congr fun difference? => ?_
          rcases difference? with _ | difference
          · simp
          · cases difference <;> simp
        · simp [htype, hdomain]
      · simp [htype]

theorem exec_sameValue (nodes : NodeComparison) (level : Nat) (left right : String)
    (via : List UseStep) (state : CompareState) :
    exec (sameValue options nodes level left right via) state =
      match state.stack.lookupOutward? left right level level with
      | none => (.error (.fault (.noScope level)), state)
      | some (found, lookup) =>
          match lookupRule? left right lookup, lookup with
          | some rule, _ => (.ok false, state.rejected options rule via)
          | none, .here (.output leftNode _) (.output rightNode _) =>
              exec (nodes found leftNode rightNode via) state
          | none, _ => (.ok true, state) := by
  simp only [sameValue, exec_bind, exec_get]
  rcases state.stack.lookupOutward? left right level level with _ | ⟨found, lookup⟩
  · rfl
  · cases lookup with
    | here leftOrigin rightOrigin =>
        by_cases hslot : leftOrigin.slot = rightOrigin.slot
        · simp only [lookupRule?, hslot, ne_eq, not_true_eq_false, if_false]
          cases leftOrigin <;> cases rightOrigin <;> rfl
        · simp only [lookupRule?, hslot, ne_eq, not_false_eq_true, if_true]
          rfl
    | outward parent => rfl
    | oneSided => rfl
    | nowhere => rfl

/-- A node that has a partner is the same as this partner only. -/
theorem exec_sameNodes_partner {calls levels level left right partner : Nat} {via : List UseStep}
    {state : CompareState} {scope : Scope} (hscope : state.stack.scope? level = some scope)
    (hpartner : scope.pairing.partner? left = some partner) :
    exec (sameNodes options (calls + 1) levels level left right via) state =
      if partner = right then (.ok true, state)
      else (.ok false, state.rejected options (.mappingConflict left partner right) via) := by
  rw [sameNodes_eq, exec_bind, exec_scopeAt, hscope]
  simp only [hpartner]
  by_cases hright : partner = right
  · simp only [if_pos hright, exec_pure]
  · simp only [if_neg hright]
    rfl

theorem exec_sameNodes_fresh {calls levels level left right : Nat} {via : List UseStep}
    {state : CompareState} {scope : Scope} {leftNode rightNode : Node}
    (hfresh : FreshNodes state.stack level left right scope leftNode rightNode) :
    exec (sameNodes options (calls + 1) levels level left right via) state = exec (do
      let via := .nodes level left right leftNode.opType :: via
      if ← headsMatch options (sameGraphs options (sameNodes options calls) levels) level
          leftNode rightNode via then
        if ← sameValues options (sameNodes options calls levels) level leftNode.inputs
            rightNode.inputs via then
          pair level left right
          return true
        else return false
      else return false) state := by
  rw [sameNodes_eq, exec_bind, exec_scopeAt, hfresh.scope_eq]
  simp only [hfresh.unpaired, exec_bind, exec_nodeAt, hfresh.left_eq, hfresh.right_eq]

/-- The recorded differences are the same. -/
def SameDifference (state state' : CompareState) : Prop := state.difference = state'.difference

/-- Both comparisons give the same answer. If it is that the operands differ, so is the difference;
if not, the first state is ahead of the second one, as it was before. -/
abbrev AnswerAhead (base : ScopeStack) (underway : Underway) :
    Outcome Bool × CompareState → Outcome Bool × CompareState → Prop :=
  EndAlike (Answers SameDifference (CompareState.Ahead base underway))

/-- Values from which the recursion is at most so high have the same answer, while the recursion
from every node under way is at least so high. -/
def ValuesRefined (options : CompareOptions) (height : Nat) : Prop :=
  ∀ ⦃calls levels level : Nat⦄ ⦃left right : String⦄ ⦃via : List UseStep⦄ ⦃leftRoot rightRoot : Body⦄
    ⦃base : ScopeStack⦄ ⦃underway : Underway⦄ ⦃state state' : CompareState⦄,
    height ≤ calls → base.Proper leftRoot rightRoot → underway.Above base height →
    EndsWithin height (base.leftBodies level) left → state.Ahead base underway state' →
    AnswerAhead base underway (exec (settle options levels [.values level left right via]) state)
      (exec (sameValue options (sameNodes options calls levels) level left right via) state')

section Refinement

variable {height calls levels level : Nat} {via : List UseStep} {leftRoot rightRoot : Body}
  {base : ScopeStack} {underway : Underway} {state state' : CompareState}

/-- The answer that operands differ by a rule is the same. -/
theorem answerAhead_of_rejected (hdifference : SameDifference state state') (rule : FailedRule)
    (path : List UseStep) :
    AnswerAhead base underway (.ok false, state.rejected options rule path)
      (.ok false, state'.rejected options rule path) :=
  .ended (.differed (CompareState.difference_rejected hdifference options rule path))

theorem inOrder_refined (hvalues : ValuesRefined options height) (hcalls : height ≤ calls)
    (hproper : base.Proper leftRoot rightRoot) (habove : underway.Above base height)
    {lefts rights : List String} (hlength : lefts.length = rights.length)
    (hends : ∀ used ∈ lefts, EndsWithin height (base.leftBodies level) used)
    (hahead : state.Ahead base underway state') :
    AnswerAhead base underway
      (exec (settle options levels (pendingValues level lefts rights via)) state)
      (exec (sameInOrder options (sameNodes options calls levels) level via lefts rights)
        state') := by
  induction lefts generalizing rights state state' with
  | nil =>
      obtain rfl : rights = [] := List.length_eq_zero_iff.mp hlength.symm
      have hpending : pendingValues level [] [] via = [] := rfl
      rw [hpending, exec_settle_nil]
      exact .ended (.matched hahead)
  | cons left lefts ih =>
      cases rights with
      | nil => cases hlength
      | cons right rights =>
          have hpending : pendingValues level (left :: lefts) (right :: rights) via =
            [.values level left right via] ++ pendingValues level lefts rights via := rfl
          rw [hpending, exec_settle_append, sameInOrder]
          refine (hvalues hcalls hproper habove (hends left List.mem_cons_self) hahead).andThen
            fun inner inner' hinner => ?_
          exact ih (Nat.succ.inj hlength)
            (fun used hused => hends used (List.mem_cons_of_mem _ hused)) hinner

theorem outputs_refined (hvalues : ValuesRefined options height) (hcalls : height ≤ calls)
    (hproper : base.Proper leftRoot rightRoot) (habove : underway.Above base height)
    {lefts rights : List String}
    (hends : ∀ used ∈ lefts, EndsWithin height (base.leftBodies level) used)
    (hahead : state.Ahead base underway state') :
    AnswerAhead base underway
      (exec (compareOutputs options (compareNested options levels) level lefts rights) state)
      (exec (sameValues options (sameNodes options calls levels) level lefts rights []) state') := by
  rw [exec_compareOutputs_eq, exec_bind, exec_valuesStep, sameValues]
  by_cases hlength : lefts.length = rights.length
  · simp only [if_pos hlength]
    exact inOrder_refined hvalues hcalls hproper habove hlength hends hahead
  · simp only [if_neg hlength]
    exact answerAhead_of_rejected hahead.difference _ _

/-- Whether all nodes at a level are paired, has the same answer if none of them is under way. -/
theorem allPaired_refined (hnone : ∀ index, underway level index = none)
    (hahead : state.Ahead base underway state') :
    AnswerAhead base underway (exec (requireAllPaired options level) state)
      (exec (requireAllPaired options level) state') := by
  rw [exec_requireAllPaired, exec_requireAllPaired]
  cases hscope : state.stack.scope? level with
  | none =>
      rw [scope?_eq_none_of_frames hahead.frames hscope]
      exact .stopped
  | some scope =>
      obtain ⟨scope', hscope', _, hleft, hright⟩ := scope?_of_frames hahead.frames hscope
      have hpartner : ∀ index, scope.pairing.partner? index = scope'.pairing.partner? index := by
        intro index
        rw [← partner?_of_scope? hscope, ← partner?_of_scope? hscope']
        exact (hahead.done (hnone index)).symm
      obtain ⟨hsize, htargets⟩ := Pairing.counts_of_partner? hpartner
      have hrule : unpairedRule? scope = unpairedRule? scope' := by
        rw [unpairedRule?, unpairedRule?, hleft, hright, hsize, htargets]
      rw [hscope']
      simp only [hrule]
      cases unpairedRule? scope' with
      | some rule => exact answerAhead_of_rejected hahead.difference rule []
      | none => exact .ended (.matched hahead)

theorem bodies_refined (hvalues : ValuesRefined options height) (hcalls : height ≤ calls)
    (hproper : base.Proper leftRoot rightRoot) (habove : underway.Above base height)
    {scope : Scope} (hscope : base.scope? level = some scope)
    (hnone : ∀ index, underway level index = none)
    (hends : ∀ used ∈ scope.left.outputs, EndsWithin height (base.leftBodies level) used)
    (hahead : state.Ahead base underway state') :
    AnswerAhead base underway
      (exec (compareBodies options (compareNested options levels) level) state)
      (exec (sameBodies options (sameNodes options calls levels) level) state') := by
  obtain ⟨grown, hgrown, hscopes⟩ := hahead.grown.scope? hscope
  obtain ⟨scope', hscope', _, hleft, hright⟩ := scope?_of_frames hahead.frames hgrown
  rw [compareBodies, sameBodies, exec_bind, exec_bind, exec_scopeAt, exec_scopeAt, hgrown, hscope']
  simp only [hleft, hright]
  refine (outputs_refined hvalues hcalls hproper habove (hscopes.left ▸ hends) hahead).andThen
    fun inner inner' hinner => ?_
  cases options.pairAllNodes with
  | false => exact .ended (.matched hinner)
  | true => exact allPaired_refined hnone hinner

/-- Graphs in attributes have the same answer. -/
theorem graphs_refined (hvalues : ValuesRefined options height) (hcalls : height ≤ calls)
    (hproper : base.Proper leftRoot rightRoot) (habove : underway.Above base height)
    {left right : Body} {graph graph' : Graph} (hbodies : base.HasBodies level left right)
    (hcarried : Carried left right graph graph')
    (hends : ∀ used ∈ graph.outputs, EndsWithin height (graph.body :: base.leftBodies level) used)
    (hahead : state.Ahead base underway state') :
    AnswerAhead base underway (exec (compareNested options levels level graph graph') state)
      (exec (sameGraphs options (sameNodes options calls) levels level graph graph') state') := by
  have hheader : Option.Rel (fun rule rule' =>
      SameDifference (state.rejected options rule []) (state'.rejected options rule' []))
      (headerDifference? graph graph') (headerDifference? graph graph') := by
    cases headerDifference? graph graph' with
    | none => exact .none
    | some rule => exact .some (CompareState.difference_rejected hahead.difference _ _ _)
  cases levels with
  | zero =>
      rw [compareNested, sameGraphs]
      exact underHeaders_alike hheader fun _ => .stopped
  | succ levels =>
      rw [compareNested, sameGraphs]
      refine underHeaders_alike hheader fun _ => ?_
      have hlevel := hbodies.lt_depth
      have hproper' : (base.push level graph.body graph'.body).Proper leftRoot rightRoot := by
        obtain ⟨scope, hscope, rfl, rfl⟩ := hbodies
        obtain ⟨⟨node, hnode, hcarries⟩, ⟨node', hnode', hcarries'⟩⟩ := hcarried
        exact hproper.push hlevel (.nested (hproper.left hscope) hnode hcarries)
          (.nested (hproper.right hscope) hnode' hcarries')
      obtain ⟨hdepth, hdepth'⟩ := hahead.depth_eq
      have hinner : AnswerAhead (base.push level graph.body graph'.body) underway
          (exec (compareBodies options (compareNested options levels) state.stack.depth)
            (state.entered level graph.body graph'.body))
          (exec (sameBodies options (sameNodes options calls levels) state'.stack.depth)
            (state'.entered level graph.body graph'.body)) := by
        rw [hdepth, hdepth']
        refine bodies_refined hvalues hcalls hproper' (habove.push level graph.body graph'.body)
          (scope?_push_depth base level graph.body graph'.body) habove.eq_none ?_
          (hahead.entered level graph.body graph'.body)
        rw [leftBodies_push_depth hlevel hproper']
        exact hends
      exact hinner.inScope (fun _ _ hdiffer => hdiffer)
        fun _ _ hfinal => hfinal.popped habove.lt_depth

/-- Two nodes that are not paired have the same answer as regards all but their inputs. -/
theorem heads_refined (hvalues : ValuesRefined options height) (hcalls : height ≤ calls)
    (hproper : base.Proper leftRoot rightRoot) (habove : underway.Above base height)
    {scope : Scope} {left right : Node} (hscope : base.scope? level = some scope)
    (hleft : left ∈ scope.left.nodes) (hright : right ∈ scope.right.nodes)
    (hends : left.EndsWithin height (base.leftBodies level))
    (hahead : state.Ahead base underway state') :
    AnswerAhead base underway
      (exec (headsMatch options (compareNested options levels) level left right via) state)
      (exec (headsMatch options (sameGraphs options (sameNodes options calls) levels) level left
        right via) state') := by
  let both (call call' : GraphCall) : Prop :=
    call = call' ∧ left.Carries call.left ∧ right.Carries call.right
  have hrejected : ∀ {α : Type} (rule? : Option α) (rule : α → FailedRule),
      Option.Rel (fun found found' => ∀ final final', CompareState.Ahead base underway final final' →
        SameDifference (final.rejected options (rule found) via)
          (final'.rejected options (rule found') via)) rule? rule? := by
    intro α rule? rule
    cases rule? with
    | none => exact .none
    | some found =>
        exact .some fun _ _ hfinal => CompareState.difference_rejected hfinal.difference _ _ _
  have hboth : ∀ call call', both call call' →
      (∀ inner inner', CompareState.Ahead base underway inner inner' →
        AnswerAhead base underway
          (exec (compareNested options levels level call.left call.right) inner)
          (exec (sameGraphs options (sameNodes options calls) levels level call'.left call'.right)
            inner')) ∧
      ∀ final final', SameDifference final final' →
        SameDifference (final.extended (.subgraph call.name call.index :: via))
          (final'.extended (.subgraph call'.name call'.index :: via)) := by
    rintro call _ ⟨rfl, hcarries, hcarries'⟩
    constructor
    · intro inner inner' hinner
      exact graphs_refined hvalues hcalls hproper habove ⟨scope, hscope, rfl, rfl⟩
        ⟨⟨left, hleft, hcarries⟩, ⟨right, hright, hcarries'⟩⟩ (hends.graphs call.left hcarries) hinner
    · exact fun final final' hdiffer => CompareState.difference_extended hdiffer _
  refine headsMatch_alike ?_ hboth ?_ (hrejected _ _) hahead
  · have hrules := hrejected (nodeRule? left right) id
    generalize nodeRule? left right = rule? at hrules
    cases hrules with
    | none => exact .none
    | some hdiffer => exact .some (hdiffer _ _ hahead)
  · exact List.forall₂_same.mpr fun call hcall => ⟨rfl, mem_attributePlan hcall⟩

/-- The inputs of two nodes have the same answer. The nodes are paired before that in the first state,
and after that in the second one. -/
theorem inputs_refined (hvalues : ValuesRefined options height) (hcalls : height ≤ calls)
    (hproper : base.Proper leftRoot rightRoot) {left right : Nat}
    (habove : (underway.set level left (some right)).Above base height) {scope : Scope}
    (hscope : base.scope? level = some scope) (hnone : underway level left = none)
    {lefts rights : List String}
    (hends : ∀ used ∈ lefts, EndsWithin height (base.leftBodies level) used)
    (hahead : state.Ahead base (underway.set level left none) state') :
    AnswerAhead base underway
      (exec (do
        if lefts.length = rights.length then
          pair level left right
          settle options levels (pendingValues level lefts rights via)
        else
          reject options (.valueCount lefts.length rights.length) via
          return false) state)
      (exec (do
        if ← sameValues options (sameNodes options calls levels) level lefts rights via then
          pair level left right
          return true
        else return false) state') := by
  rw [sameValues]
  by_cases hlength : lefts.length = rights.length
  · have hself : ∀ partner?, underway.set level left partner? level left = some partner? :=
      fun partner? => Underway.set_eq_some_iff.mpr (Or.inl ⟨⟨rfl, rfl⟩, rfl⟩)
    have hfirst : exec (do
        pair level left right
        settle options levels (pendingValues level lefts rights via)) state =
        exec (settle options levels (pendingValues level lefts rights via))
          (state.paired level left right) := by
      simp only [exec_bind, exec_pair, hahead.ahead (hself none)]
    simp only [if_pos hlength]
    rw [hfirst, exec_eq_andThen (settle options levels _)]
    refine (inOrder_refined hvalues hcalls hproper habove hlength hends
      (hahead.pair_first hscope)).andThen fun inner inner' hinner => ?_
    simp only [exec_bind, exec_pair, hinner.behind (hself (some right))]
    exact .ended (.matched (hinner.pair_second hscope hnone))
  · simp only [if_neg hlength]
    exact answerAhead_of_rejected hahead.difference _ _

/-- Two nodes have the same answer: whether they are paired already, or compared up to their inputs,
which are compared while the left node is under way. -/
theorem nodes_refined (hlower : ∀ below < height, ValuesRefined options below)
    (hcalls : height ≤ calls) (hproper : base.Proper leftRoot rightRoot)
    (habove : underway.Above base height) {scope : Scope} {left right below : Nat} {node : Node}
    (hscope : base.scope? level = some scope) (hnode : scope.left.nodes[left]? = some node)
    (hbelow : below < height) (hends : node.EndsWithin below (base.leftBodies level))
    (hahead : state.Ahead base underway state') :
    AnswerAhead base underway (exec (settle options levels [.nodes level left right via]) state)
      (exec (sameNodes options calls levels level left right via) state') := by
  obtain ⟨fewer, rfl⟩ : ∃ fewer, calls = fewer + 1 := ⟨calls - 1, by omega⟩
  obtain ⟨grown, hgrown, hscopes⟩ := hahead.grown.scope? hscope
  obtain ⟨scope', hscope', _, hleft, hright⟩ := scope?_of_frames hahead.frames hgrown
  have hnone := habove.eq_none_of_endsWithin hscope hnode hbelow hends
  have hpartner : scope'.pairing.partner? left = grown.pairing.partner? left := by
    rw [← partner?_of_scope? hscope', ← partner?_of_scope? hgrown]
    exact hahead.done hnone
  cases hunpaired : grown.pairing.partner? left with
  | some partner =>
      rw [exec_settle_partner hgrown hunpaired,
        exec_sameNodes_partner hscope' (hpartner.trans hunpaired)]
      split
      · exact .ended (.matched hahead)
      · exact answerAhead_of_rejected hahead.difference _ _
  | none =>
      have hpartner' := hpartner.trans hunpaired
      have hleftNode : grown.left.nodes[left]? = some node := hscopes.left ▸ hnode
      have hleftNode' : scope'.left.nodes[left]? = some node := hleft ▸ hleftNode
      cases hrightNode : grown.right.nodes[right]? with
      | none =>
          have hrightNode' : scope'.right.nodes[right]? = none := hright ▸ hrightNode
          rw [exec_settle_cons, step, nodeStep_eq, sameNodes_eq]
          simp only [exec_bind, exec_scopeAt, hgrown, hscope', hunpaired, hpartner', exec_nodeAt,
            hleftNode, hleftNode', hrightNode, hrightNode']
          exact .stopped
      | some rightNode =>
          have hrightNode' : scope'.right.nodes[right]? = some rightNode := hright ▸ hrightNode
          obtain ⟨lowest, hlowest, hendsLowest, hminimal⟩ := hends.exists_lowest
          have hvalues := hlower lowest (by omega)
          have habove' : ∀ partner?, (underway.set level left partner?).Above base lowest :=
            fun partner? => (habove.mono (by omega)).set hscope hnode hminimal
          have hbegun := hahead.begin hnone ((partner?_of_scope? hgrown).trans hunpaired)
          rw [exec_settle_fresh ⟨hgrown, hunpaired, hleftNode, hrightNode⟩,
            exec_sameNodes_fresh ⟨hscope', hpartner', hleftNode', hrightNode'⟩]
          refine (heads_refined hvalues (by omega) hproper (habove' none) hscope
            (List.mem_of_getElem? hnode) (hscopes.right ▸ List.mem_of_getElem? hrightNode)
            hendsLowest hbegun).andThen fun inner inner' hinner => ?_
          exact inputs_refined hvalues (by omega) hproper (habove' (some right)) hscope hnone
            hendsLowest.inputs hinner

/-- Values have the same answer, if nodes behind which the recursion is less high have. -/
theorem values_refined (hlower : ∀ below < height, ValuesRefined options below) :
    ValuesRefined options height := by
  intro calls levels level left right via leftRoot rightRoot base underway state state' hcalls
    hproper habove hends hahead
  rw [exec_settle_values, exec_sameValue,
    lookupOutward?_of_frames hahead.frames left right level level,
    lookupOutward?_of_frames (frames_of_extends hahead.grown) left right level level]
  rcases hlookup : base.lookupOutward? left right level level with _ | ⟨found, lookup⟩
  · exact .stopped
  · simp only
    cases hrule : lookupRule? left right lookup with
    | some rule => exact answerAhead_of_rejected hahead.difference _ _
    | none =>
        rcases lookup with ⟨_ | ⟨index, slot⟩, _ | ⟨index', slot'⟩⟩ | _ | _ | _
        case here.output.output =>
          obtain ⟨scope, skipped, hscope, horigin, _, hbodies, hskipped⟩ :=
            leftBodies_of_lookup hproper hlookup
          rw [hbodies] at hends
          have hfound := hends.of_skipped hskipped
          obtain ⟨node, hnode⟩ := Body.getElem?_of_origin? horigin
          rw [leftBodies_eq hproper hscope] at hfound
          obtain ⟨below, hbelow, hnodeEnds⟩ := hfound.of_output horigin hnode
          rw [← leftBodies_eq hproper hscope] at hnodeEnds
          exact nodes_refined hlower hcalls hproper habove hscope hnode hbelow hnodeEnds hahead
        all_goals exact .ended (.matched hahead)

variable (options height) in
/-- However high the recursion from a value is, the answer is the same. -/
theorem valuesRefined : ValuesRefined options height := by
  induction height using Nat.strongRecOn with
  | ind height ih => exact values_refined ih

theorem rootGraphs_refined (hcalls : height ≤ calls) {left right : Graph}
    (hends : ∀ name ∈ left.outputs, EndsWithin height [left.body] name) :
    AnswerAhead (ofBodies left.body right.body) (fun _ _ => none)
      (exec (compareRootGraphs options left right) (.initial left.body right.body))
      (exec (sameRootGraphs options calls left right) (.initial left.body right.body)) := by
  have hbodies : (ofBodies left.body right.body).leftBodies 0 = [left.body] :=
    leftBodies_initial left.body right.body
  have hroot : (ofBodies left.body right.body).scope? 0 =
      some { parent := none, left := left.body, right := right.body } := rfl
  have hheader : Option.Rel (fun rule rule' => SameDifference
      ((CompareState.initial left.body right.body).rejected options rule [])
      ((CompareState.initial left.body right.body).rejected options rule' []))
      (headerDifference? left right) (headerDifference? left right) := by
    cases headerDifference? left right with
    | none => exact .none
    | some rule => exact .some rfl
  rw [compareRootGraphs, sameRootGraphs]
  refine underHeaders_alike hheader fun _ => ?_
  refine bodies_refined (valuesRefined options height) hcalls
    (proper_initial left.body right.body) (Underway.Above.nothing _ height) hroot (fun _ => rfl)
    (hbodies ▸ hends) (CompareState.ahead_self (.initial left.body right.body))

theorem rootFunctions_refined (hcalls : height ≤ calls) {left right : Function}
    (hends : ∀ name ∈ left.outputs, EndsWithin height [left.body] name) :
    AnswerAhead (ofBodies left.body right.body) (fun _ _ => none)
      (exec (compareRootFunctions options left right) (.initial left.body right.body))
      (exec (sameRootFunctions options calls left right) (.initial left.body right.body)) := by
  have hbodies : (ofBodies left.body right.body).leftBodies 0 = [left.body] :=
    leftBodies_initial left.body right.body
  rw [compareRootFunctions, sameRootFunctions]
  cases signatureDifference? left right with
  | some rule => exact answerAhead_of_rejected rfl rule []
  | none =>
      refine (outputs_refined (valuesRefined options height) hcalls
        (proper_initial left.body right.body) (Underway.Above.nothing _ height) (hbodies ▸ hends)
        (CompareState.ahead_self _)).andThen fun inner inner' hinner => ?_
      exact allPaired_refined (fun _ => rfl) hinner

/-- The results of comparisons that have the same answer are the same. -/
theorem sameResult_of_answerAhead {left right : Body} {checked : Except NoVerdict Unit}
    {compare compare' : CompareM Bool}
    (hanswer : AnswerAhead (ofBodies left right) (fun _ _ => none)
      (exec compare (.initial left right)) (exec compare' (.initial left right))) :
    SameResult (do checked; (CompareM.verdict left right compare).mapError .unfinished)
      (do checked; (CompareM.verdict left right compare').mapError .unfinished) := by
  cases checked with
  | error failure => exact .unfinished
  | ok _ =>
      change SameResult ((CompareM.verdict left right compare).mapError .unfinished)
        ((CompareM.verdict left right compare').mapError .unfinished)
      rw [verdict_eq, verdict_eq]
      generalize exec compare (.initial left right) = ends at hanswer
      generalize exec compare' (.initial left right) = ends' at hanswer
      cases hanswer with
      | stopped => exact .unfinished
      | @ended _ _ final final' hanswers =>
          cases hanswers with
          | differed hdiffer =>
              change SameResult (.ok (.different final.difference)) (.ok (.different final'.difference))
              rw [hdiffer]
              exact .different
          | matched hahead => exact .equivalent fun index => (@hahead.done 0 index rfl).symm

end Refinement

end CompareM

open CompareM

/-- On operands of which the left one has no loops, the comparison gives what the comparison by
recursion gives, whatever the options: the same error, the same pairs, or the same difference. -/
theorem compare_refines_recursion (options : CompareOptions) :
    (∀ left right : Function, left.body.LoopFreeScopes → ∃ bound, ∀ calls, bound ≤ calls →
      SameResult (left.compare options right) (left.compareByRecursion options calls right)) ∧
    ∀ left right : Graph, left.body.LoopFreeScopes → ∃ bound, ∀ calls, bound ≤ calls →
      SameResult (left.compare options right) (left.compareByRecursion options calls right) := by
  constructor
  · intro left right hfree
    obtain ⟨height, hends⟩ := Body.exists_endsWithin hfree
    exact ⟨height, fun calls hcalls => sameResult_of_answerAhead (rootFunctions_refined hcalls hends)⟩
  · intro left right hfree
    obtain ⟨height, hends⟩ := Body.exists_endsWithin hfree
    exact ⟨height, fun calls hcalls => sameResult_of_answerAhead (rootGraphs_refined hcalls hends)⟩

/-- The recursion, too, finds the two choices equivalent, and gives up on two chained choices where
only one level of nesting is allowed. -/
theorem compare_refines_recursion_choice :
    (∃ bound, ∀ calls, bound ≤ calls →
      SameResult (.ok (.equivalent ⟨[(0, 1), (1, 0)], by decide⟩))
        (Function.choice.compareByRecursion .diagnostic calls Function.renamedChoice)) ∧
      ∃ bound, ∀ calls, bound ≤ calls →
        SameResult (.error (.unfinished (.depthLimitExceeded 1)))
          (Graph.chainedChoices.compareByRecursion { depthLimit := 1 } calls
            Graph.chainedChoices) := by
  have hchoice : Function.choice.compare .diagnostic Function.renamedChoice =
      .ok (.equivalent ⟨[(0, 1), (1, 0)], by decide⟩) := rfl
  have hchained : Graph.chainedChoices.compare { depthLimit := 1 } Graph.chainedChoices =
      .error (.unfinished (.depthLimitExceeded 1)) := rfl
  constructor
  · rw [← hchoice]
    exact (compare_refines_recursion .diagnostic).1 Function.choice Function.renamedChoice
      (Body.acyclicScopes_of_inOrder rfl).loopFreeScopes
  · rw [← hchained]
    exact (compare_refines_recursion { depthLimit := 1 }).2 Graph.chainedChoices
      Graph.chainedChoices (Body.acyclicScopes_of_inOrder rfl).loopFreeScopes

end OpGraph
