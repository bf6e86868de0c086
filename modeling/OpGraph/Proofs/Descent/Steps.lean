import OpGraph.Proofs.Descent.Execution

/-!
What the steps of a descent do in a state, each as one equation. A step for two values is decided by
what the scopes tell of them; a step for two nodes by the pairs, then by the operations and domains,
then by the plan for the attributes, and at last by the numbers of inputs.
-/

namespace OpGraph

namespace CompareM

variable (options : CompareOptions)

/-- What two nodes have in common apart from their inputs: operation, domain and attributes. -/
def headsMatch (nested : NestedComparison) (level : Nat) (left right : Node)
    (via : List UseStep) : CompareM Bool := do
  if left.opType ≠ right.opType then
    reject options (.opType left.opType right.opType) via
    return false
  else if left.domain ≠ right.domain then
    reject options (.domain left.domain right.domain) via
    return false
  else match ← compareAttributes (nested level) left.attributes right.attributes with
    | some (.subgraph name index) =>
        extendPath (.subgraph name index :: via)
        return false
    | some difference =>
        reject options (.attributes difference) via
        return false
    | none => return true

section Steps

variable {options} {state : CompareState}

theorem exec_pair (level left right : Nat) :
    exec (pair level left right) state =
      match state.stack.partner? level left with
      | some _ => (.error (.fault .pairedTwice), state)
      | none => (.ok (), state.paired level left right) := by
  simp only [pair, exec_bind, exec_get]
  cases state.stack.partner? level left <;> rfl

theorem exec_originStep (level : Nat) (left right : String) (leftOrigin rightOrigin : Origin)
    (via : List UseStep) :
    exec (originStep options level left right leftOrigin rightOrigin via) state =
      match lookupRule? left right (.here leftOrigin rightOrigin) with
      | some rule => (.ok none, state.rejected options rule via)
      | none => (.ok (some (lookupPending level via (.here leftOrigin rightOrigin))), state) := by
  by_cases hslot : leftOrigin.slot = rightOrigin.slot
  · simp only [originStep, lookupRule?, hslot, ne_eq, not_true_eq_false, if_false]
    cases leftOrigin <;> cases rightOrigin <;> rfl
  · simp only [originStep, lookupRule?, hslot, ne_eq, not_false_eq_true, if_true]
    rfl

theorem exec_valueStep (level : Nat) (left right : String) (via : List UseStep) :
    exec (valueStep options level left right via) state =
      match state.stack.lookupOutward? left right level level with
      | none => (.error (.fault (.noScope level)), state)
      | some (found, lookup) =>
          match lookupRule? left right lookup with
          | some rule => (.ok none, state.rejected options rule via)
          | none => (.ok (some (lookupPending found via lookup)), state) := by
  simp only [valueStep, exec_bind, exec_get]
  rcases state.stack.lookupOutward? left right level level with _ | ⟨found, lookup⟩
  · rfl
  · cases lookup with
    | here leftOrigin rightOrigin => exact exec_originStep found left right _ _ via
    | outward parent => rfl
    | oneSided => rfl
    | nowhere => rfl

theorem exec_valuesStep (level : Nat) (lefts rights : List String) (via : List UseStep) :
    exec (valuesStep options level lefts rights via) state =
      if lefts.length = rights.length then
        (.ok (some (pendingValues level lefts rights via)), state)
      else (.ok none, state.rejected options (.valueCount lefts.length rights.length) via) := by
  rw [valuesStep]
  split <;> rfl

theorem exec_followPlan (graphsMatch : Graph → Graph → CompareM Bool) (plan : AttributePlan) :
    exec (followPlan graphsMatch plan) state =
      match exec (makeCalls graphsMatch plan.calls) state with
      | (.ok (some call), inner) => (.ok (some (.subgraph call.name call.index)), inner)
      | (.ok none, inner) => (.ok plan.difference?, inner)
      | (.error error, inner) => (.error error, inner) := by
  rw [followPlan, exec_bind]
  rcases exec (makeCalls graphsMatch plan.calls) state with ⟨error | call | call, inner⟩ <;> rfl

/-- Two nodes are compared by their operations and domains, then by the plan for their attributes. -/
theorem exec_headsMatch (nested : NestedComparison) (level : Nat) (left right : Node)
    (via : List UseStep) :
    exec (headsMatch options nested level left right via) state =
      match nodeRule? left right with
      | some rule => (.ok false, state.rejected options rule via)
      | none =>
          match exec (makeCalls (nested level)
            (attributePlan left.attributes right.attributes).calls) state with
          | (.error error, inner) => (.error error, inner)
          | (.ok (some call), inner) =>
              (.ok false, inner.extended (.subgraph call.name call.index :: via))
          | (.ok none, inner) =>
              match (attributePlan left.attributes right.attributes).difference? with
              | some difference => (.ok false, inner.rejected options (.attributes difference) via)
              | none => (.ok true, inner) := by
  unfold headsMatch nodeRule?
  by_cases htype : left.opType = right.opType
  · by_cases hdomain : left.domain = right.domain
    · simp only [htype, hdomain, ne_eq, not_true_eq_false, if_false, exec_bind,
        compareAttributes_eq, exec_followPlan]
      rcases exec (makeCalls (nested level)
        (attributePlan left.attributes right.attributes).calls) state with
        ⟨error | call | call, inner⟩
      · rfl
      · cases hdifference : (attributePlan left.attributes right.attributes).difference? with
        | none => rfl
        | some difference =>
            -- a graph that differs is found by a call, and no call found one
            cases difference with
            | subgraph name index => exact absurd hdifference (attributePlan_ne_subgraph _ _)
            | _ => rfl
      · rfl
    · simp only [htype, hdomain, ne_eq, not_true_eq_false, not_false_eq_true, if_true, if_false]
      rfl
  · simp only [htype, ne_eq, not_false_eq_true, if_true]
    rfl

/-- A node step compares two nodes that are not paired, pairs them, and leads to their inputs. -/
theorem nodeStep_eq (nested : NestedComparison) (level left right : Nat) (via : List UseStep) :
    nodeStep options nested level left right via = (do
      let scope ← scopeAt level
      match scope.pairing.partner? left with
      | some partner =>
          if partner = right then return some []
          else
            reject options (.mappingConflict left partner right) via
            return none
      | none =>
          let leftNode ← nodeAt level scope.left left
          let rightNode ← nodeAt level scope.right right
          let via := .nodes level left right leftNode.opType :: via
          if ← headsMatch options nested level leftNode rightNode via then
            match ← valuesStep options level leftNode.inputs rightNode.inputs via with
            | none => return none
            | some pending =>
                pair level left right
                return some pending
          else return none) := by
  unfold nodeStep headsMatch
  refine bind_congr fun scope => ?_
  cases scope.pairing.partner? left with
  | some partner => rfl
  | none =>
      refine bind_congr fun leftNode => bind_congr fun rightNode => ?_
      by_cases htype : leftNode.opType = rightNode.opType
      · by_cases hdomain : leftNode.domain = rightNode.domain
        · simp only [htype, hdomain, ne_eq, not_true_eq_false, if_false, bind_assoc]
          refine bind_congr fun difference? => ?_
          rcases difference? with _ | difference
          · rw [pure_bind]
            refine (bind_congr fun pending? => ?_).trans (if_pos rfl).symm
            cases pending? <;> rfl
          · cases difference <;> simp
        · simp [htype, hdomain]
      · simp [htype]

/-- Two nodes, of which the left one has a partner already, match if the right one is it. -/
theorem exec_nodeStep_partner {nested : NestedComparison} {level left right partner : Nat}
    {via : List UseStep} {scope : Scope} (hscope : state.stack.scope? level = some scope)
    (hpartner : scope.pairing.partner? left = some partner) :
    exec (nodeStep options nested level left right via) state =
      if partner = right then (.ok (some []), state)
      else (.ok none, state.rejected options (.mappingConflict left partner right) via) := by
  rw [nodeStep_eq, exec_bind, exec_scopeAt, hscope]
  simp only [hpartner]
  split <;> rfl

/-- The step of two nodes, of which the left one has no partner. -/
theorem exec_nodeStep_fresh {nested : NestedComparison} {level left right : Nat}
    {via : List UseStep} {scope : Scope} {leftNode rightNode : Node}
    (hfresh : FreshNodes state.stack level left right scope leftNode rightNode) :
    exec (nodeStep options nested level left right via) state = exec (do
      let via := .nodes level left right leftNode.opType :: via
      if ← headsMatch options nested level leftNode rightNode via then
        match ← valuesStep options level leftNode.inputs rightNode.inputs via with
        | none => return none
        | some pending =>
            pair level left right
            return some pending
      else return none) state := by
  rw [nodeStep_eq, exec_bind, exec_scopeAt, hfresh.scope_eq]
  simp only [hfresh.unpaired, exec_bind, exec_nodeAt, hfresh.left_eq, hfresh.right_eq]

/-- Whether all nodes at a level are paired depends on the numbers of nodes and of pairs. -/
theorem exec_requireAllPaired (level : Nat) :
    exec (requireAllPaired options level) state =
      match state.stack.scope? level with
      | none => (.error (.fault (.noScope level)), state)
      | some scope =>
          match unpairedRule? scope with
          | some rule => (.ok false, state.rejected options rule [])
          | none => (.ok true, state) := by
  rw [requireAllPaired, exec_bind, exec_scopeAt]
  cases state.stack.scope? level with
  | none => rfl
  | some scope =>
      simp only [unpairedRule?]
      by_cases hsize : scope.pairing.size = scope.left.nodes.length
      · by_cases htargets : scope.pairing.targetCount = scope.right.nodes.length
        · simp only [hsize, htargets, ne_eq, not_true_eq_false, if_false, exec_pure]
        · simp only [hsize, htargets, ne_eq, not_true_eq_false, not_false_eq_true, if_false, if_true]
          rfl
      · simp only [hsize, ne_eq, not_false_eq_true, if_true]
        rfl

end Steps

end CompareM

end OpGraph
