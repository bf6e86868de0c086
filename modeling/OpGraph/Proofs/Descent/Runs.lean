import OpGraph.Compare.Descent
import OpGraph.Proofs.Descent.Calls
import OpGraph.Proofs.Descent.Growth

/-!
All that a comparison can do, as relations between the state before and after. There is one rule
for each way in which a step ends; a descent is a sequence of steps, and a nested comparison is a
descent in a scope of its own. How often the comparison may call itself is part of the relation;
how many steps it takes is not.
-/

namespace OpGraph

/-- How a part of a comparison ends. -/
abbrev Outcome (α : Type) : Type := Except CompareError α

/-- What the comparison of graphs in attributes does at a level, from state to state. -/
abbrev NestedRelation : Type := Nat → Graph → Graph → CompareState → Outcome Bool → CompareState →
  Prop

namespace CompareState

/-- The state after the operands were found to differ. -/
def rejected (state : CompareState) (options : CompareOptions) (rule : FailedRule)
    (path : List UseStep) : CompareState :=
  if options.trace && state.difference.isNone then { state with difference := some ⟨rule, path⟩ }
  else state

/-- The state after the way to the difference was extended. -/
def extended (state : CompareState) (path : List UseStep) : CompareState :=
  { state with difference := state.difference.map fun difference =>
      { difference with path := difference.path ++ path } }

def paired (state : CompareState) (level left right : Nat) : CompareState :=
  { state with stack := state.stack.pair level left right }

/-- The state in a new scope inside of a level. -/
def entered (state : CompareState) (parent : Nat) (left right : Body) : CompareState :=
  { state with stack := state.stack.push parent left right }

/-- The state after the innermost scope was left. -/
def popped (state : CompareState) : CompareState := { state with stack := state.stack.pop }

@[simp] theorem stack_rejected (state : CompareState) (options : CompareOptions) (rule : FailedRule)
    (path : List UseStep) : (state.rejected options rule path).stack = state.stack := by
  unfold rejected
  split <;> rfl

@[simp] theorem stack_extended (state : CompareState) (path : List UseStep) :
    (state.extended path).stack = state.stack := rfl

@[simp] theorem stack_paired (state : CompareState) (level left right : Nat) :
    (state.paired level left right).stack = state.stack.pair level left right := rfl

@[simp] theorem stack_entered (state : CompareState) (parent : Nat) (left right : Body) :
    (state.entered parent left right).stack = state.stack.push parent left right := rfl

@[simp] theorem stack_popped (state : CompareState) : state.popped.stack = state.stack.pop := rfl

variable {state state' : CompareState}

theorem difference_rejected (hdifference : state.difference = state'.difference)
    (options : CompareOptions) (rule : FailedRule) (path : List UseStep) :
    (state.rejected options rule path).difference =
      (state'.rejected options rule path).difference := by
  unfold rejected
  rw [hdifference]
  split
  · rfl
  · exact hdifference

theorem difference_extended (hdifference : state.difference = state'.difference)
    (path : List UseStep) :
    (state.extended path).difference = (state'.extended path).difference := by
  rw [extended, extended, hdifference]

end CompareState

namespace CompareM

/-- The rule that fails for two names, by what is known of them. -/
def lookupRule? (left right : String) : Lookup → Option FailedRule
  | .here leftOrigin rightOrigin =>
      if leftOrigin.slot ≠ rightOrigin.slot then
        some (.slot left right leftOrigin.slot rightOrigin.slot)
      else match leftOrigin, rightOrigin with
        | .input _, .input _ | .output _ _, .output _ _ => none
        | _, _ => some (.inputVersusNode left right)
  | .oneSided => some (.scopeAsymmetry left right)
  | .nowhere | .outward _ => some (.unbound left right)

/-- The comparison that two names lead to: that of the nodes whose outputs they are. -/
def lookupPending (level : Nat) (via : List UseStep) : Lookup → List Pending
  | .here (.output left _) (.output right _) => [.nodes level left right via]
  | _ => []

/-- The rule that fails for two nodes before their attributes are looked at. -/
def nodeRule? (left right : Node) : Option FailedRule :=
  if left.opType ≠ right.opType then some (.opType left.opType right.opType)
  else if left.domain ≠ right.domain then some (.domain left.domain right.domain)
  else none

/-- The rule that fails if not all nodes of a scope are paired, one to one. -/
def unpairedRule? (scope : Scope) : Option FailedRule :=
  if scope.pairing.size ≠ scope.left.nodes.length then
    some (.unreachedNodes scope.pairing.size scope.left.nodes.length)
  else if scope.pairing.targetCount ≠ scope.right.nodes.length then
    some (.notInjective scope.pairing.targetCount scope.right.nodes.length)
  else none

/-- No rule fails for two names exactly if they are found together, at the same place. -/
theorem lookupRule?_eq_none_iff {left right : String} {lookup : Lookup} :
    lookupRule? left right lookup = none ↔
      (∃ slot, lookup = .here (.input slot) (.input slot)) ∨
        ∃ index index' slot, lookup = .here (.output index slot) (.output index' slot) := by
  constructor
  · intro hrule
    rcases lookup with ⟨origin, origin'⟩ | parent | _ | _
    · by_cases hslot : origin.slot = origin'.slot
      · simp only [lookupRule?, hslot, ne_eq, not_true_eq_false, if_false] at hrule
        rcases origin with slot | ⟨index, slot⟩ <;> rcases origin' with slot' | ⟨index', slot'⟩ <;>
          cases hrule <;> cases hslot
        · exact .inl ⟨slot, rfl⟩
        · exact .inr ⟨index, index', slot, rfl⟩
      · simp [lookupRule?, hslot] at hrule
    all_goals cases hrule
  · rintro (⟨slot, rfl⟩ | ⟨index, index', slot, rfl⟩) <;> simp [lookupRule?, Origin.slot]

theorem nodeRule?_eq_none_iff {left right : Node} :
    nodeRule? left right = none ↔ left.opType = right.opType ∧ left.domain = right.domain := by
  unfold nodeRule?
  by_cases htype : left.opType = right.opType <;> simp [htype]

theorem headerDifference?_eq_none_iff {left right : Graph} :
    headerDifference? left right = none ↔
      left.inputs.length = right.inputs.length ∧ left.Bare ∧ right.Bare := by
  unfold headerDifference? Graph.Bare
  by_cases hlength : left.inputs.length = right.inputs.length
  · simp [hlength, and_assoc, and_left_comm, and_comm]
  · simp [hlength]

/-- Two nodes at a level, of which the left one has no partner. -/
structure FreshNodes (stack : ScopeStack) (level left right : Nat) (scope : Scope)
    (leftNode rightNode : Node) : Prop where
  scope_eq : stack.scope? level = some scope
  unpaired : scope.pairing.partner? left = none
  left_eq : scope.left.nodes[left]? = some leftNode
  right_eq : scope.right.nodes[right]? = some rightNode

/-- The calls that the attributes of two nodes lead to, up to the first that fails. -/
inductive CallsRun (nested : NestedRelation) (level : Nat) :
    List GraphCall → CompareState → Outcome (Option GraphCall) → CompareState → Prop where
  | finished {state : CompareState} : CallsRun nested level [] state (.ok none) state
  | matched {call : GraphCall} {calls : List GraphCall} {state inner final : CompareState}
      {outcome : Outcome (Option GraphCall)} :
      nested level call.left call.right state (.ok true) inner →
      CallsRun nested level calls inner outcome final →
      CallsRun nested level (call :: calls) state outcome final
  | differed {call : GraphCall} {calls : List GraphCall} {state final : CompareState} :
      nested level call.left call.right state (.ok false) final →
      CallsRun nested level (call :: calls) state (.ok (some call)) final
  | stopped {call : GraphCall} {calls : List GraphCall} {state final : CompareState}
      {error : CompareError} : nested level call.left call.right state (.error error) final →
      CallsRun nested level (call :: calls) state (.error error) final

variable (options : CompareOptions) (nested : NestedRelation)

/-- One step: a pending comparison fails, stops, or leads to others. -/
inductive StepRun (state : CompareState) :
    Pending → Outcome (Option (List Pending)) → CompareState → Prop where
  | namesLost {level : Nat} {left right : String} {via : List UseStep} :
      state.stack.lookupOutward? left right level level = none →
      StepRun state (.values level left right via) (.error (.fault (.noScope level))) state
  | namesDiffer {level found : Nat} {left right : String} {via : List UseStep} {lookup : Lookup}
      {rule : FailedRule} :
      state.stack.lookupOutward? left right level level = some (found, lookup) →
      lookupRule? left right lookup = some rule →
      StepRun state (.values level left right via) (.ok none) (state.rejected options rule via)
  | namesLead {level found : Nat} {left right : String} {via : List UseStep} {lookup : Lookup} :
      state.stack.lookupOutward? left right level level = some (found, lookup) →
      lookupRule? left right lookup = none →
      StepRun state (.values level left right via) (.ok (some (lookupPending found via lookup)))
        state
  | scopeLost {level left right : Nat} {via : List UseStep} : state.stack.scope? level = none →
      StepRun state (.nodes level left right via) (.error (.fault (.noScope level))) state
  | partners {level left right : Nat} {via : List UseStep} {scope : Scope} :
      state.stack.scope? level = some scope → scope.pairing.partner? left = some right →
      StepRun state (.nodes level left right via) (.ok (some [])) state
  | conflict {level left right partner : Nat} {via : List UseStep} {scope : Scope} :
      state.stack.scope? level = some scope → scope.pairing.partner? left = some partner →
      partner ≠ right → StepRun state (.nodes level left right via) (.ok none)
        (state.rejected options (.mappingConflict left partner right) via)
  | leftLost {level left right : Nat} {via : List UseStep} {scope : Scope} :
      state.stack.scope? level = some scope → scope.pairing.partner? left = none →
      scope.left.nodes[left]? = none →
      StepRun state (.nodes level left right via) (.error (.fault (.noNode level left))) state
  | rightLost {level left right : Nat} {via : List UseStep} {scope : Scope} {leftNode : Node} :
      state.stack.scope? level = some scope → scope.pairing.partner? left = none →
      scope.left.nodes[left]? = some leftNode → scope.right.nodes[right]? = none →
      StepRun state (.nodes level left right via) (.error (.fault (.noNode level right))) state
  | nodesDiffer {level left right : Nat} {via : List UseStep} {scope : Scope}
      {leftNode rightNode : Node} {rule : FailedRule} :
      FreshNodes state.stack level left right scope leftNode rightNode →
      nodeRule? leftNode rightNode = some rule →
      StepRun state (.nodes level left right via) (.ok none)
        (state.rejected options rule (.nodes level left right leftNode.opType :: via))
  | callStopped {level left right : Nat} {via : List UseStep} {scope : Scope}
      {leftNode rightNode : Node} {error : CompareError} {final : CompareState} :
      FreshNodes state.stack level left right scope leftNode rightNode →
      nodeRule? leftNode rightNode = none →
      CallsRun nested level (attributePlan leftNode.attributes rightNode.attributes).calls state
        (.error error) final →
      StepRun state (.nodes level left right via) (.error error) final
  | callDiffered {level left right : Nat} {via : List UseStep} {scope : Scope}
      {leftNode rightNode : Node} {call : GraphCall} {inner : CompareState} :
      FreshNodes state.stack level left right scope leftNode rightNode →
      nodeRule? leftNode rightNode = none →
      CallsRun nested level (attributePlan leftNode.attributes rightNode.attributes).calls state
        (.ok (some call)) inner →
      StepRun state (.nodes level left right via) (.ok none) (inner.extended
        (.subgraph call.name call.index :: .nodes level left right leftNode.opType :: via))
  | attributesDiffer {level left right : Nat} {via : List UseStep} {scope : Scope}
      {leftNode rightNode : Node} {difference : AttributeDifference} {inner : CompareState} :
      FreshNodes state.stack level left right scope leftNode rightNode →
      nodeRule? leftNode rightNode = none →
      CallsRun nested level (attributePlan leftNode.attributes rightNode.attributes).calls state
        (.ok none) inner →
      (attributePlan leftNode.attributes rightNode.attributes).difference? = some difference →
      StepRun state (.nodes level left right via) (.ok none)
        (inner.rejected options (.attributes difference)
          (.nodes level left right leftNode.opType :: via))
  | inputCountsDiffer {level left right : Nat} {via : List UseStep} {scope : Scope}
      {leftNode rightNode : Node} {inner : CompareState} :
      FreshNodes state.stack level left right scope leftNode rightNode →
      nodeRule? leftNode rightNode = none →
      CallsRun nested level (attributePlan leftNode.attributes rightNode.attributes).calls state
        (.ok none) inner →
      (attributePlan leftNode.attributes rightNode.attributes).difference? = none →
      leftNode.inputs.length ≠ rightNode.inputs.length →
      StepRun state (.nodes level left right via) (.ok none)
        (inner.rejected options
          (.valueCount leftNode.inputs.length rightNode.inputs.length)
          (.nodes level left right leftNode.opType :: via))
  | nodesPaired {level left right : Nat} {via : List UseStep} {scope : Scope}
      {leftNode rightNode : Node} {inner : CompareState} :
      FreshNodes state.stack level left right scope leftNode rightNode →
      nodeRule? leftNode rightNode = none →
      CallsRun nested level (attributePlan leftNode.attributes rightNode.attributes).calls state
        (.ok none) inner →
      (attributePlan leftNode.attributes rightNode.attributes).difference? = none →
      leftNode.inputs.length = rightNode.inputs.length →
      inner.stack.partner? level left = none →
      StepRun state (.nodes level left right via)
        (.ok (some (pendingValues level leftNode.inputs rightNode.inputs
          (.nodes level left right leftNode.opType :: via))))
        (inner.paired level left right)
  /-- The comparison of the attributes has come back to the left node and paired it. -/
  | pairedTwice {level left right partner : Nat} {via : List UseStep} {scope : Scope}
      {leftNode rightNode : Node} {inner : CompareState} :
      FreshNodes state.stack level left right scope leftNode rightNode →
      nodeRule? leftNode rightNode = none →
      CallsRun nested level (attributePlan leftNode.attributes rightNode.attributes).calls state
        (.ok none) inner →
      (attributePlan leftNode.attributes rightNode.attributes).difference? = none →
      leftNode.inputs.length = rightNode.inputs.length →
      inner.stack.partner? level left = some partner →
      StepRun state (.nodes level left right via) (.error (.fault .pairedTwice)) inner

/-- A descent: step after step, until one fails or stops, or nothing is pending. -/
inductive DrainRun : CompareState → List Pending → Outcome Bool → CompareState → Prop where
  | finished {state : CompareState} : DrainRun state [] (.ok true) state
  | failed {state final : CompareState} {next : Pending} {rest : List Pending} :
      StepRun options nested state next (.ok none) final →
      DrainRun state (next :: rest) (.ok false) final
  | stopped {state final : CompareState} {next : Pending} {rest : List Pending}
      {error : CompareError} : StepRun options nested state next (.error error) final →
      DrainRun state (next :: rest) (.error error) final
  | continued {state inner final : CompareState} {next : Pending} {rest pending : List Pending}
      {outcome : Outcome Bool} : StepRun options nested state next (.ok (some pending)) inner →
      DrainRun inner (pending ++ rest) outcome final →
      DrainRun state (next :: rest) outcome final

/-- The comparison of the outputs of two bodies. -/
inductive OutputsRun (level : Nat) (lefts rights : List String) (state : CompareState) :
    Outcome Bool → CompareState → Prop where
  | countsDiffer : lefts.length ≠ rights.length → OutputsRun level lefts rights state (.ok false)
      (state.rejected options (.valueCount lefts.length rights.length) [])
  | drained {outcome : Outcome Bool} {final : CompareState} : lefts.length = rights.length →
      DrainRun options nested state (pendingValues level lefts rights []) outcome final →
      OutputsRun level lefts rights state outcome final

/-- The check that all nodes at a level are paired. -/
inductive PairedRun (level : Nat) (state : CompareState) : Outcome Bool → CompareState → Prop where
  | lost : state.stack.scope? level = none →
      PairedRun level state (.error (.fault (.noScope level))) state
  | failed {scope : Scope} {rule : FailedRule} : state.stack.scope? level = some scope →
      unpairedRule? scope = some rule →
      PairedRun level state (.ok false) (state.rejected options rule [])
  | passed {scope : Scope} : state.stack.scope? level = some scope →
      unpairedRule? scope = none → PairedRun level state (.ok true) state

/-- The comparison of two bodies of graphs. -/
inductive BodiesRun (level : Nat) (state : CompareState) : Outcome Bool → CompareState → Prop where
  | lost : state.stack.scope? level = none →
      BodiesRun level state (.error (.fault (.noScope level))) state
  | failed {scope : Scope} {outcome : Outcome Bool} {final : CompareState} :
      state.stack.scope? level = some scope →
      OutputsRun options nested level scope.left.outputs scope.right.outputs state outcome final →
      outcome ≠ .ok true → BodiesRun level state outcome final
  | matched {scope : Scope} {final : CompareState} : state.stack.scope? level = some scope →
      OutputsRun options nested level scope.left.outputs scope.right.outputs state (.ok true)
        final → options.pairAllNodes = false → BodiesRun level state (.ok true) final
  | checked {scope : Scope} {outcome : Outcome Bool} {inner final : CompareState} :
      state.stack.scope? level = some scope →
      OutputsRun options nested level scope.left.outputs scope.right.outputs state (.ok true)
        inner → options.pairAllNodes = true → PairedRun options level inner outcome final →
      BodiesRun level state outcome final

/-- A comparison of two graphs by their headers, and then as given. -/
inductive HeadedRun (left right : Graph) (state : CompareState)
    (run : Outcome Bool → CompareState → Prop) : Outcome Bool → CompareState → Prop where
  | headersDiffer {rule : FailedRule} : headerDifference? left right = some rule →
      HeadedRun left right state run (.ok false) (state.rejected options rule [])
  | compared {outcome : Outcome Bool} {final : CompareState} :
      headerDifference? left right = none → run outcome final →
      HeadedRun left right state run outcome final

/-- The comparison of graphs in attributes, with so many of them inside each other. -/
def NestedRun : Nat → NestedRelation
  | 0, _, left, right, state => HeadedRun options left right state fun outcome final =>
      outcome = .error (.depthLimitExceeded options.depthLimit) ∧ final = state
  | levels + 1, level, left, right, state =>
      HeadedRun options left right state fun outcome final => ∃ inner,
        BodiesRun options (NestedRun levels) state.stack.depth
          (state.entered level left.body right.body) outcome inner ∧ final = inner.popped

end CompareM

end OpGraph
