import OpGraph.Proofs.Descent.Steps
import Mathlib

/-!
Every comparison is a run of the relations that describe it, and the bound on the steps of a
descent is never met. Each step settles a pending comparison; what it leads to is paid for by the
inputs of a left node that had no partner before.
-/

namespace OpGraph

section Weight

theorem sum_map_add_le {α : Type} {weight weight' : α → Nat} {item : α} {gap : Nat}
    {items : List α} (hle : ∀ other ∈ items, weight' other ≤ weight other) (hitem : item ∈ items)
    (hgap : weight' item + gap ≤ weight item) :
    (items.map weight').sum + gap ≤ (items.map weight).sum := by
  induction items with
  | nil => simp at hitem
  | cons head tail ih =>
      have htail := List.sum_le_sum fun other hother => hle other (List.mem_cons_of_mem head hother)
      simp only [List.map_cons, List.sum_cons]
      rcases List.mem_cons.mp hitem with rfl | hmem
      · omega
      · have hhead := hle head List.mem_cons_self
        have hrest := ih (fun other hother => hle other (List.mem_cons_of_mem head hother)) hmem
        omega

/-- The inputs of the left nodes that have no partner yet. -/
def Scope.openInputs (scope : Scope) : Nat :=
  (scope.left.nodes.zipIdx.map fun (node, index) =>
    if scope.pairing.partner? index = none then node.inputs.length else 0).sum

theorem Scope.Extends.openInputs_le {scope scope' : Scope} (hextends : scope.Extends scope') :
    scope'.openInputs ≤ scope.openInputs := by
  rw [openInputs, openInputs, hextends.left]
  refine List.sum_le_sum fun pair _ => ?_
  by_cases hnone : scope.pairing.partner? pair.2 = none
  · simp only [hnone, if_true]
    split <;> omega
  · obtain ⟨partner, hpartner⟩ := Option.ne_none_iff_exists'.mp hnone
    simp [hextends.partner _ _ hpartner]

/-- The inputs of a node that gets a partner are no longer open. -/
theorem Scope.Extends.openInputs_add_le {scope scope' : Scope} (hextends : scope.Extends scope')
    {index : Nat} {node : Node} (hnode : scope.left.nodes[index]? = some node)
    (hnone : scope.pairing.partner? index = none)
    (hsome : scope'.pairing.partner? index ≠ none) :
    scope'.openInputs + node.inputs.length ≤ scope.openInputs := by
  rw [openInputs, openInputs, hextends.left]
  have hmem : (node, index) ∈ scope.left.nodes.zipIdx := List.mem_zipIdx_iff_getElem?.mpr hnode
  refine sum_map_add_le ?_ hmem ?_
  · rintro ⟨other, place⟩ _
    by_cases hother : scope.pairing.partner? place = none
    · simp only [hother, if_true]
      split <;> omega
    · obtain ⟨partner, hpartner⟩ := Option.ne_none_iff_exists'.mp hother
      simp [hextends.partner _ _ hpartner]
  · simp [hnone, hsome]

namespace ScopeStack

def openInputs (stack : ScopeStack) : Nat := (stack.scopes.map Scope.openInputs).sum

theorem sum_openInputs_le {scopes scopes' : List Scope}
    (hextends : List.Forall₂ Scope.Extends scopes scopes') :
    (scopes'.map Scope.openInputs).sum ≤ (scopes.map Scope.openInputs).sum := by
  induction hextends with
  | nil => exact Nat.le_refl _
  | cons hscope _ ih =>
      have hle := hscope.openInputs_le
      simp only [List.map_cons, List.sum_cons]
      omega

theorem openInputs_add_le {stack stack' : ScopeStack} {level index : Nat} {scope : Scope}
    {node : Node} (hextends : stack.Extends stack') (hscope : stack.scope? level = some scope)
    (hnode : scope.left.nodes[index]? = some node) (hnone : scope.pairing.partner? index = none)
    (hsome : stack'.partner? level index ≠ none) :
    stack'.openInputs + node.inputs.length ≤ stack.openInputs := by
  unfold openInputs Extends partner? ScopeStack.scope? at *
  generalize stack.scopes = scopes at *
  generalize stack'.scopes = scopes' at *
  induction hextends generalizing level with
  | nil => simp at hscope
  | cons hhead htail ih =>
      simp only [List.map_cons, List.sum_cons]
      cases level with
      | zero =>
          simp only [List.getElem?_cons_zero, Option.some.injEq, Option.bind_some] at hscope hsome
          subst hscope
          have hgap := hhead.openInputs_add_le hnode hnone hsome
          have hrest := sum_openInputs_le htail
          omega
      | succ level =>
          have hle := hhead.openInputs_le
          have hrest := ih (by simpa using hscope) (by simpa using hsome)
          omega

theorem openInputs_le_inputTotal (stack : ScopeStack) :
    stack.openInputs ≤ CompareM.inputTotal stack := by
  rw [openInputs, CompareM.inputTotal, List.length_flatMap]
  refine List.sum_le_sum fun scope _ => ?_
  rw [List.length_flatMap]
  have hmap : scope.left.nodes.map (fun node => node.inputs.length) =
      scope.left.nodes.zipIdx.map ((fun node => node.inputs.length) ∘ Prod.fst) := by
    rw [← List.map_map, List.zipIdx_map_fst]
  rw [hmap]
  refine List.sum_le_sum fun pair _ => ?_
  by_cases hnone : scope.pairing.partner? pair.2 = none
  · simp [hnone]
  · simp [hnone]

end ScopeStack

def Pending.weight : Pending → Nat
  | .values .. => 2
  | .nodes .. => 1

def pendingWeight (pending : List Pending) : Nat := (pending.map Pending.weight).sum

@[simp] theorem pendingWeight_cons (next : Pending) (rest : List Pending) :
    pendingWeight (next :: rest) = next.weight + pendingWeight rest := by
  simp [pendingWeight]

@[simp] theorem pendingWeight_append (pending rest : List Pending) :
    pendingWeight (pending ++ rest) = pendingWeight pending + pendingWeight rest := by
  simp [pendingWeight]

end Weight

namespace CompareM

theorem pendingWeight_pendingValues (level : Nat) {lefts rights : List String}
    (via : List UseStep) (hlength : lefts.length = rights.length) :
    pendingWeight (pendingValues level lefts rights via) = 2 * lefts.length := by
  induction lefts generalizing rights with
  | nil => simp [pendingValues, pendingWeight]
  | cons left lefts ih =>
      cases rights with
      | nil => simp at hlength
      | cons right rights =>
          have hrest := @ih rights (by simpa using hlength)
          rw [pendingValues, List.zipWith_cons_cons, pendingWeight_cons, ← pendingValues, hrest,
            Pending.weight, List.length_cons]
          omega

theorem pendingWeight_lookupPending (level : Nat) (via : List UseStep) (lookup : Lookup) :
    pendingWeight (lookupPending level via lookup) ≤ 1 := by
  unfold lookupPending
  split <;> simp [pendingWeight, Pending.weight]

section Realization

variable {options : CompareOptions} {nested : NestedComparison} {relation : NestedRelation}

/-- What a step leads to weighs less than the step, together with the inputs that are left open. -/
theorem StepRun.weight_le (hgrows : Grows relation) {state final : CompareState} {next : Pending}
    {pending : List Pending} (hrun : StepRun options relation state next (.ok (some pending)) final) :
    pendingWeight pending + 2 * final.stack.openInputs + 1 ≤
      next.weight + 2 * state.stack.openInputs := by
  cases hrun with
  | @namesLead level found left right via lookup _ _ =>
      have hle := pendingWeight_lookupPending found via lookup
      simp only [Pending.weight]
      omega
  | partners _ _ =>
      simp only [pendingWeight, Pending.weight, List.map_nil, List.sum_nil]
      omega
  | @nodesPaired level left right via scope leftNode rightNode inner hfresh _ hcalls _ hlength _ =>
      have hextends : state.stack.Extends (inner.paired level left right).stack :=
        (hcalls.grows hgrows).trans (ScopeStack.extends_pair _ _ _ _)
      obtain ⟨scope', hscope', _⟩ := (hcalls.grows hgrows).scope? hfresh.scope_eq
      have hsome : (inner.paired level left right).stack.partner? level left ≠ none := by
        rw [CompareState.stack_paired, ScopeStack.partner?_pair hscope', if_pos ⟨rfl, rfl⟩]
        simp
      have hgap := ScopeStack.openInputs_add_le hextends hfresh.scope_eq hfresh.left_eq
        hfresh.unpaired hsome
      rw [pendingWeight_pendingValues _ _ hlength, Pending.weight]
      omega

theorem makeCalls_run (hnested : Realizes nested relation) (level : Nat) (calls : List GraphCall)
    (state : CompareState) :
    CallsRun relation level calls state (exec (makeCalls (nested level) calls) state).1
      (exec (makeCalls (nested level) calls) state).2 := by
  induction calls generalizing state with
  | nil => exact .finished
  | cons call calls ih =>
      have hcall := hnested level call.left call.right state
      rw [makeCalls, exec_bind]
      rcases hexec : exec (nested level call.left call.right) state with
        ⟨error | matched, inner⟩
      · rw [hexec] at hcall
        exact .stopped hcall
      · rw [hexec] at hcall
        cases matched with
        | false => exact .differed hcall
        | true => exact .matched hcall (ih inner)

variable (options)

theorem valueStep_run (level : Nat) (left right : String) (via : List UseStep)
    (state : CompareState) :
    StepRun options relation state (.values level left right via)
      (exec (valueStep options level left right via) state).1
      (exec (valueStep options level left right via) state).2 := by
  rw [exec_valueStep]
  rcases hlookup : state.stack.lookupOutward? left right level level with _ | ⟨found, lookup⟩
  · exact .namesLost hlookup
  · simp only
    cases hrule : lookupRule? left right lookup with
    | none => exact .namesLead hlookup hrule
    | some rule => exact .namesDiffer hlookup hrule

/-- A step for two nodes of which the left one has no partner. -/
theorem freshStep_run (hnested : Realizes nested relation) {level left right : Nat}
    {via : List UseStep} {state : CompareState} {scope : Scope} {leftNode rightNode : Node}
    (hfresh : FreshNodes state.stack level left right scope leftNode rightNode) :
    StepRun options relation state (.nodes level left right via)
      (exec (nodeStep options nested level left right via) state).1
      (exec (nodeStep options nested level left right via) state).2 := by
  have hcalls := makeCalls_run hnested level
    (attributePlan leftNode.attributes rightNode.attributes).calls state
  rw [exec_nodeStep_fresh hfresh, exec_bind, exec_headsMatch]
  cases hrule : nodeRule? leftNode rightNode with
  | some rule => exact .nodesDiffer hfresh hrule
  | none =>
      simp only
      rcases hexec : exec (makeCalls (nested level)
        (attributePlan leftNode.attributes rightNode.attributes).calls) state with
        ⟨error | call | call, inner⟩ <;> rw [hexec] at hcalls
      · exact .callStopped hfresh hrule hcalls
      · cases hdifference :
          (attributePlan leftNode.attributes rightNode.attributes).difference? with
        | none =>
            simp only [if_true, exec_bind, exec_valuesStep]
            by_cases hlength : leftNode.inputs.length = rightNode.inputs.length
            · simp only [if_pos hlength, exec_bind, exec_pair]
              cases hpartner : inner.stack.partner? level left with
              | none => exact .nodesPaired hfresh hrule hcalls hdifference hlength hpartner
              | some partner => exact .pairedTwice hfresh hrule hcalls hdifference hlength hpartner
            · simp only [if_neg hlength]
              exact .inputCountsDiffer hfresh hrule hcalls hdifference hlength
        | some difference => exact .attributesDiffer hfresh hrule hcalls hdifference
      · exact .callDiffered hfresh hrule hcalls

theorem nodeStep_run (hnested : Realizes nested relation) (level left right : Nat)
    (via : List UseStep) (state : CompareState) :
    StepRun options relation state (.nodes level left right via)
      (exec (nodeStep options nested level left right via) state).1
      (exec (nodeStep options nested level left right via) state).2 := by
  cases hscope : state.stack.scope? level with
  | none =>
      simp only [nodeStep, exec_bind, exec_scopeAt, hscope]
      exact .scopeLost hscope
  | some scope =>
      cases hpartner : scope.pairing.partner? left with
      | some partner =>
          rw [exec_nodeStep_partner hscope hpartner]
          by_cases hright : partner = right
          · rw [if_pos hright]
            exact .partners hscope (hright ▸ hpartner)
          · rw [if_neg hright]
            exact .conflict hscope hpartner hright
      | none =>
          cases hleft : scope.left.nodes[left]? with
          | none =>
              simp only [nodeStep, exec_bind, exec_scopeAt, hscope, hpartner, exec_nodeAt, hleft]
              exact .leftLost hscope hpartner hleft
          | some leftNode =>
              cases hright : scope.right.nodes[right]? with
              | none =>
                  simp only [nodeStep, exec_bind, exec_scopeAt, hscope, hpartner, exec_nodeAt,
                    hleft, hright]
                  exact .rightLost hscope hpartner hleft hright
              | some rightNode => exact freshStep_run options hnested ⟨hscope, hpartner, hleft, hright⟩

theorem step_run (hnested : Realizes nested relation) (next : Pending) (state : CompareState) :
    StepRun options relation state next (exec (step options nested next) state).1
      (exec (step options nested next) state).2 := by
  cases next with
  | values level left right via => exact valueStep_run options level left right via state
  | nodes level left right via => exact nodeStep_run options hnested level left right via state

/-- A descent with enough steps for the weight of what is pending is a run. -/
theorem drain_run (hnested : Realizes nested relation) (hgrows : Grows relation) {steps : Nat}
    {pending : List Pending} {state : CompareState}
    (hsteps : pendingWeight pending + 2 * state.stack.openInputs ≤ steps) :
    DrainRun options relation state pending (exec (drain options nested steps pending) state).1
      (exec (drain options nested steps pending) state).2 := by
  induction steps generalizing pending state with
  | zero =>
      cases pending with
      | nil => exact .finished
      | cons next rest =>
          rw [pendingWeight_cons] at hsteps
          have hweight : 0 < next.weight := by cases next <;> simp [Pending.weight]
          omega
  | succ steps ih =>
      cases pending with
      | nil => exact .finished
      | cons next rest =>
          have hstep := step_run options hnested next state
          rw [drain, exec_bind]
          rcases hexec : exec (step options nested next) state with
            ⟨error | pending | pending, inner⟩ <;> rw [hexec] at hstep
          · exact .stopped hstep
          · exact .failed hstep
          · have hweight := hstep.weight_le hgrows
            rw [pendingWeight_cons] at hsteps
            refine .continued hstep (ih ?_)
            rw [pendingWeight_append]
            omega

/-- The steps that a descent is given are enough for the values of two lists. -/
theorem weight_le_steps (stack : ScopeStack) (level : Nat) {lefts rights : List String}
    (hlength : lefts.length = rights.length) :
    pendingWeight (pendingValues level lefts rights []) + 2 * stack.openInputs ≤
      2 * ((pendingValues level lefts rights []).length + inputTotal stack) := by
  have hopen := stack.openInputs_le_inputTotal
  have hpending : (pendingValues level lefts rights []).length = lefts.length := by
    rw [pendingValues, List.length_zipWith, hlength, Nat.min_self]
  rw [pendingWeight_pendingValues _ _ hlength, hpending]
  omega

theorem compareOutputs_run (hnested : Realizes nested relation) (hgrows : Grows relation)
    (level : Nat) (lefts rights : List String) (state : CompareState) :
    OutputsRun options relation level lefts rights state
      (exec (compareOutputs options nested level lefts rights) state).1
      (exec (compareOutputs options nested level lefts rights) state).2 := by
  simp only [compareOutputs, exec_bind, exec_valuesStep]
  by_cases hlength : lefts.length = rights.length
  · simp only [if_pos hlength]
    exact .drained hlength
      (drain_run options hnested hgrows (weight_le_steps state.stack level hlength))
  · simp only [if_neg hlength]
    exact .countsDiffer hlength

theorem requireAllPaired_run (level : Nat) (state : CompareState) :
    PairedRun options level state (exec (requireAllPaired options level) state).1
      (exec (requireAllPaired options level) state).2 := by
  rw [exec_requireAllPaired]
  cases hscope : state.stack.scope? level with
  | none => exact .lost hscope
  | some scope =>
      simp only
      cases hrule : unpairedRule? scope with
      | some rule => exact .failed hscope hrule
      | none => exact .passed hscope hrule

theorem compareBodies_run (hnested : Realizes nested relation) (hgrows : Grows relation)
    (level : Nat) (state : CompareState) :
    BodiesRun options relation level state (exec (compareBodies options nested level) state).1
      (exec (compareBodies options nested level) state).2 := by
  simp only [compareBodies, exec_bind, exec_scopeAt]
  cases hscope : state.stack.scope? level with
  | none => exact .lost hscope
  | some scope =>
      have houtputs := compareOutputs_run options hnested hgrows level
        scope.left.outputs scope.right.outputs state
      simp only
      rcases hexec : exec (compareOutputs options nested level scope.left.outputs
        scope.right.outputs) state with ⟨error | matched, inner⟩ <;> rw [hexec] at houtputs
      · exact .failed hscope houtputs (by simp)
      · cases matched with
        | false => exact .failed hscope houtputs (by simp)
        | true =>
            cases hall : options.pairAllNodes with
            | false =>
                simp only
                exact .matched hscope houtputs hall
            | true =>
                simp only
                exact .checked hscope houtputs hall (requireAllPaired_run options level inner)

theorem underHeaders_run {left right : Graph} {state : CompareState} {compare : CompareM Bool}
    {run : Outcome Bool → CompareState → Prop}
    (hrun : run (exec compare state).1 (exec compare state).2) :
    HeadedRun options left right state run (exec (underHeaders options left right compare) state).1
      (exec (underHeaders options left right compare) state).2 := by
  rw [underHeaders]
  cases hheader : headerDifference? left right with
  | some rule => exact .headersDiffer hheader
  | none => exact .compared hheader hrun

/-- Nested comparisons do what their relation says, whatever the number of levels. -/
theorem compareNested_run (levels : Nat) :
    Realizes (compareNested options levels) (NestedRun options levels) := by
  induction levels with
  | zero =>
      intro level left right state
      exact underHeaders_run options ⟨rfl, rfl⟩
  | succ levels ih =>
      intro level left right state
      refine underHeaders_run options ?_
      rw [exec_inScope]
      exact ⟨_, compareBodies_run options ih (nestedRun_grows options levels) _ _, rfl⟩

end Realization

end CompareM

end OpGraph
