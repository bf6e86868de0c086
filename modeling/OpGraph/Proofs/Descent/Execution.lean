import OpGraph.Proofs.Descent.Runs

/-!
What a part of a comparison does in a state, and what every run keeps: scopes stay where they are,
and pairs are only added.
-/

namespace OpGraph

namespace CompareM

/-- What a part of a comparison does in a state. -/
def exec {α : Type} (comparison : CompareM α) (state : CompareState) : Outcome α × CompareState :=
  comparison.run state

section Exec

variable {α β : Type} {state : CompareState}

theorem exec_bind (first : CompareM α) (next : α → CompareM β) (state : CompareState) :
    exec (first >>= next) state =
      match exec first state with
      | (.ok value, inner) => exec (next value) inner
      | (.error error, inner) => (.error error, inner) := by
  change ExceptT.bindCont next (exec first state).1 (exec first state).2 = _
  rcases exec first state with ⟨error | value, inner⟩ <;> rfl

@[simp] theorem exec_pure (value : α) : exec (pure value) state = (.ok value, state) := rfl

@[simp] theorem exec_throw (error : CompareError) :
    exec (throw error : CompareM α) state = (.error error, state) := rfl

@[simp] theorem exec_get : exec get state = (.ok state, state) := rfl

theorem exec_scopeAt (level : Nat) :
    exec (scopeAt level) state =
      match state.stack.scope? level with
      | some scope => (.ok scope, state)
      | none => (.error (.fault (.noScope level)), state) := by
  simp only [scopeAt, exec_bind, exec_get]
  cases state.stack.scope? level <;> rfl

theorem exec_nodeAt (level index : Nat) (body : Body) :
    exec (nodeAt level body index) state =
      match body.nodes[index]? with
      | some node => (.ok node, state)
      | none => (.error (.fault (.noNode level index)), state) := by
  rw [nodeAt]
  cases body.nodes[index]? <;> rfl

theorem exec_inScope (parent : Nat) (left right : Body) (compare : Nat → CompareM α) :
    exec (inScope parent left right compare) state =
      ((exec (compare state.stack.depth) (state.entered parent left right)).1,
        (exec (compare state.stack.depth) (state.entered parent left right)).2.popped) := rfl

/-- Nested graphs whose headers are the same have their bodies compared in a scope of their own. -/
theorem exec_compareNested {options : CompareOptions} {levels level : Nat} {left right : Graph}
    (hheader : headerDifference? left right = none) :
    exec (compareNested options (levels + 1) level left right) state =
      ((exec (compareBodies options (compareNested options levels) state.stack.depth)
          (state.entered level left.body right.body)).1,
        (exec (compareBodies options (compareNested options levels) state.stack.depth)
          (state.entered level left.body right.body)).2.popped) := by
  rw [compareNested, underHeaders, hheader]
  exact exec_inScope level left.body right.body _

end Exec

/-- A comparison of graphs in attributes does what the relation says. -/
def Realizes (nested : NestedComparison) (relation : NestedRelation) : Prop :=
  ∀ level left right state, relation level left right state
    (exec (nested level left right) state).1 (exec (nested level left right) state).2

/-- The relation leaves the scopes as they are, but for added pairs. -/
def Grows (relation : NestedRelation) : Prop :=
  ∀ level left right state outcome final, relation level left right state outcome final →
    state.stack.Extends final.stack

section Growth

variable {options : CompareOptions} {relation : NestedRelation} {level : Nat}
  {state final : CompareState}

theorem CallsRun.grows (hgrows : Grows relation) {calls : List GraphCall}
    {outcome : Outcome (Option GraphCall)}
    (hrun : CallsRun relation level calls state outcome final) :
    state.stack.Extends final.stack := by
  induction hrun with
  | finished => exact ScopeStack.Extends.refl _
  | matched hcall _ ih => exact (hgrows _ _ _ _ _ _ hcall).trans ih
  | differed hcall => exact hgrows _ _ _ _ _ _ hcall
  | stopped hcall => exact hgrows _ _ _ _ _ _ hcall

theorem StepRun.grows (hgrows : Grows relation) {next : Pending}
    {outcome : Outcome (Option (List Pending))}
    (hrun : StepRun options relation state next outcome final) :
    state.stack.Extends final.stack := by
  cases hrun with
  | callStopped _ _ hcalls => exact hcalls.grows hgrows
  | callDiffered _ _ hcalls =>
      rw [CompareState.stack_extended]
      exact hcalls.grows hgrows
  | attributesDiffer _ _ hcalls _ =>
      rw [CompareState.stack_rejected]
      exact hcalls.grows hgrows
  | inputCountsDiffer _ _ hcalls _ _ =>
      rw [CompareState.stack_rejected]
      exact hcalls.grows hgrows
  | nodesPaired _ _ hcalls _ _ _ =>
      exact (hcalls.grows hgrows).trans (ScopeStack.extends_pair _ _ _ _)
  | pairedTwice _ _ hcalls _ _ _ => exact hcalls.grows hgrows
  | namesDiffer | conflict | nodesDiffer =>
      rw [CompareState.stack_rejected]
      exact ScopeStack.Extends.refl _
  | namesLost | namesLead | scopeLost | partners | leftLost | rightLost =>
      exact ScopeStack.Extends.refl _

theorem DrainRun.grows (hgrows : Grows relation) {pending : List Pending} {outcome : Outcome Bool}
    (hrun : DrainRun options relation state pending outcome final) :
    state.stack.Extends final.stack := by
  induction hrun with
  | finished => exact ScopeStack.Extends.refl _
  | failed hstep => exact hstep.grows hgrows
  | stopped hstep => exact hstep.grows hgrows
  | continued hstep _ ih => exact (hstep.grows hgrows).trans ih

theorem OutputsRun.grows (hgrows : Grows relation) {lefts rights : List String}
    {outcome : Outcome Bool}
    (hrun : OutputsRun options relation level lefts rights state outcome final) :
    state.stack.Extends final.stack := by
  cases hrun with
  | countsDiffer _ =>
      rw [CompareState.stack_rejected]
      exact ScopeStack.Extends.refl _
  | drained _ hdrain => exact hdrain.grows hgrows

theorem PairedRun.stack_eq {outcome : Outcome Bool}
    (hrun : PairedRun options level state outcome final) : final.stack = state.stack := by
  cases hrun with
  | failed _ _ => exact CompareState.stack_rejected _ _ _ _
  | lost _ => rfl
  | passed _ _ => rfl

/-- A comparison of two bodies is that of their outputs. Only if all nodes have to take part, this
is checked afterwards. -/
theorem BodiesRun.outputs_or_paired {scope : Scope}
    (hscope : state.stack.scope? level = some scope) {outcome : Outcome Bool}
    (hrun : BodiesRun options relation level state outcome final) :
    OutputsRun options relation level scope.left.outputs scope.right.outputs state outcome final ∨
      options.pairAllNodes = true ∧ ∃ inner,
        OutputsRun options relation level scope.left.outputs scope.right.outputs state (.ok true)
          inner ∧ PairedRun options level inner outcome final := by
  cases hrun with
  | lost hlost => simp [hscope] at hlost
  | failed hscope' houtputs _ =>
      obtain rfl := Option.some.inj (hscope.symm.trans hscope')
      exact Or.inl houtputs
  | matched hscope' houtputs _ =>
      obtain rfl := Option.some.inj (hscope.symm.trans hscope')
      exact Or.inl houtputs
  | checked hscope' houtputs hall hpaired =>
      obtain rfl := Option.some.inj (hscope.symm.trans hscope')
      exact Or.inr ⟨hall, _, houtputs, hpaired⟩

/-- In a comparison of two bodies that ends well, so does that of their outputs. -/
theorem BodiesRun.outputsRun {scope : Scope} (hscope : state.stack.scope? level = some scope)
    (hrun : BodiesRun options relation level state (.ok true) final) :
    ∃ inner, OutputsRun options relation level scope.left.outputs scope.right.outputs state
      (.ok true) inner ∧ final.stack = inner.stack := by
  rcases hrun.outputs_or_paired hscope with houtputs | ⟨_, inner, houtputs, hpaired⟩
  · exact ⟨final, houtputs, rfl⟩
  · exact ⟨inner, houtputs, hpaired.stack_eq⟩

theorem BodiesRun.grows (hgrows : Grows relation) {outcome : Outcome Bool}
    (hrun : BodiesRun options relation level state outcome final) :
    state.stack.Extends final.stack := by
  cases hrun with
  | lost _ => exact ScopeStack.Extends.refl _
  | failed _ houtputs _ => exact houtputs.grows hgrows
  | matched _ houtputs _ => exact houtputs.grows hgrows
  | checked _ houtputs _ hpaired =>
      rw [hpaired.stack_eq]
      exact houtputs.grows hgrows

/-- However a nested comparison ends, the scopes around it are as before, but for added pairs. -/
theorem nestedRun_grows (options : CompareOptions) (levels : Nat) :
    Grows (NestedRun options levels) := by
  induction levels with
  | zero =>
      rintro level left right state outcome final (hheader | ⟨_, _, rfl⟩)
      · rw [CompareState.stack_rejected]
        exact ScopeStack.Extends.refl _
      · exact ScopeStack.Extends.refl _
  | succ levels ih =>
      rintro level left right state outcome final (hheader | ⟨_, inner, hbodies, rfl⟩)
      · rw [CompareState.stack_rejected]
        exact ScopeStack.Extends.refl _
      · exact ScopeStack.Extends.pop (hbodies.grows ih)

end Growth

end CompareM

end OpGraph
