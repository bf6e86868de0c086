import OpGraph.Proofs.Descent.Termination

/-!
Descents without the count of steps. A descent that is given as many steps as it can take does the
first of the pending comparisons, then all that it leads to, and then the others; so the pending
comparisons of two lists are done one list after the other.
-/

namespace OpGraph

theorem Pending.weight_pos (next : Pending) : 0 < next.weight := by
  cases next <;> simp [weight]

namespace CompareM

variable (options : CompareOptions)

/-- Does the pending comparisons, with as many steps as they can take. -/
def settle (levels : Nat) (pending : List Pending) : CompareM Bool := do
  let steps := pendingWeight pending + 2 * (← get).stack.openInputs
  drain options (compareNested options levels) steps pending

variable {options} {levels : Nat} {state : CompareState} {next : Pending}
  {pending rest : List Pending}

/-- What a step leads to weighs less than the step. -/
theorem weight_le_of_exec_step {inner : CompareState}
    (hexec : exec (step options (compareNested options levels) next) state =
      (.ok (some pending), inner)) :
    pendingWeight pending + 2 * inner.stack.openInputs + 1 ≤
      next.weight + 2 * state.stack.openInputs := by
  have hstep := step_run options (compareNested_run options levels) next state
  rw [hexec] at hstep
  exact hstep.weight_le (nestedRun_grows options levels)

/-- Steps beyond those that the pending comparisons can take make no difference. -/
theorem exec_drain_eq {steps steps' : Nat}
    (hsteps : pendingWeight pending + 2 * state.stack.openInputs ≤ steps)
    (hsteps' : pendingWeight pending + 2 * state.stack.openInputs ≤ steps') :
    exec (drain options (compareNested options levels) steps pending) state =
      exec (drain options (compareNested options levels) steps' pending) state := by
  induction steps generalizing steps' pending state with
  | zero =>
      cases pending with
      | nil => rw [drain, drain]
      | cons next rest =>
          rw [pendingWeight_cons] at hsteps
          have hweight := next.weight_pos
          omega
  | succ steps ih =>
      cases pending with
      | nil => rw [drain, drain]
      | cons next rest =>
          rw [pendingWeight_cons] at hsteps hsteps'
          have hweight := next.weight_pos
          obtain ⟨fewer, rfl⟩ : ∃ fewer, steps' = fewer + 1 := ⟨steps' - 1, by omega⟩
          rw [drain, drain, exec_bind, exec_bind]
          rcases hexec : exec (step options (compareNested options levels) next) state with
            ⟨error | pending | pending, inner⟩
          · rfl
          · rfl
          · have hle := weight_le_of_exec_step hexec
            refine ih ?_ ?_ <;> rw [pendingWeight_append] <;> omega

theorem exec_drain_eq_settle {steps : Nat}
    (hsteps : pendingWeight pending + 2 * state.stack.openInputs ≤ steps) :
    exec (drain options (compareNested options levels) steps pending) state =
      exec (settle options levels pending) state :=
  exec_drain_eq hsteps (Nat.le_refl _)

@[simp] theorem exec_settle_nil : exec (settle options levels []) state = (.ok true, state) := by
  rw [settle, exec_bind, exec_get]
  simp only [drain]
  rfl

/-- What the first of the pending comparisons leads to is done before the others. -/
theorem exec_settle_cons :
    exec (settle options levels (next :: rest)) state = exec (do
      match ← step options (compareNested options levels) next with
      | none => return false
      | some pending => settle options levels (pending ++ rest)) state := by
  have hweight := next.weight_pos
  obtain ⟨steps, hsteps⟩ : ∃ steps,
      pendingWeight (next :: rest) + 2 * state.stack.openInputs = steps + 1 :=
    ⟨pendingWeight (next :: rest) + 2 * state.stack.openInputs - 1, by
      rw [pendingWeight_cons]
      omega⟩
  rw [settle, exec_bind, exec_get]
  simp only [hsteps, drain, exec_bind]
  rcases hexec : exec (step options (compareNested options levels) next) state with
    ⟨error | pending | pending, inner⟩
  · rfl
  · rfl
  · have hle := weight_le_of_exec_step hexec
    refine exec_drain_eq_settle ?_
    rw [pendingWeight_cons] at hsteps
    rw [pendingWeight_append]
    omega

/-- A value leads to the nodes behind it. -/
theorem exec_settle_values (level : Nat) (left right : String) (via : List UseStep) :
    exec (settle options levels [.values level left right via]) state =
      match state.stack.lookupOutward? left right level level with
      | none => (.error (.fault (.noScope level)), state)
      | some (found, lookup) =>
          match lookupRule? left right lookup, lookup with
          | some rule, _ => (.ok false, state.rejected options rule via)
          | none, .here (.output leftNode _) (.output rightNode _) =>
              exec (settle options levels [.nodes found leftNode rightNode via]) state
          | none, _ => (.ok true, state) := by
  rw [exec_settle_cons, step, exec_bind, exec_valueStep]
  rcases state.stack.lookupOutward? left right level level with _ | ⟨found, lookup⟩
  · rfl
  · simp only
    cases hrule : lookupRule? left right lookup with
    | some rule => rfl
    | none =>
        rcases lookup with ⟨_ | _, _ | _⟩ | _ | _ | _ <;>
          simp only [lookupPending, List.append_nil, exec_settle_nil]

/-- Nodes of which the left one has a partner match if the right one is it. -/
theorem exec_settle_partner {level left right partner : Nat} {via : List UseStep} {scope : Scope}
    (hscope : state.stack.scope? level = some scope)
    (hpartner : scope.pairing.partner? left = some partner) :
    exec (settle options levels [.nodes level left right via]) state =
      if partner = right then (.ok true, state)
      else (.ok false, state.rejected options (.mappingConflict left partner right) via) := by
  rw [exec_settle_cons, step, exec_bind, exec_nodeStep_partner hscope hpartner]
  by_cases hright : partner = right
  · simp only [if_pos hright, List.append_nil, exec_settle_nil]
  · simp only [if_neg hright, exec_pure]

/-- Nodes of which the left one has no partner are compared, paired, and lead to their inputs. -/
theorem exec_settle_fresh {level left right : Nat} {via : List UseStep} {scope : Scope}
    {leftNode rightNode : Node}
    (hfresh : FreshNodes state.stack level left right scope leftNode rightNode) :
    exec (settle options levels [.nodes level left right via]) state = exec (do
      let via := .nodes level left right leftNode.opType :: via
      if ← headsMatch options (compareNested options levels) level leftNode rightNode via then do
        if leftNode.inputs.length = rightNode.inputs.length then
          pair level left right
          settle options levels (pendingValues level leftNode.inputs rightNode.inputs via)
        else
          reject options (.valueCount leftNode.inputs.length rightNode.inputs.length) via
          return false
      else return false) state := by
  rw [exec_settle_cons, step, exec_bind, exec_nodeStep_fresh hfresh]
  simp only [exec_bind]
  rcases exec (headsMatch options (compareNested options levels) level leftNode rightNode
    (.nodes level left right leftNode.opType :: via)) state with ⟨error | matched, inner⟩
  · rfl
  · cases matched with
    | false => rfl
    | true =>
        simp only [if_true, exec_bind, exec_valuesStep]
        by_cases hlength : leftNode.inputs.length = rightNode.inputs.length
        · simp only [if_pos hlength, List.append_nil, exec_bind, exec_pair]
          cases inner.stack.partner? level left <;> rfl
        · simp only [if_neg hlength]
          rfl

/-- The pending comparisons of two lists are done one list after the other. -/
theorem exec_settle_append :
    exec (settle options levels (pending ++ rest)) state = exec (do
      if ← settle options levels pending then settle options levels rest else return false)
      state := by
  -- by the steps that the first list can take
  generalize hbound : pendingWeight pending + 2 * state.stack.openInputs = bound
  induction bound using Nat.strongRecOn generalizing pending state with
  | ind bound ih =>
      cases pending with
      | nil => simp only [List.nil_append, exec_bind, exec_settle_nil, if_true]
      | cons next pending =>
          rw [List.cons_append, exec_settle_cons, exec_bind, exec_bind, exec_settle_cons, exec_bind]
          rcases hexec : exec (step options (compareNested options levels) next) state with
            ⟨error | leads | leads, inner⟩
          · rfl
          · rfl
          · have hle := weight_le_of_exec_step hexec
            rw [pendingWeight_cons] at hbound
            simp only
            rw [← List.append_assoc, ih _ ?_ rfl, exec_bind]
            rw [pendingWeight_append]
            omega

/-- The comparison of the outputs of two bodies settles them. -/
theorem exec_compareOutputs_eq (level : Nat) (lefts rights : List String) :
    exec (compareOutputs options (compareNested options levels) level lefts rights) state =
      exec (do
        match ← valuesStep options level lefts rights [] with
        | none => return false
        | some pending => settle options levels pending) state := by
  rw [compareOutputs, exec_bind, exec_bind, exec_valuesStep]
  by_cases hlength : lefts.length = rights.length
  · simp only [if_pos hlength]
    exact exec_drain_eq_settle (weight_le_steps state.stack level hlength)
  · simp only [if_neg hlength]

end CompareM

end OpGraph
