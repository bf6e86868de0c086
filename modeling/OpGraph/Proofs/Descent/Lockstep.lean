import OpGraph.Proofs.Descent.Settling

/-!
Two comparisons that go on in lockstep, each by its own options. They are told apart by nothing but
their states: both end with the same error, or with values that correspond to each other. What is
known of the values and the states after a first part is what the second part may rely on.
-/

namespace OpGraph

namespace CompareM

/-- Two comparisons end with the same error, or with values and in states that correspond. -/
inductive EndAlike {α β : Type} (alike : α → CompareState → β → CompareState → Prop) :
    Outcome α × CompareState → Outcome β × CompareState → Prop where
  | stopped {error : CompareError} {final final' : CompareState} :
      EndAlike alike (.error error, final) (.error error, final')
  | ended {value : α} {value' : β} {final final' : CompareState} :
      alike value final value' final' → EndAlike alike (.ok value, final) (.ok value', final')

/-- Two answers are the same. Which states correspond depends on the answer. -/
inductive Answers (differ alike : CompareState → CompareState → Prop) :
    Bool → CompareState → Bool → CompareState → Prop where
  | differed {final final' : CompareState} : differ final final' →
      Answers differ alike false final false final'
  | matched {final final' : CompareState} : alike final final' →
      Answers differ alike true final true final'

/-- Two calls for graphs fail together, or none fails. -/
inductive CallAnswers (both : GraphCall → GraphCall → Prop)
    (differ alike : CompareState → CompareState → Prop) :
    Option GraphCall → CompareState → Option GraphCall → CompareState → Prop where
  | failed {call call' : GraphCall} {final final' : CompareState} : both call call' →
      differ final final' → CallAnswers both differ alike (some call) final (some call') final'
  | passed {final final' : CompareState} : alike final final' →
      CallAnswers both differ alike none final none final'

/-- Both steps fail, or they lead to pending comparisons that correspond. -/
inductive Leads (same : Pending → Pending → Prop) (differ alike : CompareState → CompareState → Prop) :
    Option (List Pending) → CompareState → Option (List Pending) → CompareState → Prop where
  | failed {final final' : CompareState} : differ final final' →
      Leads same differ alike none final none final'
  | led {pending pending' : List Pending} {final final' : CompareState} :
      List.Forall₂ same pending pending' → alike final final' →
      Leads same differ alike (some pending) final (some pending') final'

section Rules

variable {α β γ δ : Type} {alike : α → CompareState → β → CompareState → Prop}
  {alike' : γ → CompareState → δ → CompareState → Prop} {state state' : CompareState}

/-- Comparisons that end alike may be followed by comparisons that end alike. -/
theorem EndAlike.bind {first : CompareM α} {first' : CompareM β} {next : α → CompareM γ}
    {next' : β → CompareM δ} (hfirst : EndAlike alike (exec first state) (exec first' state'))
    (hnext : ∀ value inner value' inner', alike value inner value' inner' →
      EndAlike alike' (exec (next value) inner) (exec (next' value') inner')) :
    EndAlike alike' (exec (first >>= next) state) (exec (first' >>= next') state') := by
  rw [exec_bind, exec_bind]
  rcases hexec : exec first state with ⟨outcome, inner⟩
  rcases hexec' : exec first' state' with ⟨outcome', inner'⟩
  rw [hexec, hexec'] at hfirst
  cases hfirst with
  | stopped => exact .stopped
  | ended hvalues => exact hnext _ _ _ _ hvalues

theorem exec_eq_andThen (comparison : CompareM Bool) (state : CompareState) :
    exec comparison state = exec (do if ← comparison then return true else return false) state := by
  rw [exec_bind]
  rcases exec comparison state with ⟨error | matched, inner⟩
  · rfl
  · cases matched <;> rfl

/-- If the first parts match, the second parts decide; if they differ, this is the answer. -/
theorem EndAlike.andThen {differ alike alike' : CompareState → CompareState → Prop}
    {first first' next next' : CompareM Bool}
    (hfirst : EndAlike (Answers differ alike) (exec first state) (exec first' state'))
    (hnext : ∀ inner inner', alike inner inner' →
      EndAlike (Answers differ alike') (exec next inner) (exec next' inner')) :
    EndAlike (Answers differ alike') (exec (do if ← first then next else return false) state)
      (exec (do if ← first' then next' else return false) state') := by
  refine hfirst.bind fun answer inner answer' inner' hanswers => ?_
  cases hanswers with
  | differed hdiffer => exact .ended (.differed hdiffer)
  | matched hinner => exact hnext inner inner' hinner

/-- Comparisons in new scopes that end alike do so when these scopes are left again. -/
theorem EndAlike.inScope {parent parent' : Nat} {left right left' right' : Body}
    {compare compare' : Nat → CompareM Bool} {differ alike alike' : CompareState → CompareState → Prop}
    (hinner : EndAlike (Answers differ alike)
      (exec (compare state.stack.depth) (state.entered parent left right))
      (exec (compare' state'.stack.depth) (state'.entered parent' left' right')))
    (hdiffer : ∀ final final', differ final final' → differ final.popped final'.popped)
    (halike : ∀ final final', alike final final' → alike' final.popped final'.popped) :
    EndAlike (Answers differ alike') (exec (CompareM.inScope parent left right compare) state)
      (exec (CompareM.inScope parent' left' right' compare') state') := by
  rw [exec_inScope, exec_inScope]
  rcases hexec : exec (compare state.stack.depth) (state.entered parent left right) with
    ⟨outcome, final⟩
  rcases hexec' : exec (compare' state'.stack.depth) (state'.entered parent' left' right') with
    ⟨outcome', final'⟩
  rw [hexec, hexec'] at hinner
  cases hinner with
  | stopped => exact .stopped
  | ended hanswers =>
      cases hanswers with
      | differed hfinal => exact .ended (.differed (hdiffer _ _ hfinal))
      | matched hfinal => exact .ended (.matched (halike _ _ hfinal))

end Rules

section Parts

variable {options options' : CompareOptions} {differ alike : CompareState → CompareState → Prop}
  {state state' : CompareState} {nested nested' : NestedComparison} {level level' : Nat}

theorem underHeaders_alike {left right left' right' : Graph} {compare compare' : CompareM Bool}
    (hheader : Option.Rel (fun rule rule' =>
      differ (state.rejected options rule []) (state'.rejected options' rule' []))
      (headerDifference? left right) (headerDifference? left' right'))
    (hcompare : headerDifference? left right = none →
      EndAlike (Answers differ alike) (exec compare state) (exec compare' state')) :
    EndAlike (Answers differ alike) (exec (underHeaders options left right compare) state)
      (exec (underHeaders options' left' right' compare') state') := by
  rw [underHeaders, underHeaders]
  cases hnone : headerDifference? left right with
  | none =>
      rw [hnone] at hheader
      cases hnone' : headerDifference? left' right' with
      | none => exact hcompare hnone
      | some rule' =>
          rw [hnone'] at hheader
          cases hheader
  | some rule =>
      rw [hnone] at hheader
      cases hnone' : headerDifference? left' right' with
      | none =>
          rw [hnone'] at hheader
          cases hheader
      | some rule' =>
          rw [hnone'] at hheader
          cases hheader with
          | some hdiffer => exact .ended (.differed hdiffer)

theorem makeCalls_alike {both : GraphCall → GraphCall → Prop} {calls calls' : List GraphCall}
    (hboth : ∀ call call', both call call' → ∀ inner inner', alike inner inner' →
      EndAlike (Answers differ alike) (exec (nested level call.left call.right) inner)
        (exec (nested' level' call'.left call'.right) inner'))
    (hcalls : List.Forall₂ both calls calls') (halike : alike state state') :
    EndAlike (CallAnswers both differ alike) (exec (makeCalls (nested level) calls) state)
      (exec (makeCalls (nested' level') calls') state') := by
  induction hcalls generalizing state state' with
  | nil => exact .ended (.passed halike)
  | cons hcall _ ih =>
      refine (hboth _ _ hcall state state' halike).bind fun answer inner answer' inner' hanswers => ?_
      cases hanswers with
      | differed hdiffer => exact .ended (.failed hcall hdiffer)
      | matched hinner => exact ih hinner

/-- Nodes of the same operation and domain, the plans for whose attributes correspond, are compared
alike but for their inputs. -/
theorem headsMatch_alike {left right left' right' : Node} {via via' : List UseStep}
    {both : GraphCall → GraphCall → Prop}
    (hrule : Option.Rel (fun rule rule' =>
      differ (state.rejected options rule via) (state'.rejected options' rule' via'))
      (nodeRule? left right) (nodeRule? left' right'))
    (hboth : ∀ call call', both call call' →
      (∀ inner inner', alike inner inner' →
        EndAlike (Answers differ alike) (exec (nested level call.left call.right) inner)
          (exec (nested' level' call'.left call'.right) inner')) ∧
      ∀ final final', differ final final' →
        differ (final.extended (.subgraph call.name call.index :: via))
          (final'.extended (.subgraph call'.name call'.index :: via')))
    (hcalls : List.Forall₂ both (attributePlan left.attributes right.attributes).calls
      (attributePlan left'.attributes right'.attributes).calls)
    (hdifference : Option.Rel (fun difference difference' => ∀ final final', alike final final' →
      differ (final.rejected options (.attributes difference) via)
        (final'.rejected options' (.attributes difference') via'))
      (attributePlan left.attributes right.attributes).difference?
      (attributePlan left'.attributes right'.attributes).difference?)
    (halike : alike state state') :
    EndAlike (Answers differ alike) (exec (headsMatch options nested level left right via) state)
      (exec (headsMatch options' nested' level' left' right' via') state') := by
  rw [exec_headsMatch, exec_headsMatch]
  generalize nodeRule? left right = rule? at hrule
  generalize nodeRule? left' right' = rule?' at hrule
  cases hrule with
  | some hdiffer => exact .ended (.differed hdiffer)
  | none =>
      have hmade := makeCalls_alike (fun call call' hcall => (hboth call call' hcall).1) hcalls halike
      simp only
      rcases hexec : exec (makeCalls (nested level)
        (attributePlan left.attributes right.attributes).calls) state with ⟨outcome, inner⟩
      rcases hexec' : exec (makeCalls (nested' level')
        (attributePlan left'.attributes right'.attributes).calls) state' with ⟨outcome', inner'⟩
      rw [hexec, hexec'] at hmade
      cases hmade with
      | stopped => exact .stopped
      | ended hanswers =>
          cases hanswers with
          | failed hcall hdiffer =>
              exact .ended (.differed ((hboth _ _ hcall).2 _ _ hdiffer))
          | passed hinner =>
              simp only
              generalize (attributePlan left.attributes right.attributes).difference? = difference?
                at hdifference
              generalize (attributePlan left'.attributes right'.attributes).difference? =
                difference?' at hdifference
              cases hdifference with
              | some hdiffer => exact .ended (.differed (hdiffer _ _ hinner))
              | none => exact .ended (.matched hinner)

end Parts

section Descents

variable {options options' : CompareOptions} {differ alike : CompareState → CompareState → Prop}
  {same : Pending → Pending → Prop} {state state' : CompareState} {levels level level' : Nat}
  {via via' : List UseStep}

section Nodes

variable {nested nested' : NestedComparison} {left left' right right' : Nat} {scope scope' : Scope}

/-- Nodes that are not paired and match in lockstep, but for their inputs, are paired and lead to
these. -/
theorem freshStep_alike {leftNode leftNode' rightNode rightNode' : Node}
    (hfresh : FreshNodes state.stack level left right scope leftNode rightNode)
    (hfresh' : FreshNodes state'.stack level' left' right' scope' leftNode' rightNode')
    (hheads : EndAlike (Answers differ alike)
      (exec (headsMatch options nested level leftNode rightNode
        (.nodes level left right leftNode.opType :: via)) state)
      (exec (headsMatch options' nested' level' leftNode' rightNode'
        (.nodes level' left' right' leftNode'.opType :: via')) state'))
    (hlefts : leftNode.inputs.length = leftNode'.inputs.length)
    (hrights : rightNode.inputs.length = rightNode'.inputs.length)
    (hdiffer : ∀ inner inner', alike inner inner' →
      differ (inner.rejected options (.valueCount leftNode.inputs.length rightNode.inputs.length)
          (.nodes level left right leftNode.opType :: via))
        (inner'.rejected options' (.valueCount leftNode'.inputs.length rightNode'.inputs.length)
          (.nodes level' left' right' leftNode'.opType :: via')))
    (hpartner : ∀ inner inner', alike inner inner' → (inner.stack.partner? level left = none ↔
      inner'.stack.partner? level' left' = none))
    (hpair : ∀ inner inner', alike inner inner' →
      alike (inner.paired level left right) (inner'.paired level' left' right'))
    (hpending : List.Forall₂ same
      (pendingValues level leftNode.inputs rightNode.inputs
        (.nodes level left right leftNode.opType :: via))
      (pendingValues level' leftNode'.inputs rightNode'.inputs
        (.nodes level' left' right' leftNode'.opType :: via'))) :
    EndAlike (Leads same differ alike) (exec (nodeStep options nested level left right via) state)
      (exec (nodeStep options' nested' level' left' right' via') state') := by
  rw [exec_nodeStep_fresh hfresh, exec_nodeStep_fresh hfresh']
  refine hheads.bind fun answer inner answer' inner' hanswers => ?_
  cases hanswers with
  | differed hfinal => exact .ended (.failed hfinal)
  | matched hinner =>
      simp only [if_true, exec_bind, exec_valuesStep, ← hlefts, ← hrights]
      rw [← hlefts, ← hrights] at hdiffer
      by_cases hlength : leftNode.inputs.length = rightNode.inputs.length
      · have hiff := hpartner inner inner' hinner
        simp only [if_pos hlength, exec_bind, exec_pair]
        cases hnone : inner.stack.partner? level left with
        | none =>
            rw [hiff.mp hnone]
            exact .ended (.led hpending (hpair inner inner' hinner))
        | some partner =>
            cases hnone' : inner'.stack.partner? level' left' with
            | none => simp [hiff.mpr hnone'] at hnone
            | some partner' => exact .stopped
      · simp only [if_neg hlength]
        exact .ended (.failed (hdiffer inner inner' hinner))

/-- The steps of two nodes go on in lockstep if the left ones have corresponding partners, or if they
have none and the steps do so then. -/
theorem nodeStep_alike {partners : Nat → Nat → Prop} (hscope : state.stack.scope? level = some scope)
    (hscope' : state'.stack.scope? level' = some scope') (halike : alike state state')
    (hpartner : Option.Rel partners (scope.pairing.partner? left) (scope'.pairing.partner? left'))
    (hright : ∀ partner partner', partners partner partner' → (partner = right ↔ partner' = right'))
    (hdiffer : ∀ partner partner', partners partner partner' →
      differ (state.rejected options (.mappingConflict left partner right) via)
        (state'.rejected options' (.mappingConflict left' partner' right') via'))
    (hfresh : scope.pairing.partner? left = none → scope'.pairing.partner? left' = none →
      EndAlike (Leads same differ alike) (exec (nodeStep options nested level left right via) state)
        (exec (nodeStep options' nested' level' left' right' via') state')) :
    EndAlike (Leads same differ alike) (exec (nodeStep options nested level left right via) state)
      (exec (nodeStep options' nested' level' left' right' via') state') := by
  generalize hleft : scope.pairing.partner? left = partner? at hpartner hfresh
  generalize hleft' : scope'.pairing.partner? left' = partner?' at hpartner hfresh
  cases hpartner with
  | none => exact hfresh rfl rfl
  | @some partner partner' hpartners =>
      have hiff := hright partner partner' hpartners
      rw [exec_nodeStep_partner hscope hleft, exec_nodeStep_partner hscope' hleft']
      by_cases hsame : partner = right
      · rw [if_pos hsame, if_pos (hiff.mp hsame)]
        exact .ended (.led .nil halike)
      · rw [if_neg hsame, if_neg (mt hiff.mpr hsame)]
        exact .ended (.failed (hdiffer partner partner' hpartners))

end Nodes

/-- Descents go on in lockstep if their steps do. -/
theorem settle_alike {pending pending' : List Pending}
    (hstep : ∀ next next' inner inner', same next next' → alike inner inner' →
      EndAlike (Leads same differ alike)
        (exec (step options (compareNested options levels) next) inner)
        (exec (step options' (compareNested options' levels) next') inner'))
    (hpending : List.Forall₂ same pending pending') (halike : alike state state') :
    EndAlike (Answers differ alike) (exec (settle options levels pending) state)
      (exec (settle options' levels pending') state') := by
  -- by the steps that the first comparison can take
  generalize hbound : pendingWeight pending + 2 * state.stack.openInputs = bound
  induction bound using Nat.strongRecOn generalizing pending pending' state state' with
  | ind bound ih =>
      cases hpending with
      | nil =>
          rw [exec_settle_nil, exec_settle_nil]
          exact .ended (.matched halike)
      | @cons next next' rest rest' hnext hrest =>
          have hsteps := hstep next next' state state' hnext halike
          rw [exec_settle_cons, exec_settle_cons, exec_bind, exec_bind]
          rcases hexec : exec (step options (compareNested options levels) next) state with
            ⟨outcome, inner⟩
          rcases hexec' : exec (step options' (compareNested options' levels) next') state' with
            ⟨outcome', inner'⟩
          rw [hexec, hexec'] at hsteps
          cases hsteps with
          | stopped => exact .stopped
          | ended hleads =>
              cases hleads with
              | failed hdiffer => exact .ended (.differed hdiffer)
              | led hleads hinner =>
                  have hle := weight_le_of_exec_step hexec
                  refine ih _ ?_ (List.rel_append hleads hrest) hinner rfl
                  rw [pendingWeight_cons] at hbound
                  rw [pendingWeight_append]
                  omega

theorem compareOutputs_alike {lefts lefts' rights rights' : List String}
    (hstep : ∀ next next' inner inner', same next next' → alike inner inner' →
      EndAlike (Leads same differ alike)
        (exec (step options (compareNested options levels) next) inner)
        (exec (step options' (compareNested options' levels) next') inner'))
    (hlefts : lefts.length = lefts'.length) (hrights : rights.length = rights'.length)
    (hdiffer : differ (state.rejected options (.valueCount lefts.length rights.length) [])
      (state'.rejected options' (.valueCount lefts'.length rights'.length) []))
    (hpending : List.Forall₂ same (pendingValues level lefts rights [])
      (pendingValues level' lefts' rights' [])) (halike : alike state state') :
    EndAlike (Answers differ alike)
      (exec (compareOutputs options (compareNested options levels) level lefts rights) state)
      (exec (compareOutputs options' (compareNested options' levels) level' lefts' rights') state') := by
  rw [exec_compareOutputs_eq, exec_compareOutputs_eq, exec_bind, exec_bind, exec_valuesStep,
    exec_valuesStep]
  rw [← hlefts, ← hrights] at hdiffer ⊢
  by_cases hlength : lefts.length = rights.length
  · simp only [if_pos hlength]
    exact settle_alike hstep hpending halike
  · simp only [if_neg hlength]
    exact .ended (.differed hdiffer)

end Descents

end CompareM

end OpGraph
