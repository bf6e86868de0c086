import OpGraph.Proofs.Descent.Moments

/-!
Comparisons that are cut short. The first of two comparisons may be given up, or may find that the
operands differ, where the second one goes on; up to there they do the same in the same states. A
comparison that is cut short in a part is cut short as a whole: what is around the part neither goes
on nor answers anything else.
-/

namespace OpGraph

namespace CompareM

/-- What may cut a comparison short: some errors, and that the operands are found to differ. -/
structure Cutoff where
  stops : CompareError → Prop
  differs : Prop

/-- A part of a comparison is cut short. Some of the values that it may give tell that the operands
differ. -/
def Cutoff.Ends {α : Type} (cutoff : Cutoff) (tells : α → Prop) : Outcome α → Prop
  | .error error => cutoff.stops error
  | .ok value => cutoff.differs ∧ tells value

/-- The first of two comparisons is cut short, or both end in the same way and the same state. -/
def CutShort {α : Type} (cutoff : Cutoff) (tells : α → Prop)
    (first second : Outcome α × CompareState) : Prop :=
  cutoff.Ends tells first.1 ∨ first = second

/-- From every state, the first of two comparisons of graphs in attributes is cut short, or it does
what the second one does. -/
def NestedCutShort (cutoff : Cutoff) (nested nested' : NestedComparison) : Prop :=
  ∀ level left right state, CutShort cutoff (· = false) (exec (nested level left right) state)
    (exec (nested' level left right) state)

section Rules

variable {α β : Type} {cutoff : Cutoff} {tells : α → Prop} {tells' : β → Prop} {state : CompareState}

theorem CutShort.refl (ends : Outcome α × CompareState) : CutShort cutoff tells ends ends :=
  Or.inr rfl

/-- What follows a part that tells of a difference has to tell of one too. -/
theorem CutShort.bind {first second : CompareM α} {next next' : α → CompareM β}
    (hfirst : CutShort cutoff tells (exec first state) (exec second state))
    (htells : ∀ value inner, tells value →
      ∃ value', tells' value' ∧ (exec (next value) inner).1 = .ok value')
    (hnext : ∀ value inner, exec first state = (.ok value, inner) →
      CutShort cutoff tells' (exec (next value) inner) (exec (next' value) inner)) :
    CutShort cutoff tells' (exec (first >>= next) state) (exec (second >>= next') state) := by
  rw [exec_bind, exec_bind]
  rcases hexec : exec first state with ⟨error | value, inner⟩
  · rw [hexec] at hfirst
    rcases hfirst with hstops | hsame
    · exact Or.inl hstops
    · rw [← hsame]
      exact .refl _
  · rw [hexec] at hfirst
    rcases hfirst with ⟨hdiffers, hvalue⟩ | hsame
    · obtain ⟨value', hvalue', houtcome⟩ := htells value inner hvalue
      left
      change cutoff.Ends tells' (exec (next value) inner).1
      rw [houtcome]
      exact ⟨hdiffers, hvalue'⟩
    · rw [← hsame]
      exact hnext value inner hexec

/-- After a part that is the same in both, the comparisons go on in the same state. -/
theorem CutShort.after {first : CompareM α} {next next' : α → CompareM β}
    (hnext : ∀ value inner, exec first state = (.ok value, inner) →
      CutShort cutoff tells' (exec (next value) inner) (exec (next' value) inner)) :
    CutShort cutoff tells' (exec (first >>= next) state) (exec (first >>= next') state) := by
  have hfirst : CutShort cutoff (fun _ => False) (exec first state) (exec first state) := .refl _
  exact hfirst.bind (fun _ _ hfalse => hfalse.elim) hnext

/-- If the first parts match, the second parts decide; if they differ, this is the answer. -/
theorem CutShort.andThen {first second next next' : CompareM Bool}
    (hfirst : CutShort cutoff (· = false) (exec first state) (exec second state))
    (hnext : ∀ inner, exec first state = (.ok true, inner) →
      CutShort cutoff (· = false) (exec next inner) (exec next' inner)) :
    CutShort cutoff (· = false) (exec (do if ← first then next else return false) state)
      (exec (do if ← second then next' else return false) state) := by
  refine hfirst.bind ?_ fun matched inner hexec => ?_
  · rintro _ inner rfl
    exact ⟨false, rfl, rfl⟩
  · cases matched with
    | false => exact .refl _
    | true => exact hnext inner hexec

/-- A comparison in a new scope is cut short if what it does there is. -/
theorem CutShort.inScope {parent : Nat} {left right : Body} {compare compare' : Nat → CompareM Bool}
    (hinner : CutShort cutoff (· = false)
      (exec (compare state.stack.depth) (state.entered parent left right))
      (exec (compare' state.stack.depth) (state.entered parent left right))) :
    CutShort cutoff (· = false) (exec (CompareM.inScope parent left right compare) state)
      (exec (CompareM.inScope parent left right compare') state) := by
  rw [exec_inScope, exec_inScope]
  rcases hinner with hends | hsame
  · exact Or.inl hends
  · rw [hsame]
    exact .refl _

end Rules

section Parts

variable {cutoff : Cutoff} {nested nested' : NestedComparison} {options : CompareOptions}
  {level : Nat} {state : CompareState}

theorem makeCalls_cutShort (hnested : NestedCutShort cutoff nested nested')
    (calls : List GraphCall) :
    CutShort cutoff (· ≠ none) (exec (makeCalls (nested level) calls) state)
      (exec (makeCalls (nested' level) calls) state) := by
  induction calls generalizing state with
  | nil => exact .refl _
  | cons call calls ih =>
      refine (hnested level call.left call.right state).bind ?_ fun matched inner _ => ?_
      · rintro _ inner rfl
        exact ⟨some call, Option.some_ne_none _, rfl⟩
      · cases matched with
        | false => exact .refl _
        | true => exact ih

theorem compareAttributes_cutShort (hnested : NestedCutShort cutoff nested nested')
    (lefts rights : List Attribute) :
    CutShort cutoff (· ≠ none) (exec (compareAttributes (nested level) lefts rights) state)
      (exec (compareAttributes (nested' level) lefts rights) state) := by
  rw [compareAttributes_eq, compareAttributes_eq, followPlan, followPlan]
  refine (makeCalls_cutShort hnested _).bind ?_ fun failed inner _ => .refl _
  intro failed inner hfailed
  obtain ⟨call, rfl⟩ := Option.ne_none_iff_exists'.mp hfailed
  exact ⟨some (.subgraph call.name call.index), Option.some_ne_none _, rfl⟩

theorem headsMatch_cutShort (hnested : NestedCutShort cutoff nested nested') (left right : Node)
    (via : List UseStep) :
    CutShort cutoff (· = false) (exec (headsMatch options nested level left right via) state)
      (exec (headsMatch options nested' level left right via) state) := by
  unfold headsMatch
  by_cases htype : left.opType = right.opType
  · by_cases hdomain : left.domain = right.domain
    · simp only [htype, hdomain, ne_eq, not_true_eq_false, if_false]
      refine (compareAttributes_cutShort hnested _ _).bind ?_ fun difference? inner _ => .refl _
      intro difference? inner hsome
      obtain ⟨difference, rfl⟩ := Option.ne_none_iff_exists'.mp hsome
      cases difference <;> exact ⟨false, rfl, rfl⟩
    · simp only [htype, hdomain, ne_eq, not_true_eq_false, not_false_eq_true, if_false, if_true]
      exact .refl _
  · simp only [htype, ne_eq, not_false_eq_true, if_true]
    exact .refl _

theorem nodeStep_cutShort (hnested : NestedCutShort cutoff nested nested') (left right : Nat)
    (via : List UseStep) :
    CutShort cutoff (· = none) (exec (nodeStep options nested level left right via) state)
      (exec (nodeStep options nested' level left right via) state) := by
  rw [nodeStep_eq, nodeStep_eq]
  refine .after fun scope inner _ => ?_
  cases scope.pairing.partner? left with
  | some partner => exact .refl _
  | none =>
      refine .after fun leftNode inner _ => .after fun rightNode inner _ => ?_
      refine (headsMatch_cutShort hnested leftNode rightNode _).bind ?_ fun matched inner _ => ?_
      · rintro _ inner rfl
        exact ⟨none, rfl, rfl⟩
      · exact .refl _

theorem step_cutShort (hnested : NestedCutShort cutoff nested nested') (next : Pending) :
    CutShort cutoff (· = none) (exec (step options nested next) state)
      (exec (step options nested' next) state) := by
  cases next with
  | values level left right via => exact .refl _
  | nodes level left right via => exact nodeStep_cutShort hnested left right via

/-- A descent is cut short if one of its steps is. -/
theorem drain_cutShort (hnested : NestedCutShort cutoff nested nested') (steps : Nat)
    (pending : List Pending) :
    CutShort cutoff (· = false) (exec (drain options nested steps pending) state)
      (exec (drain options nested' steps pending) state) := by
  induction steps generalizing pending state with
  | zero =>
      cases pending with
      | nil => exact .refl _
      | cons next rest => exact .refl _
  | succ steps ih =>
      cases pending with
      | nil => exact .refl _
      | cons next rest =>
          rw [drain, drain]
          refine (step_cutShort hnested next).bind ?_ fun leads? inner _ => ?_
          · rintro _ inner rfl
            exact ⟨false, rfl, rfl⟩
          · cases leads? with
            | none => exact .refl _
            | some leads => exact ih (leads ++ rest)

theorem compareOutputs_cutShort (hnested : NestedCutShort cutoff nested nested')
    (lefts rights : List String) :
    CutShort cutoff (· = false) (exec (compareOutputs options nested level lefts rights) state)
      (exec (compareOutputs options nested' level lefts rights) state) := by
  rw [compareOutputs, compareOutputs]
  refine .after fun pending? inner _ => ?_
  cases pending? with
  | none => exact .refl _
  | some pending => exact .after fun current inner _ => drain_cutShort hnested _ pending

theorem underHeaders_cutShort {left right : Graph} {compare compare' : CompareM Bool}
    (hcompare : CutShort cutoff (· = false) (exec compare state) (exec compare' state)) :
    CutShort cutoff (· = false) (exec (underHeaders options left right compare) state)
      (exec (underHeaders options left right compare') state) := by
  rw [underHeaders, underHeaders]
  cases headerDifference? left right with
  | some rule => exact .refl _
  | none => exact hcompare

end Parts

section Options

variable {options options' : CompareOptions}

/-- Of the options, a step reads only whether a difference is recorded. -/
theorem step_congr (htrace : options.trace = options'.trace) : step options = step options' := by
  cases options
  cases options'
  cases htrace
  rfl

theorem drain_congr (htrace : options.trace = options'.trace) (nested : NestedComparison)
    (steps : Nat) (pending : List Pending) :
    drain options nested steps pending = drain options' nested steps pending := by
  induction steps generalizing pending with
  | zero => cases pending <;> rfl
  | succ steps ih =>
      cases pending with
      | nil => rfl
      | cons next rest =>
          rw [drain, drain, step_congr htrace]
          refine bind_congr fun leads? => ?_
          cases leads? with
          | none => rfl
          | some leads => exact ih (leads ++ rest)

theorem valuesStep_congr (htrace : options.trace = options'.trace) :
    valuesStep options = valuesStep options' := by
  cases options
  cases options'
  cases htrace
  rfl

theorem compareOutputs_congr (htrace : options.trace = options'.trace) (nested : NestedComparison)
    (level : Nat) (lefts rights : List String) :
    compareOutputs options nested level lefts rights =
      compareOutputs options' nested level lefts rights := by
  rw [compareOutputs, compareOutputs, valuesStep_congr htrace]
  refine bind_congr fun pending? => ?_
  cases pending? with
  | none => rfl
  | some pending => exact bind_congr fun current => drain_congr htrace nested _ pending

theorem requireAllPaired_congr (htrace : options.trace = options'.trace) :
    requireAllPaired options = requireAllPaired options' := by
  cases options
  cases options'
  cases htrace
  rfl

theorem underHeaders_congr (htrace : options.trace = options'.trace) :
    underHeaders options = underHeaders options' := by
  cases options
  cases options'
  cases htrace
  rfl

end Options

end CompareM

end OpGraph
