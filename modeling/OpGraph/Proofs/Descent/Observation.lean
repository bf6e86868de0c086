import OpGraph.Proofs.Descent.Failures
import OpGraph.Proofs.Descent.Lockstep

/-!
To record why operands differ changes nothing but what is recorded. Comparisons with and without it go
on in lockstep with the same scopes: no part of a comparison reads what was recorded, nor the uses
that it is recorded with. If it is wanted, what is recorded is the first rule that fails.
-/

namespace OpGraph

namespace CompareM

/-- The same value, with the same scopes. -/
def Same {α : Type} (value : α) (state : CompareState) (value' : α) (state' : CompareState) : Prop :=
  value = value' ∧ state.stack = state'.stack

/-- The same answer; if it is that the operands match, with the same scopes. -/
abbrev AnswersAlike : Outcome Bool × CompareState → Outcome Bool × CompareState → Prop :=
  EndAlike (Answers (fun _ _ => True) fun state state' => state.stack = state'.stack)

/-- The same further comparisons, with the same scopes, or none as the operands differ. -/
abbrev SameLeads : Outcome (Option (List Pending)) × CompareState →
    Outcome (Option (List Pending)) × CompareState → Prop :=
  EndAlike (Leads Eq (fun _ _ => True) fun state state' => state.stack = state'.stack)

section Tracing

variable {options : CompareOptions} {trace : Bool} {levels level : Nat} {state state' : CompareState}

theorem scopeAt_same (hstack : state.stack = state'.stack) :
    EndAlike Same (exec (scopeAt level) state) (exec (scopeAt level) state') := by
  rw [exec_scopeAt, exec_scopeAt, hstack]
  cases state'.stack.scope? level with
  | none => exact .stopped
  | some scope => exact .ended ⟨rfl, hstack⟩

theorem nodeAt_same {body : Body} {index : Nat} (hstack : state.stack = state'.stack) :
    EndAlike Same (exec (nodeAt level body index) state) (exec (nodeAt level body index) state') := by
  rw [exec_nodeAt, exec_nodeAt]
  cases body.nodes[index]? with
  | none => exact .stopped
  | some node => exact .ended ⟨rfl, hstack⟩

theorem requireAllPaired_same (hstack : state.stack = state'.stack) :
    AnswersAlike (exec (requireAllPaired options level) state)
      (exec (requireAllPaired (options.withTrace trace) level) state') := by
  rw [exec_requireAllPaired, exec_requireAllPaired, hstack]
  cases state'.stack.scope? level with
  | none => exact .stopped
  | some scope =>
      simp only
      cases unpairedRule? scope with
      | some rule => exact .ended (.differed trivial)
      | none => exact .ended (.matched hstack)

theorem valueStep_same {left right : String} {via : List UseStep}
    (hstack : state.stack = state'.stack) :
    SameLeads (exec (valueStep options level left right via) state)
      (exec (valueStep (options.withTrace trace) level left right via) state') := by
  rw [exec_valueStep, exec_valueStep, hstack]
  rcases state'.stack.lookupOutward? left right level level with _ | ⟨found, lookup⟩
  · exact .stopped
  · simp only
    cases lookupRule? left right lookup with
    | some rule => exact .ended (.failed trivial)
    | none => exact .ended (.led (List.forall₂_same.mpr fun _ _ => rfl) hstack)

/-- Graphs in attributes are compared in the same way. -/
def SameGraphs (options options' : CompareOptions) (levels : Nat) : Prop :=
  ∀ ⦃level : Nat⦄ ⦃left right : Graph⦄ ⦃state state' : CompareState⦄, state.stack = state'.stack →
    AnswersAlike (exec (compareNested options levels level left right) state)
      (exec (compareNested options' levels level left right) state')

theorem headsMatch_same (hgraphs : SameGraphs options (options.withTrace trace) levels)
    {left right : Node} {via : List UseStep} (hstack : state.stack = state'.stack) :
    AnswersAlike (exec (headsMatch options (compareNested options levels) level left right via) state)
      (exec (headsMatch (options.withTrace trace) (compareNested (options.withTrace trace) levels)
        level left right via) state') := by
  rw [exec_headsMatch, exec_headsMatch]
  cases nodeRule? left right with
  | some rule => exact .ended (.differed trivial)
  | none =>
      have hcalls : EndAlike (CallAnswers Eq (fun _ _ => True)
          fun inner inner' => inner.stack = inner'.stack)
          (exec (makeCalls (compareNested options levels level)
            (attributePlan left.attributes right.attributes).calls) state)
          (exec (makeCalls (compareNested (options.withTrace trace) levels level)
            (attributePlan left.attributes right.attributes).calls) state') := by
        refine makeCalls_alike ?_ (List.forall₂_same.mpr fun _ _ => rfl) hstack
        rintro call _ rfl inner inner' hinner
        exact hgraphs hinner
      simp only
      rcases hexec : exec (makeCalls (compareNested options levels level)
        (attributePlan left.attributes right.attributes).calls) state with ⟨outcome, inner⟩
      rcases hexec' : exec (makeCalls (compareNested (options.withTrace trace) levels level)
        (attributePlan left.attributes right.attributes).calls) state' with ⟨outcome', inner'⟩
      rw [hexec, hexec'] at hcalls
      cases hcalls with
      | stopped => exact .stopped
      | ended hanswers =>
          cases hanswers with
          | failed _ _ => exact .ended (.differed trivial)
          | passed hinner =>
              simp only
              cases (attributePlan left.attributes right.attributes).difference? with
              | some difference => exact .ended (.differed trivial)
              | none => exact .ended (.matched hinner)

theorem nodeStep_same (hgraphs : SameGraphs options (options.withTrace trace) levels)
    {left right : Nat} {via : List UseStep} (hstack : state.stack = state'.stack) :
    SameLeads (exec (nodeStep options (compareNested options levels) level left right via) state)
      (exec (nodeStep (options.withTrace trace) (compareNested (options.withTrace trace) levels)
        level left right via) state') := by
  rw [nodeStep_eq, nodeStep_eq]
  refine (scopeAt_same hstack).bind fun scope inner _ inner' ⟨hscope, hinner⟩ => ?_
  subst hscope
  cases scope.pairing.partner? left with
  | some partner =>
      by_cases hright : partner = right
      · simp only [if_pos hright]
        exact .ended (.led .nil hinner)
      · simp only [if_neg hright]
        exact .ended (.failed trivial)
  | none =>
      refine (nodeAt_same hinner).bind fun leftNode inner _ inner' ⟨hleft, hinner⟩ => ?_
      subst hleft
      refine (nodeAt_same hinner).bind fun rightNode inner _ inner' ⟨hright, hinner⟩ => ?_
      subst hright
      refine (headsMatch_same hgraphs hinner).bind fun answer inner answer' inner' hanswers => ?_
      cases hanswers with
      | differed _ => exact .ended (.failed trivial)
      | matched hinner =>
          simp only [if_true, exec_bind, exec_valuesStep]
          by_cases hlength : leftNode.inputs.length = rightNode.inputs.length
          · simp only [if_pos hlength, exec_bind, exec_pair, hinner]
            cases inner'.stack.partner? level left with
            | some partner => exact .stopped
            | none =>
                refine .ended (.led (List.forall₂_same.mpr fun _ _ => rfl) ?_)
                exact congrArg (·.pair level left right) hinner
          · simp only [if_neg hlength]
            exact .ended (.failed trivial)

theorem step_same (hgraphs : SameGraphs options (options.withTrace trace) levels) (next : Pending)
    (hstack : state.stack = state'.stack) :
    SameLeads (exec (step options (compareNested options levels) next) state)
      (exec (step (options.withTrace trace) (compareNested (options.withTrace trace) levels) next)
        state') := by
  cases next with
  | values level left right via => exact valueStep_same hstack
  | nodes level left right via => exact nodeStep_same hgraphs hstack

theorem matchBodies_same (hgraphs : SameGraphs options (options.withTrace trace) levels)
    {all : Bool} {lefts rights : List String} (hstack : state.stack = state'.stack) :
    AnswersAlike (exec (matchBodies options levels all level lefts rights) state)
      (exec (matchBodies (options.withTrace trace) levels all level lefts rights) state') := by
  have houtputs : AnswersAlike
      (exec (compareOutputs options (compareNested options levels) level lefts rights) state)
      (exec (compareOutputs (options.withTrace trace)
        (compareNested (options.withTrace trace) levels) level lefts rights) state') := by
    refine compareOutputs_alike ?_ rfl rfl trivial (List.forall₂_same.mpr fun _ _ => rfl) hstack
    rintro next _ inner inner' rfl hinner
    exact step_same hgraphs next hinner
  refine houtputs.andThen fun inner inner' hinner => ?_
  cases all with
  | false => exact .ended (.matched hinner)
  | true => exact requireAllPaired_same hinner

theorem compareNested_same (options : CompareOptions) (trace : Bool) (levels : Nat) :
    SameGraphs options (options.withTrace trace) levels := by
  have hheader : ∀ (left right : Graph), Option.Rel (fun _ _ => True)
      (headerDifference? left right) (headerDifference? left right) := by
    intro left right
    cases headerDifference? left right with
    | none => exact .none
    | some rule => exact .some trivial
  induction levels with
  | zero =>
      intro level left right state state' hstack
      exact underHeaders_alike (hheader left right) fun _ => .stopped
  | succ levels ih =>
      intro level left right state state' hstack
      refine underHeaders_alike (hheader left right) fun _ => ?_
      have hentered : (state.entered level left.body right.body).stack =
          (state'.entered level left.body right.body).stack :=
        congrArg (·.push level left.body right.body) hstack
      have hbodies : AnswersAlike
          (exec (compareBodies options (compareNested options levels) state.stack.depth)
            (state.entered level left.body right.body))
          (exec (compareBodies (options.withTrace trace)
            (compareNested (options.withTrace trace) levels) state'.stack.depth)
            (state'.entered level left.body right.body)) := by
        rw [exec_compareBodies (ScopeStack.scope?_push_depth _ _ _ _),
          exec_compareBodies (ScopeStack.scope?_push_depth _ _ _ _), hstack]
        exact matchBodies_same ih hentered
      exact hbodies.inScope (fun _ _ _ => trivial) fun _ _ hfinal => congrArg ScopeStack.pop hfinal

end Tracing

end CompareM

open CompareM

theorem CompareOptions.checkOperands_withTrace (options : CompareOptions) (trace : Bool) :
    (options.withTrace trace).checkOperands = options.checkOperands := by
  funext left right
  rfl

namespace Operands

variable {options : CompareOptions} {operands : Operands}

theorem ending_same (options : CompareOptions) (operands : Operands) (trace : Bool) :
    AnswersAlike (operands.ending options) (operands.ending (options.withTrace trace)) := by
  rw [ending, ending, run, run]
  cases operands.openingRule? with
  | some rule => exact .ended (.differed trivial)
  | none => exact matchBodies_same (compareNested_same options trace options.depthLimit) rfl

theorem compare_same (options : CompareOptions) (operands : Operands) (trace : Bool) :
    (operands.compare (options.withTrace trace)).map Verdict.pairing? =
      (operands.compare options).map Verdict.pairing? := by
  have hcheck : operands.check (options.withTrace trace) = operands.check options := by
    cases operands with
    | functions left right => rw [check, check, CompareOptions.checkOperands_withTrace]
    | graphs left right => rw [check, check, CompareOptions.checkOperands_withTrace]
  have hending := operands.ending_same options trace
  rw [compare_eq, compare_eq, hcheck]
  cases operands.check options with
  | error failure =>
      -- neither side gets to its ending
      change Except.map _ (Except.error failure) = Except.map _ (Except.error failure)
      rfl
  | ok _ =>
      rcases hexec : operands.ending options with ⟨outcome, final⟩
      rcases hexec' : operands.ending (options.withTrace trace) with ⟨outcome', final'⟩
      rw [hexec, hexec'] at hending
      cases hending with
      | stopped => rfl
      | ended hanswers =>
          cases hanswers with
          | differed _ => rfl
          | @matched final final' hstack =>
              exact congrArg (fun stack : ScopeStack => Except.ok (some stack.root.pairing))
                hstack.symm

/-- Recording why operands differ does not change whether they do. What is recorded is the first rule
that fails, once and for all. -/
structure Observed (options : CompareOptions) (operands : Operands) : Prop where
  /-- There is the same error, the same pairing or the same answer that the operands differ, whether
  this is recorded or not. -/
  same : ∀ trace, (operands.compare (options.withTrace trace)).map Verdict.pairing? =
    (operands.compare options).map Verdict.pairing?
  /-- A verdict that the operands differ says why if this is wanted, and only then. -/
  recorded : ∀ difference?, operands.compare options = .ok (.different difference?) →
    difference?.isSome = options.trace
  /-- Nothing is recorded at any moment at which the comparison goes on. -/
  unmarked : ∀ moment, operands.Passes options moment → moment.state.difference = none
  /-- Once a rule fails, the verdict is that the operands differ by this rule; before it nothing was
  recorded, and nothing takes its place. -/
  first : ∀ broken rule path, operands.Breaks options broken rule path →
    broken.difference = none ∧ operands.compare options =
      .ok (.different (if options.trace then some ⟨rule, path⟩ else none))
  /-- If the operands differ, some rule fails. -/
  broken : ∀ difference?, operands.compare options = .ok (.different difference?) →
    ∃ broken rule path, operands.Breaks options broken rule path
  /-- If the operands are equivalent, no rule fails and nothing is recorded in the end. -/
  clean : ∀ pairing, operands.compare options = .ok (.equivalent pairing) →
    (operands.ending options).2.difference = none ∧
      ∀ broken rule path, ¬ operands.Breaks options broken rule path

end Operands

/-- Whatever the operands are, to record why they differ does not change whether they do, and what is
recorded is the first rule that fails. -/
theorem compare_observed (options : CompareOptions) (operands : Operands) :
    operands.Observed options where
  same := operands.compare_same options
  recorded difference? hcompare := by
    obtain ⟨broken, rule, path, hbreaks⟩ := Operands.exists_breaks_of_compare hcompare
    rw [hbreaks.compare_eq.2, Except.ok.injEq, Verdict.different.injEq] at hcompare
    rw [← hcompare]
    cases options.trace <;> rfl
  unmarked _ hpasses := hpasses.difference_eq_none
  first _ _ _ hbreaks := hbreaks.compare_eq
  broken _ hcompare := Operands.exists_breaks_of_compare hcompare
  clean pairing hcompare := by
    obtain ⟨_, matched, houtcome, hverdict⟩ := Operands.ending_of_compare hcompare
    obtain ⟨rfl, _⟩ := CompareState.verdict_eq_equivalent.mp hverdict
    refine ⟨Operands.ending_difference_eq_none houtcome, fun broken rule path hbreaks => ?_⟩
    rw [hbreaks.compare_eq.2] at hcompare
    cases hcompare

end OpGraph
