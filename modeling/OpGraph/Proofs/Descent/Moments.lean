import OpGraph.Proofs.Descent.Commitments
import OpGraph.Proofs.Descent.Settling
import OpGraph.Proofs.Descent.Tracing

/-!
The moments of a comparison. At any moment there are a state, all that is pending in the innermost
descent, and the uses that this descent is about. What follows is the moment after one more step, or
the first moment of a descent into two nested graphs that the step makes. Either way less is left to
do: fewer descents may go on inside each other, or else what is pending weighs less.
-/

namespace OpGraph

open CompareM

namespace CompareM

/-- A rule fails for two bodies, before or after all that their outputs depend on is compared. -/
inductive BodiesBreak (options : CompareOptions) (levels : Nat) (all : Bool) (level : Nat)
    (lefts rights : List String) (state : CompareState) : CompareState → FailedRule → Prop where
  | outputCounts : lefts.length ≠ rights.length →
      BodiesBreak options levels all level lefts rights state state
        (.valueCount lefts.length rights.length)
  | unpaired {inner : CompareState} {scope : Scope} {rule : FailedRule} :
      exec (compareOutputs options (compareNested options levels) level lefts rights) state =
        (.ok true, inner) →
      all = true → inner.stack.scope? level = some scope → unpairedRule? scope = some rule →
      BodiesBreak options levels all level lefts rights state inner rule

/-- Two bodies differ, by a rule or in what their outputs depend on. -/
inductive BodiesFail (options : CompareOptions) (levels : Nat) (all : Bool) (level : Nat)
    (lefts rights : List String) (state : CompareState) : CompareState → Prop where
  | byRule {inner : CompareState} {rule : FailedRule} :
      BodiesBreak options levels all level lefts rights state inner rule →
      BodiesFail options levels all level lefts rights state (inner.rejected options rule [])
  | inOutputs {final : CompareState} : lefts.length = rights.length →
      exec (settle options levels (pendingValues level lefts rights [])) state =
        (.ok false, final) →
      BodiesFail options levels all level lefts rights state final

section Bodies

variable {options : CompareOptions} {levels level : Nat} {all : Bool} {lefts rights : List String}
  {state final : CompareState}

theorem BodiesFail.exec_eq
    (hfail : BodiesFail options levels all level lefts rights state final) :
    exec (matchBodies options levels all level lefts rights) state = (.ok false, final) := by
  rw [matchBodies, exec_bind]
  cases hfail with
  | byRule hbreak =>
      cases hbreak with
      | outputCounts hlength =>
          simp only [exec_compareOutputs_eq, exec_bind, exec_valuesStep, if_neg hlength]
          rfl
      | unpaired houtputs hall hscope hrule =>
          rw [houtputs, hall]
          simp only [if_true, exec_requireAllPaired, hscope, hrule]
  | inOutputs hlength hsettle =>
      simp only [exec_compareOutputs_eq, exec_bind, exec_valuesStep, if_pos hlength, hsettle]
      rfl

theorem bodiesFail_of_exec
    (hexec : exec (matchBodies options levels all level lefts rights) state = (.ok false, final)) :
    BodiesFail options levels all level lefts rights state final := by
  rw [matchBodies, exec_bind] at hexec
  rcases houtputs : exec (compareOutputs options (compareNested options levels) level lefts rights)
    state with ⟨error | matched, inner⟩
  · rw [houtputs] at hexec
    cases hexec
  · rw [houtputs] at hexec
    cases matched with
    | false =>
        cases hexec
        rw [exec_compareOutputs_eq, exec_bind, exec_valuesStep] at houtputs
        by_cases hlength : lefts.length = rights.length
        · rw [if_pos hlength] at houtputs
          exact .inOutputs hlength houtputs
        · rw [if_neg hlength] at houtputs
          cases houtputs
          exact .byRule (.outputCounts hlength)
    | true =>
        cases all with
        | false => cases hexec
        | true =>
            simp only [if_true, exec_requireAllPaired] at hexec
            cases hscope : inner.stack.scope? level with
            | none =>
                rw [hscope] at hexec
                cases hexec
            | some scope =>
                rw [hscope] at hexec
                cases hrule : unpairedRule? scope with
                | none =>
                    simp only [hrule] at hexec
                    cases hexec
                | some rule =>
                    simp only [hrule] at hexec
                    cases hexec
                    exact .byRule (.unpaired houtputs rfl hscope hrule)

theorem exec_compareBodies {scope : Scope} (hscope : state.stack.scope? level = some scope) :
    exec (compareBodies options (compareNested options levels) level) state =
      exec (matchBodies options levels options.pairAllNodes level scope.left.outputs
        scope.right.outputs) state := by
  simp only [compareBodies, exec_bind, exec_scopeAt, hscope, matchBodies]

/-- Two graphs with the same header are compared by their bodies, in a scope of their own. -/
theorem exec_nested {left right : Graph} (hheader : headerDifference? left right = none) :
    exec (compareNested options (levels + 1) level left right) state =
      ((exec (matchBodies options levels options.pairAllNodes state.stack.depth left.outputs
          right.outputs) (state.entered level left.body right.body)).1,
        (exec (matchBodies options levels options.pairAllNodes state.stack.depth left.outputs
          right.outputs) (state.entered level left.body right.body)).2.popped) := by
  rw [exec_compareNested hheader,
    exec_compareBodies (ScopeStack.scope?_push_depth state.stack level left.body right.body)]
  rfl

end Bodies

end CompareM

/-- A state, what is pending in the innermost descent, how many comparisons of nested graphs may
still go on inside each other, and the uses that this descent is about, the innermost first. -/
structure Moment where
  levels : Nat
  state : CompareState
  pending : List Pending
  around : List UseStep

namespace Moment

variable (options : CompareOptions)

/-- The step at hand is for two nodes and comes to the comparison of two of their graphs: at a level,
in a state, by these uses. -/
inductive Calls : Moment → Nat → GraphCall → CompareState → List UseStep → Prop where
  | made {levels level left right : Nat} {via around : List UseStep} {rest : List Pending}
      {state inner : CompareState} {scope : Scope} {leftNode rightNode : Node}
      {calls later : List GraphCall} {call : GraphCall} :
      FreshNodes state.stack level left right scope leftNode rightNode →
      nodeRule? leftNode rightNode = none →
      (attributePlan leftNode.attributes rightNode.attributes).calls = calls ++ call :: later →
      exec (makeCalls (compareNested options levels level) calls) state = (.ok none, inner) →
      Calls ⟨levels, state, .nodes level left right via :: rest, around⟩ level call inner
        (.subgraph call.name call.index :: .nodes level left right leftNode.opType ::
          (via ++ around))

/-- A moment comes right after another one: a step is done, or a descent into two nested graphs is
begun. -/
inductive Follows : Moment → Moment → Prop where
  | step {levels : Nat} {state inner : CompareState} {next : Pending} {rest leads : List Pending}
      {around : List UseStep} :
      exec (step options (compareNested options levels) next) state = (.ok (some leads), inner) →
      Follows ⟨levels, inner, leads ++ rest, around⟩ ⟨levels, state, next :: rest, around⟩
  | nested {moment : Moment} {levels level : Nat} {call : GraphCall} {inner : CompareState}
      {path : List UseStep} :
      moment.Calls options level call inner path → moment.levels = levels + 1 →
      headerDifference? call.left call.right = none →
      call.left.outputs.length = call.right.outputs.length →
      Follows ⟨levels, inner.entered level call.left.body call.right.body,
        pendingValues inner.stack.depth call.left.outputs call.right.outputs [], path⟩ moment

/-- What is left to do in the innermost descent. -/
def weight (moment : Moment) : Nat :=
  pendingWeight moment.pending + 2 * moment.state.stack.openInputs

variable {options} {moment next : Moment}

theorem Calls.grows {level : Nat} {call : GraphCall} {inner : CompareState} {path : List UseStep}
    (hcalls : moment.Calls options level call inner path) :
    moment.state.stack.Extends inner.stack := by
  obtain ⟨_, _, _, hexec⟩ := hcalls
  exact (callsRun_of_exec hexec).grows (nestedRun_grows options _)

/-- Each moment leaves less to do than the one before it. -/
theorem Follows.lex (hfollows : next.Follows options moment) :
    Prod.Lex (· < ·) (· < ·) (next.levels, next.weight) (moment.levels, moment.weight) := by
  cases hfollows with
  | step hexec =>
      have hle := weight_le_of_exec_step hexec
      refine .right _ ?_
      simp only [weight, pendingWeight_append, pendingWeight_cons]
      omega
  | nested _ hlevels _ _ =>
      refine .left _ _ ?_
      simp only [hlevels]
      omega

/-- There is no end of moments before any moment. -/
theorem wellFounded_follows (options : CompareOptions) :
    WellFounded (Moment.Follows options) :=
  Subrelation.wf (fun hfollows => hfollows.lex)
    (InvImage.wf (fun moment : Moment => (moment.levels, moment.weight))
      (WellFounded.prod_lex Nat.lt_wfRel.wf Nat.lt_wfRel.wf))

end Moment

namespace Operands

variable (options : CompareOptions)

/-- The moment at which all outputs of the operands are pending. -/
def first (operands : Operands) : Moment :=
  ⟨options.depthLimit, .initial operands.left operands.right,
    pendingValues 0 operands.left.outputs operands.right.outputs [], []⟩

/-- The comparison of the operands comes by a moment. -/
inductive Passes (operands : Operands) : Moment → Prop where
  | begins : operands.check options = .ok () → operands.openingRule? = none →
      operands.left.outputs.length = operands.right.outputs.length →
      Passes operands (operands.first options)
  | follows {moment next : Moment} : Passes operands moment → next.Follows options moment →
      Passes operands next

variable {options} {operands : Operands} {moment : Moment}

theorem Passes.check (hpasses : operands.Passes options moment) :
    operands.check options = .ok () := by
  induction hpasses with
  | begins hcheck _ _ => exact hcheck
  | follows _ _ ih => exact ih

/-- A comparison that comes by a moment does all that is pending then. -/
theorem Passes.reached (hpasses : operands.Passes options moment) :
    Reached options operands.left operands.right moment.levels moment.state moment.pending := by
  induction hpasses with
  | begins _ _ hlength => exact .outputs hlength
  | @follows moment next _ hfollows ih =>
      cases hfollows with
      | step hexec => exact ih.step hexec
      | nested hcalls hlevels hheader hlength =>
          obtain ⟨hfresh, hrule, hplan, hexec⟩ := hcalls
          obtain rfl : _ = _ + 1 := hlevels
          exact ih.nested hfresh hrule hplan hexec hheader hlength

end Operands

end OpGraph
