import OpGraph.Proofs.Descent.Moments

/-!
Where comparisons fail. Each way in which operands may be told apart is a rule that fails at some
moment, in a state and after some uses. Nothing is recorded as long as no rule has failed. Once one
fails, every part of the comparison ends, from the innermost to the outermost; on the way out nothing
but the uses is added to what was recorded. So a verdict that operands differ is about the first rule
that fails, with all uses that lead there.
-/

namespace OpGraph

open CompareM

namespace CompareState

@[simp] theorem difference_paired (state : CompareState) (level left right : Nat) :
    (state.paired level left right).difference = state.difference := rfl

@[simp] theorem difference_popped (state : CompareState) :
    state.popped.difference = state.difference := rfl

@[simp] theorem extended_nil (state : CompareState) : state.extended [] = state := by
  obtain ⟨stack, difference⟩ := state
  cases difference <;> simp [extended]

theorem extended_append (state : CompareState) (path path' : List UseStep) :
    (state.extended path).extended path' = state.extended (path ++ path') := by
  obtain ⟨stack, difference⟩ := state
  cases difference <;> simp [extended]

/-- The first rule that fails is recorded if this is wanted. -/
theorem difference_rejected_of_none {state : CompareState} (hnone : state.difference = none)
    (options : CompareOptions) (rule : FailedRule) (path : List UseStep) :
    (state.rejected options rule path).difference =
      if options.trace then some ⟨rule, path⟩ else none := by
  rw [rejected, hnone]
  cases options.trace <;> simp [hnone]

theorem difference_extended_of_eq {state : CompareState} {recorded : Bool} {rule : FailedRule}
    {path : List UseStep}
    (hdifference : state.difference = if recorded then some ⟨rule, path⟩ else none)
    (path' : List UseStep) :
    (state.extended path').difference =
      if recorded then some ⟨rule, path ++ path'⟩ else none := by
  rw [extended, hdifference]
  cases recorded <;> rfl

end CompareState

namespace CompareM

section Unmarked

/-- A comparison of graphs that ends well records no difference. -/
def Unmarking (relation : NestedRelation) : Prop :=
  ∀ ⦃level : Nat⦄ ⦃left right : Graph⦄ ⦃state final : CompareState⦄,
    relation level left right state (.ok true) final → final.difference = state.difference

variable {options : CompareOptions} {relation : NestedRelation} {state final : CompareState}

theorem CallsRun.difference_eq (hunmarking : Unmarking relation) {level : Nat}
    {calls : List GraphCall} {outcome : Outcome (Option GraphCall)}
    (hrun : CallsRun relation level calls state outcome final) (houtcome : outcome = .ok none) :
    final.difference = state.difference := by
  induction hrun with
  | finished => rfl
  | matched hcall _ ih => exact (ih houtcome).trans (hunmarking hcall)
  | differed _ => cases houtcome
  | stopped _ => cases houtcome

theorem StepRun.difference_eq (hunmarking : Unmarking relation) {next : Pending}
    {leads : List Pending} (hrun : StepRun options relation state next (.ok (some leads)) final) :
    final.difference = state.difference := by
  cases hrun with
  | namesLead _ _ => rfl
  | partners _ _ => rfl
  | nodesPaired _ _ hcalls _ _ =>
      rw [CompareState.difference_paired]
      exact hcalls.difference_eq hunmarking rfl

theorem DrainRun.difference_eq (hunmarking : Unmarking relation) {pending : List Pending}
    {outcome : Outcome Bool} (hrun : DrainRun options relation state pending outcome final)
    (houtcome : outcome = .ok true) : final.difference = state.difference := by
  induction hrun with
  | finished => rfl
  | failed _ => cases houtcome
  | stopped _ => cases houtcome
  | continued hstep _ ih => exact (ih houtcome).trans (hstep.difference_eq hunmarking)

theorem OutputsRun.difference_eq (hunmarking : Unmarking relation) {level : Nat}
    {lefts rights : List String}
    (hrun : OutputsRun options relation level lefts rights state (.ok true) final) :
    final.difference = state.difference := by
  cases hrun with
  | drained _ hdrain => exact hdrain.difference_eq hunmarking rfl

theorem PairedRun.difference_eq {level : Nat} (hrun : PairedRun options level state (.ok true) final) :
    final.difference = state.difference := by
  cases hrun with
  | passed _ _ => rfl

theorem BodiesRun.difference_eq (hunmarking : Unmarking relation) {level : Nat}
    (hrun : BodiesRun options relation level state (.ok true) final) :
    final.difference = state.difference := by
  cases hrun with
  | failed _ _ hfailed => exact absurd rfl hfailed
  | matched _ houtputs _ => exact houtputs.difference_eq hunmarking
  | checked _ houtputs _ hpaired =>
      exact hpaired.difference_eq.trans (houtputs.difference_eq hunmarking)

theorem nestedRun_unmarking (options : CompareOptions) (levels : Nat) :
    Unmarking (NestedRun options levels) := by
  induction levels with
  | zero =>
      intro level left right state final hrun
      rcases hrun with _ | ⟨_, houtcome, _⟩
      cases houtcome
  | succ levels ih =>
      intro level left right state final hrun
      rcases hrun with _ | ⟨_, inner, hbodies, rfl⟩
      have hinner := hbodies.difference_eq ih
      exact hinner

theorem BodiesBreak.grows {levels level : Nat} {all : Bool} {lefts rights : List String}
    {broken : CompareState} {rule : FailedRule}
    (hbreak : BodiesBreak options levels all level lefts rights state broken rule) :
    state.stack.Extends broken.stack := by
  cases hbreak with
  | outputCounts _ => exact ScopeStack.Extends.refl _
  | unpaired houtputs _ _ _ =>
      exact (outputsRun_of_exec houtputs).grows (nestedRun_grows options levels)

theorem BodiesBreak.difference_eq {levels level : Nat} {all : Bool} {lefts rights : List String}
    {broken : CompareState} {rule : FailedRule}
    (hbreak : BodiesBreak options levels all level lefts rights state broken rule) :
    broken.difference = state.difference := by
  cases hbreak with
  | outputCounts _ => rfl
  | unpaired houtputs _ _ _ =>
      exact (outputsRun_of_exec houtputs).difference_eq (nestedRun_unmarking options levels)

theorem matchBodies_difference_eq {levels level : Nat} {all : Bool} {lefts rights : List String}
    (hexec : exec (matchBodies options levels all level lefts rights) state = (.ok true, final)) :
    final.difference = state.difference := by
  rw [matchBodies, exec_bind] at hexec
  rcases houtputs : exec (compareOutputs options (compareNested options levels) level lefts rights)
    state with ⟨error | matched, inner⟩ <;> rw [houtputs] at hexec
  · cases hexec
  · cases matched with
    | false => cases hexec
    | true =>
        have hinner :=
          (outputsRun_of_exec houtputs).difference_eq (nestedRun_unmarking options levels)
        cases all with
        | false =>
            cases hexec
            exact hinner
        | true =>
            have hpaired := requireAllPaired_run options level inner
            simp only [if_true] at hexec
            rw [hexec] at hpaired
            exact hpaired.difference_eq.trans hinner

end Unmarked

section Calls

variable {nested : NestedComparison} {level : Nat} {state inner final : CompareState}
  {calls later : List GraphCall} {call : GraphCall}

/-- If one of the calls fails after all before it have succeeded, it is the one that is given. -/
theorem exec_makeCalls_of_failed
    (hcalls : exec (makeCalls (nested level) calls) state = (.ok none, inner))
    (hcall : exec (nested level call.left call.right) inner = (.ok false, final)) :
    exec (makeCalls (nested level) (calls ++ call :: later)) state = (.ok (some call), final) := by
  rw [makeCalls_append, exec_bind, hcalls]
  simp only [makeCalls, exec_bind, hcall]
  rfl

/-- The calls before the one that fails succeed. -/
theorem failed_of_exec_makeCalls
    (hcalls : exec (makeCalls (nested level) calls) state = (.ok (some call), final)) :
    ∃ before later inner, calls = before ++ call :: later ∧
      exec (makeCalls (nested level) before) state = (.ok none, inner) ∧
      exec (nested level call.left call.right) inner = (.ok false, final) := by
  induction calls generalizing state with
  | nil => cases hcalls
  | cons first calls ih =>
      rw [makeCalls, exec_bind] at hcalls
      rcases hfirst : exec (nested level first.left first.right) state with ⟨error | matched, middle⟩
      · rw [hfirst] at hcalls
        cases hcalls
      · rw [hfirst] at hcalls
        cases matched with
        | false =>
            cases hcalls
            exact ⟨[], calls, state, rfl, rfl, hfirst⟩
        | true =>
            obtain ⟨before, later, inner, rfl, hbefore, hcall⟩ := ih hcalls
            refine ⟨first :: before, later, inner, rfl, ?_, hcall⟩
            rw [makeCalls, exec_bind, hfirst]
            exact hbefore

end Calls

section Graphs

variable {options : CompareOptions}

/-- If the bodies of two graphs differ, so do the graphs. -/
theorem exec_nested_of_fail {levels level : Nat} {left right : Graph} {state final : CompareState}
    (hheader : headerDifference? left right = none)
    (hfail : BodiesFail options levels options.pairAllNodes state.stack.depth left.outputs
      right.outputs (state.entered level left.body right.body) final) :
    exec (compareNested options (levels + 1) level left right) state =
      (.ok false, final.popped) := by
  rw [exec_nested hheader, hfail.exec_eq]

theorem exec_nested_of_header {levels : Nat} {left right : Graph} {state : CompareState}
    {rule : FailedRule} (hheader : headerDifference? left right = some rule) :
    exec (compareNested options levels level left right) state =
      (.ok false, state.rejected options rule []) := by
  cases levels <;>
    · rw [compareNested, underHeaders, hheader]
      rfl

end Graphs

end CompareM

namespace Moment

variable (options : CompareOptions)

/-- A rule fails at a moment, in a state and after some uses, the innermost first: for two names, for
two nodes, for the headers of two of their graphs or for the bodies of these. -/
inductive Breaks : Moment → CompareState → FailedRule → List UseStep → Prop where
  | names {levels level found : Nat} {left right : String} {via around : List UseStep}
      {rest : List Pending} {state : CompareState} {lookup : Lookup} {rule : FailedRule} :
      state.stack.lookupOutward? left right level level = some (found, lookup) →
      lookupRule? left right lookup = some rule →
      Breaks ⟨levels, state, .values level left right via :: rest, around⟩ state rule (via ++ around)
  | partner {levels level left right partner : Nat} {via around : List UseStep}
      {rest : List Pending} {state : CompareState} {scope : Scope} :
      state.stack.scope? level = some scope → scope.pairing.partner? left = some partner →
      partner ≠ right →
      Breaks ⟨levels, state, .nodes level left right via :: rest, around⟩ state
        (.mappingConflict left partner right) (via ++ around)
  | nodes {levels level left right : Nat} {via around : List UseStep} {rest : List Pending}
      {state : CompareState} {scope : Scope} {leftNode rightNode : Node} {rule : FailedRule} :
      FreshNodes state.stack level left right scope leftNode rightNode →
      nodeRule? leftNode rightNode = some rule →
      Breaks ⟨levels, state, .nodes level left right via :: rest, around⟩ state rule
        (.nodes level left right leftNode.opType :: (via ++ around))
  | attributes {levels level left right : Nat} {via around : List UseStep} {rest : List Pending}
      {state inner : CompareState} {scope : Scope} {leftNode rightNode : Node}
      {difference : AttributeDifference} :
      FreshNodes state.stack level left right scope leftNode rightNode →
      nodeRule? leftNode rightNode = none →
      exec (makeCalls (compareNested options levels level)
        (attributePlan leftNode.attributes rightNode.attributes).calls) state = (.ok none, inner) →
      (attributePlan leftNode.attributes rightNode.attributes).difference? = some difference →
      Breaks ⟨levels, state, .nodes level left right via :: rest, around⟩ inner
        (.attributes difference) (.nodes level left right leftNode.opType :: (via ++ around))
  | inputCounts {levels level left right : Nat} {via around : List UseStep} {rest : List Pending}
      {state inner : CompareState} {scope : Scope} {leftNode rightNode : Node} :
      FreshNodes state.stack level left right scope leftNode rightNode →
      nodeRule? leftNode rightNode = none →
      exec (makeCalls (compareNested options levels level)
        (attributePlan leftNode.attributes rightNode.attributes).calls) state = (.ok none, inner) →
      (attributePlan leftNode.attributes rightNode.attributes).difference? = none →
      leftNode.inputs.length ≠ rightNode.inputs.length →
      Breaks ⟨levels, state, .nodes level left right via :: rest, around⟩ inner
        (.valueCount leftNode.inputs.length rightNode.inputs.length)
        (.nodes level left right leftNode.opType :: (via ++ around))
  | headers {moment : Moment} {level : Nat} {call : GraphCall} {inner : CompareState}
      {path : List UseStep} {rule : FailedRule} : moment.Calls options level call inner path →
      headerDifference? call.left call.right = some rule → Breaks moment inner rule path
  | bodies {moment : Moment} {levels level : Nat} {call : GraphCall} {inner broken : CompareState}
      {path : List UseStep} {rule : FailedRule} : moment.Calls options level call inner path →
      moment.levels = levels + 1 → headerDifference? call.left call.right = none →
      BodiesBreak options levels options.pairAllNodes inner.stack.depth call.left.outputs
        call.right.outputs (inner.entered level call.left.body call.right.body) broken rule →
      Breaks moment broken rule path

variable {options} {moment : Moment} {level : Nat} {call : GraphCall} {inner : CompareState}
  {path : List UseStep}

/-- Nothing is recorded as long as the graphs that come first match. -/
theorem Calls.difference_eq (hcalls : moment.Calls options level call inner path) :
    inner.difference = moment.state.difference := by
  obtain ⟨_, _, _, hexec⟩ := hcalls
  exact (callsRun_of_exec hexec).difference_eq (nestedRun_unmarking options _) rfl

/-- Nothing is recorded on the way to the next moment. -/
theorem Follows.difference_eq {next : Moment} (hfollows : next.Follows options moment) :
    next.state.difference = moment.state.difference := by
  cases hfollows with
  | step hexec => exact (stepRun_of_exec hexec).difference_eq (nestedRun_unmarking options _)
  | nested hcalls _ _ _ => exact hcalls.difference_eq

/-- What is pending fails with its first comparison. -/
theorem exec_settle_of_failed {levels : Nat} {next : Pending} {rest : List Pending}
    {state final : CompareState}
    (hstep : exec (step options (compareNested options levels) next) state = (.ok none, final)) :
    exec (settle options levels (next :: rest)) state = (.ok false, final) := by
  rw [exec_settle_cons, exec_bind, hstep]
  rfl

/-- If two graphs differ, so does all that is pending, and the way to the difference is extended by
the uses of these graphs in the descent. -/
theorem Calls.exec_settle {final : CompareState}
    (hcalls : moment.Calls options level call inner path)
    (hnested : exec (compareNested options moment.levels level call.left call.right) inner =
      (.ok false, final)) :
    ∃ way, path = way ++ moment.around ∧
      exec (settle options moment.levels moment.pending) moment.state =
        (.ok false, final.extended way) := by
  cases hcalls with
  | @made levels level left right via around rest state inner scope leftNode rightNode calls later
      call hfresh hrule hplan hexec =>
      refine ⟨.subgraph call.name call.index :: .nodes level left right leftNode.opType :: via, rfl,
        exec_settle_of_failed ?_⟩
      have hmade : exec (makeCalls (compareNested options levels level) (calls ++ call :: later))
          state = (.ok (some call), final) := exec_makeCalls_of_failed hexec hnested
      rw [step, exec_nodeStep_fresh hfresh, exec_bind, exec_headsMatch, hrule, hplan]
      simp only [hmade]
      rfl

/-- What is recorded at a moment becomes a part of the verdict, with the uses around it. -/
def Reports (options : CompareOptions) (operands : Operands) (moment : Moment) : Prop :=
  ∀ final, exec (settle options moment.levels moment.pending) moment.state = (.ok false, final) →
    operands.compare options = .ok (.different (final.extended moment.around).difference)

/-- A rule that fails is recorded if this is wanted, and all that is pending fails with it. -/
theorem Breaks.exec_settle {broken : CompareState} {rule : FailedRule}
    (hbreaks : moment.Breaks options broken rule path) (hnone : moment.state.difference = none) :
    broken.difference = none ∧ ∃ final way, path = way ++ moment.around ∧
      exec (settle options moment.levels moment.pending) moment.state = (.ok false, final) ∧
      final.difference = if options.trace then some ⟨rule, way⟩ else none := by
  cases hbreaks with
  | @names levels level found left right via around rest state lookup rule hlookup hrule =>
      refine ⟨hnone, _, via, rfl, exec_settle_of_failed ?_,
        CompareState.difference_rejected_of_none hnone options rule via⟩
      rw [step, exec_valueStep, hlookup]
      simp only [hrule]
  | @partner levels level left right partner via around rest state scope hscope hpartner hright =>
      refine ⟨hnone, _, via, rfl, exec_settle_of_failed ?_,
        CompareState.difference_rejected_of_none hnone options _ via⟩
      rw [step, exec_nodeStep_partner hscope hpartner, if_neg hright]
  | @nodes levels level left right via around rest state scope leftNode rightNode rule hfresh
      hrule =>
      refine ⟨hnone, _, .nodes level left right leftNode.opType :: via, rfl,
        exec_settle_of_failed ?_, CompareState.difference_rejected_of_none hnone options rule _⟩
      rw [step, exec_nodeStep_fresh hfresh, exec_bind, exec_headsMatch, hrule]
      rfl
  | @attributes levels level left right via around rest state inner scope leftNode rightNode
      difference hfresh hrule hexec hdifference =>
      have hbroken : broken.difference = none :=
        ((callsRun_of_exec hexec).difference_eq (nestedRun_unmarking options _) rfl).trans hnone
      refine ⟨hbroken, _, .nodes level left right leftNode.opType :: via, rfl,
        exec_settle_of_failed ?_, CompareState.difference_rejected_of_none hbroken options _ _⟩
      rw [step, exec_nodeStep_fresh hfresh, exec_bind, exec_headsMatch, hrule]
      simp only [hexec, hdifference]
      rfl
  | @inputCounts levels level left right via around rest state inner scope leftNode rightNode
      hfresh hrule hexec hdifference hlength =>
      have hbroken : broken.difference = none :=
        ((callsRun_of_exec hexec).difference_eq (nestedRun_unmarking options _) rfl).trans hnone
      refine ⟨hbroken, _, .nodes level left right leftNode.opType :: via, rfl,
        exec_settle_of_failed ?_, CompareState.difference_rejected_of_none hbroken options _ _⟩
      rw [step, exec_nodeStep_fresh hfresh, exec_bind, exec_headsMatch, hrule]
      simp only [hexec, hdifference, if_true, exec_bind, exec_valuesStep, if_neg hlength]
      rfl
  | headers hcalls hheader =>
      have hbroken := hcalls.difference_eq.trans hnone
      obtain ⟨way, hpath, hsettle⟩ := hcalls.exec_settle (exec_nested_of_header hheader)
      refine ⟨hbroken, _, way, hpath, hsettle, ?_⟩
      exact CompareState.difference_extended_of_eq
        (CompareState.difference_rejected_of_none hbroken options _ []) way
  | bodies hcalls hlevels hheader hbreak =>
      have hbroken := (hbreak.difference_eq.trans hcalls.difference_eq).trans hnone
      have hnested := exec_nested_of_fail hheader (.byRule hbreak)
      rw [← hlevels] at hnested
      obtain ⟨way, hpath, hsettle⟩ := hcalls.exec_settle hnested
      refine ⟨hbroken, _, way, hpath, hsettle, ?_⟩
      exact CompareState.difference_extended_of_eq
        ((CompareState.difference_popped _).trans
          (CompareState.difference_rejected_of_none hbroken options _ [])) way

/-- Where two graphs differ, either a rule fails for them, or the descent into them does. -/
theorem Calls.breaks_or_follows {final : CompareState}
    (hcalls : moment.Calls options level call inner path)
    (hnested : exec (compareNested options moment.levels level call.left call.right) inner =
      (.ok false, final)) :
    (∃ broken rule path, moment.Breaks options broken rule path) ∨
      ∃ (next : Moment) (final' : CompareState), next.Follows options moment ∧
        exec (settle options next.levels next.pending) next.state = (.ok false, final') := by
  cases hheader : headerDifference? call.left call.right with
  | some rule => exact Or.inl ⟨_, _, _, .headers hcalls hheader⟩
  | none =>
      cases hlevels : moment.levels with
      | zero =>
          rw [hlevels, compareNested, underHeaders, hheader] at hnested
          cases hnested
      | succ levels =>
          rw [hlevels, exec_nested hheader] at hnested
          rcases hbodies : exec (matchBodies options levels options.pairAllNodes inner.stack.depth
            call.left.outputs call.right.outputs)
            (inner.entered level call.left.body call.right.body) with ⟨outcome, ended⟩
          rw [hbodies] at hnested
          obtain ⟨rfl, _⟩ := Prod.mk.inj hnested
          cases bodiesFail_of_exec hbodies with
          | byRule hbreak => exact Or.inl ⟨_, _, _, .bodies hcalls hlevels hheader hbreak⟩
          | inOutputs hlength hsettle =>
              exact Or.inr ⟨_, _, .nested hcalls hlevels hheader hlength, hsettle⟩

section Steps

variable {levels left right : Nat} {via around : List UseStep} {rest : List Pending}
  {state final : CompareState}

theorem fresh_breaks_or_follows {scope : Scope} {leftNode rightNode : Node}
    (hfresh : FreshNodes state.stack level left right scope leftNode rightNode)
    (hrule : nodeRule? leftNode rightNode = none)
    (hstep : exec (nodeStep options (compareNested options levels) level left right via) state =
      (.ok none, final)) :
    (∃ broken rule path,
      Breaks options ⟨levels, state, .nodes level left right via :: rest, around⟩ broken rule path) ∨
      ∃ (next : Moment) (final' : CompareState),
        next.Follows options ⟨levels, state, .nodes level left right via :: rest, around⟩ ∧
          exec (settle options next.levels next.pending) next.state = (.ok false, final') := by
  rw [exec_nodeStep_fresh hfresh, exec_bind, exec_headsMatch, hrule] at hstep
  rcases hcalls : exec (makeCalls (compareNested options levels level)
    (attributePlan leftNode.attributes rightNode.attributes).calls) state with
    ⟨error | call | call, inner⟩ <;> simp only [hcalls] at hstep
  · cases hstep
  · cases hdifference : (attributePlan leftNode.attributes rightNode.attributes).difference? with
    | some difference => exact Or.inl ⟨_, _, _, .attributes hfresh hrule hcalls hdifference⟩
    | none =>
        by_cases hlength : leftNode.inputs.length = rightNode.inputs.length
        · simp only [hdifference, if_true, exec_bind, exec_valuesStep, if_pos hlength,
            exec_pair] at hstep
          cases hpartner : inner.stack.partner? level left with
          | none =>
              rw [hpartner] at hstep
              cases hstep
          | some partner =>
              rw [hpartner] at hstep
              cases hstep
        · exact Or.inl ⟨_, _, _, .inputCounts hfresh hrule hcalls hdifference hlength⟩
  · obtain ⟨before, later, middle, hplan, hbefore, hcall⟩ := failed_of_exec_makeCalls hcalls
    have hmade : Calls options ⟨levels, state, .nodes level left right via :: rest, around⟩ _ _ _ _ :=
      .made hfresh hrule hplan hbefore
    exact hmade.breaks_or_follows hcall

end Steps

/-- Where all that is pending fails, either a rule fails for what comes first, or what follows fails.
-/
theorem breaks_or_follows {final : CompareState}
    (hsettle : exec (settle options moment.levels moment.pending) moment.state =
      (.ok false, final)) :
    (∃ broken rule path, moment.Breaks options broken rule path) ∨
      ∃ (next : Moment) (final' : CompareState), next.Follows options moment ∧
        exec (settle options next.levels next.pending) next.state = (.ok false, final') := by
  obtain ⟨levels, state, pending, around⟩ := moment
  cases pending with
  | nil =>
      rw [exec_settle_nil] at hsettle
      cases hsettle
  | cons next rest =>
      rw [exec_settle_cons, exec_bind] at hsettle
      rcases hstep : exec (step options (compareNested options levels) next) state with
        ⟨error | leads | leads, inner⟩ <;> simp only [hstep] at hsettle
      · cases hsettle
      · have hrun := stepRun_of_exec hstep
        cases hrun with
        | namesDiffer hlookup hrule => exact Or.inl ⟨_, _, _, .names hlookup hrule⟩
        | conflict hscope hpartner hright =>
            exact Or.inl ⟨_, _, _, .partner hscope hpartner hright⟩
        | nodesDiffer hfresh hrule => exact Or.inl ⟨_, _, _, .nodes hfresh hrule⟩
        | callDiffered hfresh hrule _ | attributesDiffer hfresh hrule _ _
        | inputCountsDiffer hfresh hrule _ _ _ => exact fresh_breaks_or_follows hfresh hrule hstep
      · exact Or.inr ⟨_, _, .step hstep, hsettle⟩

end Moment

namespace Operands

variable (options : CompareOptions)

/-- A rule fails for the operands, in a state and after some uses, the innermost first: for the
operands themselves, or at a moment that their comparison comes by. -/
inductive Breaks (operands : Operands) : CompareState → FailedRule → List UseStep → Prop where
  | opening {rule : FailedRule} : operands.check options = .ok () →
      operands.openingRule? = some rule →
      Breaks operands (.initial operands.left operands.right) rule []
  | bodies {broken : CompareState} {rule : FailedRule} : operands.check options = .ok () →
      operands.openingRule? = none →
      BodiesBreak options options.depthLimit (operands.pairsAllNodes options) 0
        operands.left.outputs operands.right.outputs (.initial operands.left operands.right)
        broken rule →
      Breaks operands broken rule []
  | within {moment : Moment} {broken : CompareState} {rule : FailedRule} {path : List UseStep} :
      operands.Passes options moment → moment.Breaks options broken rule path →
      Breaks operands broken rule path

variable {options} {operands : Operands} {moment : Moment}

/-- Nothing is recorded at the moments that a comparison comes by. -/
theorem Passes.difference_eq_none (hpasses : operands.Passes options moment) :
    moment.state.difference = none := by
  induction hpasses with
  | begins _ _ _ => rfl
  | follows _ hfollows ih => exact hfollows.difference_eq.trans ih

theorem ending_of_bodiesFail {final : CompareState} (hopening : operands.openingRule? = none)
    (hfail : BodiesFail options options.depthLimit (operands.pairsAllNodes options) 0
      operands.left.outputs operands.right.outputs (.initial operands.left operands.right) final) :
    operands.ending options = (.ok false, final) := by
  rw [ending, run, hopening]
  exact hfail.exec_eq

/-- Operands whose comparison ends in this way differ. -/
theorem compare_of_ending {final : CompareState} (hcheck : operands.check options = .ok ())
    (hending : operands.ending options = (.ok false, final)) :
    operands.compare options = .ok (.different final.difference) := by
  rw [compare_of_check hcheck, hending]
  rfl

/-- On the way out nothing but the uses around is added to what is recorded. -/
theorem Passes.reports (hpasses : operands.Passes options moment) :
    moment.Reports options operands := by
  induction hpasses with
  | begins hcheck hopening hlength =>
      intro final hsettle
      rw [first, CompareState.extended_nil]
      exact compare_of_ending hcheck (ending_of_bodiesFail hopening (.inOutputs hlength hsettle))
  | @follows moment next _ hfollows ih =>
      intro final hsettle
      cases hfollows with
      | step hexec =>
          refine ih final ?_
          rw [exec_settle_cons, exec_bind, hexec]
          exact hsettle
      | nested hcalls hlevels hheader hlength =>
          have hnested := exec_nested_of_fail hheader (.inOutputs hlength hsettle)
          rw [← hlevels] at hnested
          obtain ⟨way, rfl, houter⟩ := hcalls.exec_settle hnested
          rw [ih _ houter, CompareState.extended_append]
          rfl

/-- Where a rule fails nothing was recorded before, and the verdict is about this rule. -/
theorem Breaks.compare_eq {broken : CompareState} {rule : FailedRule} {path : List UseStep}
    (hbreaks : operands.Breaks options broken rule path) :
    broken.difference = none ∧ operands.compare options =
      .ok (.different (if options.trace then some ⟨rule, path⟩ else none)) := by
  cases hbreaks with
  | opening hcheck hopening =>
      have hending : operands.ending options = (.ok false,
          (CompareState.initial operands.left operands.right).rejected options rule []) := by
        rw [ending, run, hopening]
        rfl
      rw [compare_of_ending hcheck hending, CompareState.difference_rejected_of_none rfl]
      exact ⟨rfl, rfl⟩
  | bodies hcheck hopening hbreak =>
      have hnone : broken.difference = none := hbreak.difference_eq
      rw [compare_of_ending hcheck (ending_of_bodiesFail hopening (.byRule hbreak)),
        CompareState.difference_rejected_of_none hnone]
      exact ⟨hnone, rfl⟩
  | within hpasses hbreaks =>
      obtain ⟨hnone, final, way, rfl, hsettle, hdifference⟩ :=
        hbreaks.exec_settle hpasses.difference_eq_none
      rw [hpasses.reports final hsettle, CompareState.difference_extended_of_eq hdifference]
      exact ⟨hnone, rfl⟩

/-- Whatever fails at a moment, some rule does. -/
theorem Passes.exists_breaks {final : CompareState} (hpasses : operands.Passes options moment)
    (hsettle : exec (settle options moment.levels moment.pending) moment.state =
      (.ok false, final)) :
    ∃ broken rule path, operands.Breaks options broken rule path := by
  -- over the moments that may follow, of which there is no end
  induction moment using (Moment.wellFounded_follows options).induction generalizing final with
  | h moment ih =>
      rcases Moment.breaks_or_follows hsettle with ⟨broken, rule, path, hbreaks⟩ |
        ⟨next, final', hfollows, hnext⟩
      · exact ⟨broken, rule, path, .within hpasses hbreaks⟩
      · exact ih next hfollows (hpasses.follows hfollows) hnext

/-- Nothing is recorded in the end if the operands match. -/
theorem ending_difference_eq_none (hmatched : (operands.ending options).1 = .ok true) :
    (operands.ending options).2.difference = none := by
  rw [ending, run] at hmatched ⊢
  cases hopening : operands.openingRule? with
  | some rule =>
      rw [hopening] at hmatched
      cases hmatched
  | none =>
      rw [hopening] at hmatched
      exact matchBodies_difference_eq (Prod.ext hmatched rfl)

/-- If operands differ, it is because some rule fails. -/
theorem exists_breaks_of_compare {difference? : Option Difference}
    (hcompare : operands.compare options = .ok (.different difference?)) :
    ∃ broken rule path, operands.Breaks options broken rule path := by
  obtain ⟨hcheck, matched, houtcome, hverdict⟩ := ending_of_compare hcompare
  rcases hending : operands.ending options with ⟨outcome, final⟩
  rw [hending] at houtcome hverdict
  obtain rfl : outcome = .ok matched := houtcome
  cases matched with
  | true => cases hverdict
  | false =>
      cases hopening : operands.openingRule? with
      | some rule => exact ⟨_, _, _, .opening hcheck hopening⟩
      | none =>
          rw [ending, run, hopening] at hending
          cases bodiesFail_of_exec hending with
          | byRule hbreak => exact ⟨_, _, _, .bodies hcheck hopening hbreak⟩
          | inOutputs hlength hsettle =>
              exact (Passes.begins hcheck hopening hlength).exists_breaks hsettle

end Operands

end OpGraph
