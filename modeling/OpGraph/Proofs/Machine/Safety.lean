import OpGraph.Proofs.Descent.Coverage
import OpGraph.Proofs.Machine.Following

/-!
No place is ever looked at in vain. The machine comes by every moment of a comparison and ends as the
comparison does. All places that it holds on its way are there: the levels of what is still to be
compared, the nodes, the pairs, and the pairs of nodes that were visited.
-/

namespace OpGraph

open CompareM

namespace Machine

variable {options : CompareOptions} {machine : Machine}

/-- The machine is at a moment of a comparison: it has the tasks that are pending then. -/
structure At (options : CompareOptions) (machine : Machine) (moment : Moment) : Prop where
  state_eq : machine.state = moment.state
  tasks : ∃ level all tasks, machine.control = .tasks ⟨level, all, tasks⟩ ∧
    List.Forall₂ (Task.StandsFor options machine.trail) tasks moment.pending
  levels : machine.depth + moment.levels = options.depthLimit

/-- The machine goes on from the outputs of two bodies to the moment at which they are pending. -/
theorem exists_at_of_outputs {level levels : Nat} {all : Bool} {scope : Scope}
    (hcontrol : machine.control = .bodies level all)
    (hscope : machine.stack.scope? level = some scope)
    (hlength : scope.left.outputs.length = scope.right.outputs.length)
    (hlevels : machine.depth + levels = options.depthLimit) (around : List UseStep) :
    ∃ next, machine.next? options = some next ∧ next.At options ⟨levels, machine.state,
      pendingValues level scope.left.outputs scope.right.outputs [], around⟩ :=
  ⟨_, next?_of_outputs hcontrol hscope hlength, rfl,
    ⟨_, _, _, rfl, valueTasks_standFor .none level _ _⟩, hlevels⟩

/-- The machine goes on from a call for two graphs to the moment at which their outputs are pending. -/
theorem exists_at_of_call {nodes : NodesAtHand} {call : GraphCall} {calls : List GraphCall}
    {work : Worklist} {levels : Nat} (hmachine : machine.InOrder options)
    (hcontrol : machine.control = .graphs nodes (call :: calls) work)
    (hheader : headerDifference? call.left call.right = none)
    (hlength : call.left.outputs.length = call.right.outputs.length)
    (hlevels : machine.depth + (levels + 1) = options.depthLimit) (around : List UseStep) :
    ∃ next, Comes options machine next ∧ next.At options
      ⟨levels, machine.state.entered nodes.level call.left.body call.right.body,
        pendingValues machine.stack.depth call.left.outputs call.right.outputs [], around⟩ := by
  have hnext := next?_enters hmachine hcontrol hheader (by omega)
  have hscope : (machine.enters options nodes call calls work).stack.scope? machine.stack.depth =
      some _ := ScopeStack.scope?_push_depth machine.stack nodes.level call.left.body call.right.body
  have hdepth : machine.depth + 1 + levels = options.depthLimit := by omega
  obtain ⟨next, hentered, hat⟩ := exists_at_of_outputs rfl hscope hlength hdepth around
  exact ⟨next, .head hnext (.single hentered), hat⟩

/-- The machine goes on from a moment to each call for graphs that the step at hand comes to. -/
theorem At.calls {moment : Moment} {level : Nat} {call : GraphCall} {inner : CompareState}
    {path : List UseStep} (hat : machine.At options moment) (hmachine : machine.InOrder options)
    (hcalls : moment.Calls options level call inner path) :
    ∃ more nodes later work, nodes.level = level ∧
      Comes options machine (machine.moved inner more (.graphs nodes (call :: later) work)) := by
  obtain ⟨levels, state, pending, around⟩ := moment
  obtain ⟨hstate, ⟨top, all, tasks, hcontrol, hstands⟩, hlevels⟩ := hat
  obtain rfl : machine.state = state := hstate
  cases hcalls with
  | made hfresh hrule hplan hexec =>
      cases hstands with
      | cons hfirst _ =>
          cases hfirst with
          | nodes hreads =>
              obtain ⟨_, more, _, hcomes⟩ := followsCalls_of_fresh (followsNested options levels)
                hmachine hlevels hcontrol hreads hfresh hrule hplan (callsRun_of_exec hexec)
              exact ⟨more, _, _, _, rfl, hcomes⟩

/-- The machine goes on from each moment to any that follows. -/
theorem At.follows {moment next : Moment} (hat : machine.At options moment)
    (hmachine : machine.InOrder options) (hfollows : next.Follows options moment) :
    ∃ machine', Comes options machine machine' ∧ machine'.At options next := by
  cases hfollows with
  | @step levels state inner next rest leads around hexec =>
      obtain ⟨hstate, ⟨top, all, tasks, hcontrol, hstands⟩, hlevels⟩ := hat
      obtain rfl : machine.state = state := hstate
      cases hstands with
      | cons hfirst hrest =>
          obtain ⟨more, _, hleads, hcomes⟩ := followsStep (followsNested options levels) hmachine
            hlevels hcontrol hfirst (stepRun_of_exec hexec)
          have hpending := List.rel_append hleads (hrest.imp fun _ _ hstand => hstand.append more)
          exact ⟨_, hcomes, rfl, ⟨_, _, _, rfl, hpending⟩, hlevels⟩
  | @nested _ levels level call inner path hcalls hlevels hheader hlength =>
      obtain ⟨more, nodes, later, work, rfl, hcomes⟩ := hat.calls hmachine hcalls
      have hdepth : machine.depth + (levels + 1) = options.depthLimit := hlevels ▸ hat.levels
      obtain ⟨entered, hentered, hat'⟩ := exists_at_of_call (hmachine.comes hcomes) rfl hheader hlength
        hdepth path
      exact ⟨entered, hcomes.trans hentered, hat'⟩

/-- The machine comes to the ending of a comparison of bodies. -/
theorem followsMatch {levels level : Nat} {all : Bool} {scope : Scope}
    (hmachine : machine.InOrder options) (hdepth : machine.depth + levels = options.depthLimit)
    (hcontrol : machine.control = .bodies level all)
    (hscope : machine.stack.scope? level = some scope) :
    machine.ComesTo options
      (exec (matchBodies options levels all level scope.left.outputs scope.right.outputs)
        machine.state).2
      (.leave (exec (matchBodies options levels all level scope.left.outputs scope.right.outputs)
        machine.state).1) := by
  have houtputs := compareOutputs_run options (compareNested_run options levels)
    (nestedRun_grows options levels) level scope.left.outputs scope.right.outputs machine.state
  have hnested := followsNested options levels
  rw [matchBodies, exec_bind]
  generalize exec (compareOutputs options (compareNested options levels) level scope.left.outputs
    scope.right.outputs) machine.state = ending at houtputs ⊢
  rcases ending with ⟨error | _ | _, inner⟩
  · exact ends_of_failed hnested hmachine hdepth hcontrol hscope houtputs (by simp)
  · exact ends_of_failed hnested hmachine hdepth hcontrol hscope houtputs (by simp)
  · cases all with
    | false =>
        obtain ⟨more, hcomes⟩ := followsOutputs hnested hmachine hdepth hcontrol hscope houtputs
        exact comesTo_of_moved hcomes (comesTo_of_next rfl)
    | true =>
        exact ends_of_checked hnested hmachine hdepth hcontrol hscope houtputs
          (requireAllPaired_run options level inner)

end Machine

namespace Control

/-- The worklist of the innermost descent. -/
def worklists : Control → List Worklist
  | tasks work => [work]
  | graphs _ _ work => [work]
  | _ => []

/-- The nodes of which the graphs come next. -/
def nodesAtHand : Control → List NodesAtHand
  | graphs nodes _ _ => [nodes]
  | _ => []

variable {stack : ScopeStack} {trail : List TrailEntry} {level : Nat} {control : Control}

theorem Of.worklists (hcontrol : control.Of stack trail level) :
    ∀ work ∈ control.worklists, work.Of stack trail level := by
  intro work hwork
  cases control with
  | tasks work' =>
      obtain rfl := List.mem_singleton.mp hwork
      exact hcontrol
  | graphs nodes calls work' =>
      obtain rfl := List.mem_singleton.mp hwork
      exact hcontrol.1
  | _ => cases hwork

theorem Of.nodesAtHand (hcontrol : control.Of stack trail level) :
    ∀ nodes ∈ control.nodesAtHand, nodes.Of stack trail level := by
  intro nodes hnodes
  cases control with
  | graphs nodes' calls work =>
      obtain rfl := List.mem_singleton.mp hnodes
      exact hcontrol.2
  | _ => cases hnodes

end Control

/-- What waits belongs to one of the levels. -/
theorem SuspendedInOrder.of_mem {stack : ScopeStack} {trail : List TrailEntry}
    {suspended : List Suspended} (hsuspended : SuspendedInOrder stack trail suspended)
    {waiting : Suspended} (hwaiting : waiting ∈ suspended) :
    ∃ level < suspended.length, waiting.work.Of stack trail level ∧
      waiting.nodes.Of stack trail level := by
  induction suspended with
  | nil => cases hwaiting
  | cons innermost suspended ih =>
      rcases List.mem_cons.mp hwaiting with rfl | houter
      · exact ⟨suspended.length, Nat.lt_succ_self _, hsuspended.1⟩
      · obtain ⟨level, hlevel, hof⟩ := ih hsuspended.2 houter
        exact ⟨level, Nat.lt_succ_of_lt hlevel, hof⟩

namespace Machine

/-- The worklists of all descents, the innermost first. -/
def worklists (machine : Machine) : List Worklist :=
  machine.control.worklists ++ machine.suspended.map Suspended.work

/-- The nodes of which graphs are compared or come next, the innermost first. -/
def nodesAtHand (machine : Machine) : List NodesAtHand :=
  machine.control.nodesAtHand ++ machine.suspended.map Suspended.nodes

/-- All places that the machine holds are there. -/
structure InRange (machine : Machine) : Prop where
  /-- Descents begin, go on and wait at levels that are there. -/
  bodies : ∀ level all, machine.control = .bodies level all → level < machine.stack.depth
  worklists : ∀ work ∈ machine.worklists, work.level < machine.stack.depth
  /-- So is all that is still to be compared at a level that is there. Its nodes are in the bodies at
  this level, and a pair that was visited led to it. -/
  tasks : ∀ work ∈ machine.worklists, ∀ task ∈ work.tasks,
    task.InRange machine.stack machine.trail
  nodes : ∀ nodes ∈ machine.nodesAtHand, nodes.InRange machine.stack machine.trail
  /-- A scope is enclosed by one of a lower level. -/
  parents : ∀ level scope parent, machine.stack.scope? level = some scope →
    scope.parent = some parent → parent < level ∧ parent < machine.stack.depth
  /-- A name that is not an input is the output of a node that is there. -/
  definitions : ∀ level scope name node slot, machine.stack.scope? level = some scope →
    (scope.left.origin? name = some (.output node slot) → node < scope.left.nodes.length) ∧
      (scope.right.origin? name = some (.output node slot) → node < scope.right.nodes.length)
  /-- Nodes of the left body are paired with nodes of the right one. -/
  pairs : ∀ level scope left right, machine.stack.scope? level = some scope →
    scope.pairing.partner? left = some right →
    left < scope.left.nodes.length ∧ right < scope.right.nodes.length
  /-- A pair that was visited was led to by an earlier one. -/
  trail : ∀ (place : Nat) (entry : TrailEntry) (parent : Nat), machine.trail[place]? = some entry →
    entry.parent = some parent → parent < place
  /-- The way to a difference starts from a pair that was visited. -/
  blamed : ∀ rule place, machine.control = .fail rule (some place) → place < machine.trail.length
  /-- As many calls are counted as there are, so there is one to be counted off when one is left. -/
  depth : machine.depth = machine.suspended.length

variable {options : CompareOptions} {machine : Machine}

theorem InOrder.worklists (hmachine : machine.InOrder options) :
    ∀ work ∈ machine.worklists, ∃ level < machine.stack.depth,
      work.Of machine.stack machine.trail level := by
  intro work hwork
  rw [hmachine.stack_depth]
  rcases List.mem_append.mp hwork with hinnermost | hwaits
  · exact ⟨_, Nat.lt_succ_self _, hmachine.control.worklists work hinnermost⟩
  · obtain ⟨waiting, hwaiting, rfl⟩ := List.mem_map.mp hwaits
    obtain ⟨level, hlevel, hof, _⟩ := hmachine.suspended.of_mem hwaiting
    exact ⟨level, Nat.lt_succ_of_lt hlevel, hof⟩

theorem InOrder.nodesAtHand (hmachine : machine.InOrder options) :
    ∀ nodes ∈ machine.nodesAtHand, nodes.InRange machine.stack machine.trail := by
  intro nodes hnodes
  rcases List.mem_append.mp hnodes with hinnermost | hwaits
  · exact (hmachine.control.nodesAtHand nodes hinnermost).inRange
  · obtain ⟨waiting, hwaiting, rfl⟩ := List.mem_map.mp hwaits
    obtain ⟨_, _, _, hof⟩ := hmachine.suspended.of_mem hwaiting
    exact hof.inRange

theorem InOrder.inRange (hmachine : machine.InOrder options) : machine.InRange where
  bodies level all hcontrol := by
    have hlevel := hmachine.of_control hcontrol
    obtain ⟨scope, hscope⟩ := hmachine.exists_scope_of_le (Nat.le_of_eq hlevel)
    exact ScopeStack.scope?_eq_some_lt hscope
  worklists work hwork := by
    obtain ⟨level, hlevel, hof⟩ := hmachine.worklists work hwork
    exact hof.level_eq ▸ hlevel
  tasks work hwork := by
    obtain ⟨_, _, hof⟩ := hmachine.worklists work hwork
    exact hof.tasks
  nodes := hmachine.nodesAtHand
  parents level scope parent hscope hparent := by
    have hlt := hmachine.enclosed hscope hparent
    exact ⟨hlt, Nat.lt_trans hlt (ScopeStack.scope?_eq_some_lt hscope)⟩
  definitions level scope name node slot _ :=
    ⟨fun horigin => (Body.defines_of_origin?_eq_output horigin).lt_length,
      fun horigin => (Body.defines_of_origin?_eq_output horigin).lt_length⟩
  pairs level scope left right hscope hpartner := hmachine.pairs level scope hscope left right hpartner
  trail place entry parent hentry hparent := hmachine.trail hentry parent hparent
  blamed rule place hcontrol := hmachine.of_control hcontrol place rfl
  depth := hmachine.depth_eq

end Machine

namespace Operands

open Machine

variable {options : CompareOptions} {operands : Operands}

theorem inOrder_machine (options : CompareOptions) (operands : Operands) :
    (operands.machine options).InOrder options where
  depth_eq := rfl
  stack_depth := rfl
  enclosed _ _ _ := (ScopeStack.proper_ofBodies operands.left operands.right).parent_lt
  pairs := initial_inRangeAt operands.left operands.right
  trail := by
    intro place entry hentry
    cases hentry
  suspended := trivial
  control := by
    rw [machine]
    cases operands.openingRule? with
    | none => rfl
    | some rule => exact InTrail.none []
  unrecorded _ := rfl

/-- The machine comes by every moment of the comparison. -/
theorem Passes.exists_at {moment : Moment} (hpasses : operands.Passes options moment) :
    ∃ machine, Comes options (operands.machine options) machine ∧ machine.At options moment := by
  induction hpasses with
  | begins _ hopening hlength =>
      have hcontrol : (operands.machine options).control =
          .bodies 0 (operands.pairsAllNodes options) := by
        rw [machine, hopening]
      obtain ⟨machine, hnext, hat⟩ := exists_at_of_outputs hcontrol rfl hlength
        (Nat.zero_add options.depthLimit) []
      exact ⟨machine, .single hnext, hat⟩
  | follows _ hfollows ih =>
      obtain ⟨machine, hcomes, hat⟩ := ih
      obtain ⟨machine', hcomes', hat'⟩ :=
        hat.follows ((inOrder_machine options operands).comes hcomes) hfollows
      exact ⟨machine', hcomes.trans hcomes', hat'⟩

/-- The machine ends as the comparison does. -/
theorem comesTo_ending (options : CompareOptions) (operands : Operands) :
    (operands.machine options).ComesTo options (operands.ending options).2
      (.leave (operands.ending options).1) := by
  have hordered := inOrder_machine options operands
  cases hopening : operands.openingRule? with
  | some rule =>
      have hcontrol : (operands.machine options).control = .fail rule none := by
        rw [machine, hopening]
      rw [ending, run, hopening]
      exact comesTo_of_fail hcontrol .none
  | none =>
      have hcontrol : (operands.machine options).control =
          .bodies 0 (operands.pairsAllNodes options) := by
        rw [machine, hopening]
      have hscope : (operands.machine options).stack.scope? 0 =
          some { parent := none, left := operands.left, right := operands.right } := rfl
      have hending : operands.ending options =
          exec (matchBodies options options.depthLimit (operands.pairsAllNodes options) 0
            operands.left.outputs operands.right.outputs) (operands.machine options).state := by
        rw [ending, run, hopening]
        rfl
      have hdepth : (operands.machine options).depth + options.depthLimit = options.depthLimit :=
        Nat.zero_add options.depthLimit
      have hcomes := followsMatch hordered hdepth hcontrol hscope
      rw [hending]
      exact hcomes

/-- The comparison never looks at a place where there is nothing. -/
structure StaysInRange (options : CompareOptions) (operands : Operands) : Prop where
  /-- Wherever the machine comes, all places that it holds are there. -/
  inRange : ∀ machine, Comes options (operands.machine options) machine → machine.InRange
  /-- The machine goes on until it has ended. -/
  goes_on : ∀ machine, Comes options (operands.machine options) machine →
    machine.Halted ∨ ∃ next, machine.next? options = some next
  /-- The machine comes by every moment of the comparison. -/
  passes : ∀ moment, operands.Passes options moment →
    ∃ machine, Comes options (operands.machine options) machine ∧ machine.At options moment
  /-- The machine ends, and what the comparison returns is read off it then. -/
  ends : ∃ machine outcome, Comes options (operands.machine options) machine ∧
    machine.suspended = [] ∧ machine.control = .leave outcome ∧
    operands.compare options = (do
      operands.check options
      (outcome.map machine.state.verdict).mapError .unfinished)

end Operands

/-- Whatever the operands are, no level, node, pair or visited pair is looked at that is not there, and
no scope is left that was not entered. -/
theorem compare_stays_in_range (options : CompareOptions) (operands : Operands) :
    operands.StaysInRange options where
  inRange machine hcomes := ((operands.inOrder_machine options).comes hcomes).inRange
  goes_on machine hcomes := by
    obtain hhalted | ⟨next, hnext, _⟩ := ((operands.inOrder_machine options).comes hcomes).next
    · exact Or.inl hhalted
    · exact Or.inr ⟨next, hnext⟩
  passes moment hpasses := hpasses.exists_at
  ends := by
    obtain ⟨more, hcomes⟩ := operands.comesTo_ending options
    exact ⟨_, _, hcomes, rfl, rfl, operands.compare_eq options⟩

end OpGraph
