import OpGraph.Proofs.Machine.Simulation

/-!
The machine follows every run of a comparison, part by part: a lookup, a step, the calls of a step, a
descent, and the comparison of two nested graphs, whatever the number of levels that are left.
-/

namespace OpGraph

open CompareM

namespace Machine

variable {options : CompareOptions} {machine : Machine} {levels : Nat}

/-- The machine follows the comparison of two graphs of nodes at hand: it goes on with the next graphs
if they match, and gives up if not. -/
def FollowsCall (options : CompareOptions) (machine : Machine) (nodes : NodesAtHand)
    (call : GraphCall) (calls : List GraphCall) (work : Worklist) (via : List UseStep)
    (final : CompareState) : Outcome Bool → Prop
  | .error error => machine.ComesTo options final (.leave (.error error))
  | .ok true => machine.ComesTo options final (.graphs nodes calls work)
  | .ok false => machine.ComesTo options
      (final.extended (.subgraph call.name call.index :: via)) (.leave (.ok false))

/-- The machine follows all comparisons of nested graphs, with so many inside each other. -/
def FollowsNested (options : CompareOptions) (levels : Nat) : Prop :=
  ∀ ⦃machine : Machine⦄ ⦃nodes : NodesAtHand⦄ ⦃call : GraphCall⦄ ⦃calls : List GraphCall⦄
    ⦃work : Worklist⦄ ⦃via : List UseStep⦄ ⦃outcome : Outcome Bool⦄ ⦃final : CompareState⦄,
    machine.InOrder options → machine.depth + levels = options.depthLimit →
    machine.control = .graphs nodes (call :: calls) work →
    Retraces options machine.trail nodes.entry via →
    NestedRun options levels nodes.level call.left call.right machine.state outcome final →
    machine.FollowsCall options nodes call calls work via final outcome

/-- The machine follows calls for the graphs of two nodes at hand: it goes on with the later calls, or
gives up with the first that differs. -/
def FollowsCalls (options : CompareOptions) (machine : Machine) (nodes : NodesAtHand)
    (later : List GraphCall) (work : Worklist) (via : List UseStep) (final : CompareState) :
    Outcome (Option GraphCall) → Prop
  | .error error => machine.ComesTo options final (.leave (.error error))
  | .ok none => ∃ more, Retraces options (machine.trail ++ more) nodes.entry via ∧
      Comes options machine (machine.moved final more (.graphs nodes later work))
  | .ok (some call) => machine.ComesTo options
      (final.extended (.subgraph call.name call.index :: via)) (.leave (.ok false))

/-- The machine follows a step: it goes on with what the step leads to, or leaves. -/
def FollowsStep (options : CompareOptions) (machine : Machine) (work : Worklist)
    (final : CompareState) : Outcome (Option (List Pending)) → Prop
  | .error error => machine.ComesTo options final (.leave (.error error))
  | .ok none => machine.ComesTo options final (.leave (.ok false))
  | .ok (some leads) => ∃ more tasks,
      List.Forall₂ (Task.StandsFor options (machine.trail ++ more)) tasks leads ∧
        Comes options machine (machine.moved final more (.tasks (work.add tasks)))

/-- What the machine is about to do after a descent. -/
def afterDescent (level : Nat) (all : Bool) : Outcome Bool → Control
  | .ok true => .tasks ⟨level, all, []⟩
  | outcome => .leave outcome

section Steps

variable {level top : Nat} {all : Bool} {tasks : List Task} {entry : Option Nat} {via : List UseStep}

/-- A lookup is one step of the machine for each level that it goes on to. -/
theorem comes_of_lookup {left right : String} {moves found : Nat} {lookup : Lookup}
    (hcontrol : machine.control = .tasks ⟨top, all, .values level left right entry :: tasks⟩)
    (hlookup : machine.stack.lookupOutward? left right moves level = some (found, lookup)) :
    Comes options machine
        (machine.goes (.tasks ⟨top, all, .values found left right entry :: tasks⟩)) ∧
      machine.stack.lookup? found left right = some lookup := by
  induction moves generalizing machine level with
  | zero =>
      rcases ScopeStack.lookupOutward?_eq_some hlookup with ⟨hlevel, rfl⟩ | ⟨_, _, hmoves, _⟩
      · rw [← hcontrol]
        exact ⟨.refl, hlevel⟩
      · cases hmoves
  | succ moves ih =>
      rcases ScopeStack.lookupOutward?_eq_some hlookup with
        ⟨hlevel, rfl⟩ | ⟨parent, _, hmoves, hlevel, hrest⟩
      · rw [← hcontrol]
        exact ⟨.refl, hlevel⟩
      · cases hmoves
        have hnext : machine.next? options = some
            (machine.goes (.tasks ⟨top, all, .values parent left right entry :: tasks⟩)) := by
          rw [next?, hcontrol]
          simp only [values?, hlevel, Option.map_some]
          rfl
        obtain ⟨hcomes, hfound⟩ := @ih
          (machine.goes (.tasks ⟨top, all, .values parent left right entry :: tasks⟩)) parent rfl hrest
        exact ⟨.head hnext hcomes, hfound⟩

/-- At the level that decides on two names, the machine gives up with the rule that fails. -/
theorem next?_of_rule {left right : String} {lookup : Lookup} {rule : FailedRule}
    (hcontrol : machine.control = .tasks ⟨top, all, .values level left right entry :: tasks⟩)
    (hlookup : machine.stack.lookup? level left right = some lookup)
    (hdecides : ∀ parent, lookup ≠ .outward parent)
    (hrule : lookupRule? left right lookup = some rule) :
    machine.next? options = some (machine.goes (.fail rule entry)) := by
  rw [next?, hcontrol]
  simp only [values?, hlookup, Option.map_some]
  cases lookup with
  | outward parent => exact absurd rfl (hdecides parent)
  | _ => simp only [hrule]

/-- At the level that decides on two names, the machine goes on with what they lead to. -/
theorem next?_of_no_rule {left right : String} {lookup : Lookup}
    (hcontrol : machine.control = .tasks ⟨top, all, .values level left right entry :: tasks⟩)
    (hlookup : machine.stack.lookup? level left right = some lookup)
    (hrule : lookupRule? left right lookup = none) :
    machine.next? options = some (machine.goes
      (.tasks (Worklist.add ⟨top, all, tasks⟩ (lookupTasks level entry lookup)))) := by
  rw [next?, hcontrol]
  simp only [values?, hlookup, Option.map_some]
  cases lookup with
  | outward parent => cases hrule
  | _ => simp only [hrule]

/-- The machine follows the comparison of two names. -/
theorem followsStep_values {left right : String} {outcome : Outcome (Option (List Pending))}
    {final : CompareState} {relation : NestedRelation} (hmachine : machine.InOrder options)
    (hcontrol : machine.control = .tasks ⟨top, all, .values level left right entry :: tasks⟩)
    (hreads : Retraces options machine.trail entry via)
    (hrun : StepRun options relation machine.state (.values level left right via) outcome final) :
    machine.FollowsStep options ⟨top, all, tasks⟩ final outcome := by
  cases hrun with
  | namesLost hlost =>
      obtain ⟨scope, hscope⟩ := ScopeStack.exists_scope? (hmachine.next_inRange hcontrol).level
      exact absurd hlost (ScopeStack.lookupOutward?_ne_none (fun hat => hmachine.enclosed hat) hscope
        (Nat.le_refl level))
  | namesDiffer hlookup hrule =>
      obtain ⟨hcomes, hfound⟩ := comes_of_lookup hcontrol hlookup
      have hdecides := ScopeStack.lookupOutward?_decides hlookup
      apply comesTo_of_goes (hcomes.tail (next?_of_rule rfl hfound hdecides hrule))
      exact comesTo_of_fail rfl hreads
  | @namesLead _ found _ _ _ lookup hlookup hrule =>
      obtain ⟨hcomes, hfound⟩ := comes_of_lookup hcontrol hlookup
      refine ⟨[], lookupTasks found entry lookup, ?_, ?_⟩
      · exact lookupTasks_standFor (hreads.append []) found lookup
      · rw [moved_nil]
        exact hcomes.tail (next?_of_no_rule rfl hfound hrule)

theorem FollowsCalls.of_moved {nodes : NodesAtHand} {later : List GraphCall} {work : Worklist}
    {state final : CompareState} {more : List TrailEntry} {control : Control}
    {outcome : Outcome (Option GraphCall)}
    (hfollows : (machine.moved state more control).FollowsCalls options nodes later work via final
      outcome) (hcomes : Comes options machine (machine.moved state more control)) :
    machine.FollowsCalls options nodes later work via final outcome := by
  rcases outcome with error | _ | call
  · exact comesTo_of_moved hcomes hfollows
  · obtain ⟨more', hreads, hrest⟩ := hfollows
    rw [moved_moved] at hrest
    refine ⟨more ++ more', ?_, hcomes.trans hrest⟩
    rwa [← List.append_assoc]
  · exact comesTo_of_moved hcomes hfollows

/-- The machine follows calls for the graphs of two nodes. -/
theorem followsCalls {nodes : NodesAtHand} {calls later : List GraphCall} {work : Worklist}
    {outcome : Outcome (Option GraphCall)} {final : CompareState}
    (hnested : FollowsNested options levels) (hmachine : machine.InOrder options)
    (hdepth : machine.depth + levels = options.depthLimit)
    (hcontrol : machine.control = .graphs nodes (calls ++ later) work)
    (hreads : Retraces options machine.trail nodes.entry via)
    (hrun : CallsRun (NestedRun options levels) nodes.level calls machine.state outcome final) :
    machine.FollowsCalls options nodes later work via final outcome := by
  generalize hstate : machine.state = state at hrun
  induction hrun generalizing machine with
  | finished =>
      refine ⟨[], hreads.append [], ?_⟩
      rw [List.nil_append] at hcontrol
      rw [← hstate, moved_nil, goes, ← hcontrol]
  | matched hcall hcalls ih =>
      obtain ⟨more, hcomes⟩ := hnested hmachine hdepth hcontrol hreads (hstate ▸ hcall)
      have hfollows := ih (hmachine.comes hcomes) hdepth rfl (hreads.append more) rfl
      exact hfollows.of_moved hcomes
  | differed hcall => exact hnested hmachine hdepth hcontrol hreads (hstate ▸ hcall)
  | stopped hcall => exact hnested hmachine hdepth hcontrol hreads (hstate ▸ hcall)

/-- The machine visits two nodes that have no partners, and follows calls for their graphs. -/
theorem followsCalls_of_fresh {left right : Nat} {scope : Scope} {leftNode rightNode : Node}
    {calls later : List GraphCall} {outcome : Outcome (Option GraphCall)} {final : CompareState}
    (hnested : FollowsNested options levels) (hmachine : machine.InOrder options)
    (hdepth : machine.depth + levels = options.depthLimit)
    (hcontrol : machine.control = .tasks ⟨top, all, .nodes level left right entry :: tasks⟩)
    (hreads : Retraces options machine.trail entry via)
    (hfresh : FreshNodes machine.stack level left right scope leftNode rightNode)
    (hrule : nodeRule? leftNode rightNode = none)
    (hplan : (attributePlan leftNode.attributes rightNode.attributes).calls = calls ++ later)
    (hrun : CallsRun (NestedRun options levels) level calls machine.state outcome final) :
    ∃ entry', machine.FollowsCalls options ⟨level, left, right, leftNode, rightNode, entry'⟩ later
      ⟨top, all, tasks⟩ (.nodes level left right leftNode.opType :: via) final outcome := by
  obtain ⟨more, hvisit, hvisited⟩ := exists_visit hreads (.nodes level left right leftNode.opType)
  have hnext : machine.next? options = some (machine.moved machine.state more
      (.graphs ⟨level, left, right, leftNode, rightNode, machine.nextEntry options⟩ (calls ++ later)
        ⟨top, all, tasks⟩)) := by
    rw [← hvisit, ← hplan, next?, hcontrol]
    simp only [nodes?, hfresh.scope_eq, hfresh.unpaired, hfresh.left_eq, hfresh.right_eq, hrule]
  have hfollows := followsCalls hnested (hmachine.comes (.single hnext)) hdepth rfl hvisited hrun
  exact ⟨machine.nextEntry options, hfollows.of_moved (.single hnext)⟩

/-- The machine follows the comparison of two nodes. -/
theorem followsStep_nodes {left right : Nat} {outcome : Outcome (Option (List Pending))}
    {final : CompareState} (hnested : FollowsNested options levels)
    (hmachine : machine.InOrder options) (hdepth : machine.depth + levels = options.depthLimit)
    (hcontrol : machine.control = .tasks ⟨top, all, .nodes level left right entry :: tasks⟩)
    (hreads : Retraces options machine.trail entry via)
    (hrun : StepRun options (NestedRun options levels) machine.state (.nodes level left right via)
      outcome final) :
    machine.FollowsStep options ⟨top, all, tasks⟩ final outcome := by
  obtain ⟨held, hheld, hleft, hright⟩ := (hmachine.next_inRange hcontrol).nodes left right rfl
  -- all that comes after the calls for graphs starts from here
  have hcalled : ∀ {scope : Scope} {leftNode rightNode : Node}
      {outcome : Outcome (Option GraphCall)} {inner : CompareState},
      FreshNodes machine.stack level left right scope leftNode rightNode →
      nodeRule? leftNode rightNode = none →
      CallsRun (NestedRun options levels) level
        (attributePlan leftNode.attributes rightNode.attributes).calls machine.state outcome inner →
      ∃ entry', machine.FollowsCalls options ⟨level, left, right, leftNode, rightNode, entry'⟩ []
        ⟨top, all, tasks⟩ (.nodes level left right leftNode.opType :: via) inner outcome :=
    fun hfresh hrule hcalls => followsCalls_of_fresh hnested hmachine hdepth hcontrol hreads hfresh
      hrule (List.append_nil _).symm hcalls
  cases hrun with
  | scopeLost hlost => cases hheld.symm.trans hlost
  | leftLost hscope _ hlost =>
      cases hheld.symm.trans hscope
      exact absurd hleft (Nat.not_lt_of_le (List.getElem?_eq_none_iff.mp hlost))
  | rightLost hscope _ _ hlost =>
      cases hheld.symm.trans hscope
      exact absurd hright (Nat.not_lt_of_le (List.getElem?_eq_none_iff.mp hlost))
  | partners hscope hpartner =>
      have hnext : machine.next? options = some (machine.goes (.tasks ⟨top, all, tasks⟩)) := by
        rw [next?, hcontrol]
        simp only [nodes?, stack, hscope, hpartner, if_true]
      refine ⟨[], [], .nil, ?_⟩
      rw [moved_nil]
      exact .single hnext
  | @conflict _ _ _ partner _ _ hscope hpartner hdiffers =>
      have hnext : machine.next? options =
          some (machine.goes (.fail (.mappingConflict left partner right) entry)) := by
        rw [next?, hcontrol]
        simp only [nodes?, stack, hscope, hpartner, if_neg hdiffers]
      exact comesTo_of_goes (.single hnext) (comesTo_of_fail rfl hreads)
  | @nodesDiffer _ _ _ _ _ leftNode _ rule hfresh hrule =>
      obtain ⟨more, hvisit, hvisited⟩ :=
        exists_visit hreads (.nodes level left right leftNode.opType)
      have hnext : machine.next? options = some (machine.moved machine.state more
          (.fail rule (machine.nextEntry options))) := by
        rw [← hvisit, next?, hcontrol]
        simp only [nodes?, stack, hfresh.scope_eq, hfresh.unpaired, hfresh.left_eq, hfresh.right_eq,
          hrule]
      exact comesTo_of_moved (.single hnext) (comesTo_of_fail rfl hvisited)
  | callStopped hfresh hrule hcalls =>
      obtain ⟨_, hfollows⟩ := hcalled hfresh hrule hcalls
      exact hfollows
  | callDiffered hfresh hrule hcalls =>
      obtain ⟨_, hfollows⟩ := hcalled hfresh hrule hcalls
      exact hfollows
  | attributesDiffer hfresh hrule hcalls hdifference =>
      obtain ⟨_, more, hreads', hcomes⟩ := hcalled hfresh hrule hcalls
      refine comesTo_of_moved hcomes (comesTo_of_goes (.single ?_) (comesTo_of_fail rfl hreads'))
      simp only [next?, moved, pair?, hdifference]
  | inputCountsDiffer hfresh hrule hcalls hdifference hlength =>
      obtain ⟨_, more, hreads', hcomes⟩ := hcalled hfresh hrule hcalls
      refine comesTo_of_moved hcomes (comesTo_of_goes (.single ?_) (comesTo_of_fail rfl hreads'))
      simp only [next?, moved, pair?, hdifference, if_neg hlength]
  | @nodesPaired _ _ _ _ _ leftNode rightNode inner hfresh hrule hcalls hdifference hlength
      hunpaired =>
      obtain ⟨entry', more, hreads', hcomes⟩ := hcalled hfresh hrule hcalls
      obtain ⟨scope, hheld', _⟩ := (hmachine.comes hcomes).control.2.inRange.held
      have hscope : inner.stack.scope? level = some scope := hheld'
      rw [ScopeStack.partner?_of_scope? hscope] at hunpaired
      refine ⟨more, valueTasks level leftNode.inputs rightNode.inputs entry', ?_, hcomes.tail ?_⟩
      · exact valueTasks_standFor hreads' level _ _
      · simp only [next?, moved, pair?, hdifference, if_pos hlength, stack, hscope, Option.map_some,
          hunpaired]
  | pairedTwice hfresh hrule hcalls hdifference hlength hpartner =>
      obtain ⟨_, more, _, hcomes⟩ := hcalled hfresh hrule hcalls
      obtain ⟨scope, hheld', _⟩ := (hmachine.comes hcomes).control.2.inRange.held
      have hscope : final.stack.scope? level = some scope := hheld'
      rw [ScopeStack.partner?_of_scope? hscope] at hpartner
      refine ⟨more, hcomes.tail ?_⟩
      simp only [next?, moved, pair?, hdifference, if_pos hlength, stack, hscope, Option.map_some,
        hpartner, goes]

theorem followsStep {task : Task} {next : Pending} {outcome : Outcome (Option (List Pending))}
    {final : CompareState} (hnested : FollowsNested options levels)
    (hmachine : machine.InOrder options) (hdepth : machine.depth + levels = options.depthLimit)
    (hcontrol : machine.control = .tasks ⟨top, all, task :: tasks⟩)
    (hstands : task.StandsFor options machine.trail next)
    (hrun : StepRun options (NestedRun options levels) machine.state next outcome final) :
    machine.FollowsStep options ⟨top, all, tasks⟩ final outcome := by
  cases hstands with
  | values hreads => exact followsStep_values hmachine hcontrol hreads hrun
  | nodes hreads => exact followsStep_nodes hnested hmachine hdepth hcontrol hreads hrun

end Steps

section Descents

variable {level : Nat} {all : Bool} {outcome : Outcome Bool} {final : CompareState}

/-- The machine follows a descent, step by step. -/
theorem followsDrain {tasks : List Task} {pending : List Pending}
    (hnested : FollowsNested options levels) (hmachine : machine.InOrder options)
    (hdepth : machine.depth + levels = options.depthLimit)
    (hcontrol : machine.control = .tasks ⟨level, all, tasks⟩)
    (hstands : List.Forall₂ (Task.StandsFor options machine.trail) tasks pending)
    (hrun : DrainRun options (NestedRun options levels) machine.state pending outcome final) :
    machine.ComesTo options final (afterDescent level all outcome) := by
  generalize hstate : machine.state = state at hrun
  induction hrun generalizing machine tasks with
  | finished =>
      cases hstands
      rw [← hstate]
      exact comesTo_here hcontrol
  | failed hstep =>
      cases hstands with
      | cons hfirst _ => exact followsStep hnested hmachine hdepth hcontrol hfirst (hstate ▸ hstep)
  | stopped hstep =>
      cases hstands with
      | cons hfirst _ => exact followsStep hnested hmachine hdepth hcontrol hfirst (hstate ▸ hstep)
  | continued hstep _ ih =>
      cases hstands with
      | cons hfirst hrest =>
          obtain ⟨more, leads, hleads, hcomes⟩ :=
            followsStep hnested hmachine hdepth hcontrol hfirst (hstate ▸ hstep)
          have hpending := List.rel_append hleads (hrest.imp fun _ _ hstand => hstand.append more)
          exact comesTo_of_moved hcomes (ih (hmachine.comes hcomes) hdepth rfl hpending rfl)

/-- If there are as many outputs on either side, they are what is to be compared first. -/
theorem next?_of_outputs {scope : Scope} (hcontrol : machine.control = .bodies level all)
    (hscope : machine.stack.scope? level = some scope)
    (hlength : scope.left.outputs.length = scope.right.outputs.length) :
    machine.next? options = some (machine.goes
      (.tasks ⟨level, all, valueTasks level scope.left.outputs scope.right.outputs none⟩)) := by
  rw [next?, hcontrol]
  simp only [bodies?, hscope, if_pos hlength, Option.map_some]

/-- The machine follows the comparison of the outputs of two bodies. -/
theorem followsOutputs {scope : Scope} (hnested : FollowsNested options levels)
    (hmachine : machine.InOrder options) (hdepth : machine.depth + levels = options.depthLimit)
    (hcontrol : machine.control = .bodies level all)
    (hscope : machine.stack.scope? level = some scope)
    (hrun : OutputsRun options (NestedRun options levels) level scope.left.outputs
      scope.right.outputs machine.state outcome final) :
    machine.ComesTo options final (afterDescent level all outcome) := by
  cases hrun with
  | countsDiffer hlength =>
      have hnext : machine.next? options = some (machine.goes (.fail
          (.valueCount scope.left.outputs.length scope.right.outputs.length) none)) := by
        rw [next?, hcontrol]
        simp only [bodies?, hscope, if_neg hlength, Option.map_some]
      exact comesTo_of_goes (.single hnext) (comesTo_of_fail rfl .none)
  | drained hlength hdrain =>
      have hcomes : Comes options machine _ := .single (next?_of_outputs hcontrol hscope hlength)
      have hstands := valueTasks_standFor (@Retraces.none options machine.trail) level
        scope.left.outputs scope.right.outputs
      exact comesTo_of_goes hcomes
        (followsDrain hnested (hmachine.comes hcomes) hdepth rfl hstands hdrain)

/-- The machine follows the check that all nodes are paired. -/
theorem followsPaired (hmachine : machine.InOrder options)
    (hcontrol : machine.control = .tasks ⟨level, true, []⟩)
    (hrun : PairedRun options level machine.state outcome final) :
    machine.ComesTo options final (.leave outcome) := by
  cases hrun with
  | lost hlost =>
      have hlevel := (hmachine.of_control hcontrol).level_eq
      obtain ⟨scope, hscope⟩ := hmachine.exists_scope_of_le (Nat.le_of_eq hlevel)
      cases hscope.symm.trans hlost
  | @failed scope rule hscope hrule =>
      have hnext : machine.next? options = some (machine.goes (.fail rule none)) := by
        rw [next?, hcontrol]
        simp only [finish?, if_true, stack, hscope, hrule, Option.map_some]
      exact comesTo_of_goes (.single hnext) (comesTo_of_fail rfl .none)
  | passed hscope hrule =>
      apply comesTo_of_next
      rw [next?, hcontrol]
      simp only [finish?, if_true, stack, hscope, hrule, Option.map_some]
      rfl

/-- A descent that fails or stops is left at once. -/
theorem ends_of_failed (hnested : FollowsNested options levels) (hmachine : machine.InOrder options)
    (hdepth : machine.depth + levels = options.depthLimit) {scope : Scope}
    (hcontrol : machine.control = .bodies level all)
    (hscope : machine.stack.scope? level = some scope)
    (hrun : OutputsRun options (NestedRun options levels) level scope.left.outputs
      scope.right.outputs machine.state outcome final) (hfails : outcome ≠ .ok true) :
    machine.ComesTo options final (.leave outcome) := by
  have hcomes := followsOutputs hnested hmachine hdepth hcontrol hscope hrun
  rcases outcome with error | _ | _
  · exact hcomes
  · exact hcomes
  · exact absurd rfl hfails

/-- After a descent in which all matched, the nodes are checked to be paired. -/
theorem ends_of_checked (hnested : FollowsNested options levels) (hmachine : machine.InOrder options)
    (hdepth : machine.depth + levels = options.depthLimit) {scope : Scope} {inner : CompareState}
    (hcontrol : machine.control = .bodies level true)
    (hscope : machine.stack.scope? level = some scope)
    (hrun : OutputsRun options (NestedRun options levels) level scope.left.outputs
      scope.right.outputs machine.state (.ok true) inner)
    (hpaired : PairedRun options level inner outcome final) :
    machine.ComesTo options final (.leave outcome) := by
  obtain ⟨more, hcomes⟩ := followsOutputs hnested hmachine hdepth hcontrol hscope hrun
  exact comesTo_of_moved hcomes (followsPaired (hmachine.comes hcomes) rfl hpaired)

/-- The machine follows the comparison of the bodies of two graphs. -/
theorem followsBodies (hnested : FollowsNested options levels) (hmachine : machine.InOrder options)
    (hdepth : machine.depth + levels = options.depthLimit)
    (hcontrol : machine.control = .bodies level options.pairAllNodes)
    (hrun : BodiesRun options (NestedRun options levels) level machine.state outcome final) :
    machine.ComesTo options final (.leave outcome) := by
  cases hrun with
  | lost hlost =>
      have hlevel := hmachine.of_control hcontrol
      obtain ⟨scope, hscope⟩ := hmachine.exists_scope_of_le (Nat.le_of_eq hlevel)
      cases hscope.symm.trans hlost
  | failed hscope houtputs hfails =>
      exact ends_of_failed hnested hmachine hdepth hcontrol hscope houtputs hfails
  | matched hscope houtputs hall =>
      rw [hall] at hcontrol
      obtain ⟨more, hcomes⟩ := followsOutputs hnested hmachine hdepth hcontrol hscope houtputs
      exact comesTo_of_moved hcomes (comesTo_of_next rfl)
  | checked hscope houtputs hall hpaired =>
      rw [hall] at hcontrol
      exact ends_of_checked hnested hmachine hdepth hcontrol hscope houtputs hpaired

end Descents

section Nested

variable {nodes : NodesAtHand} {call : GraphCall} {calls : List GraphCall} {work : Worklist}
  {via : List UseStep}

/-- The machine gives up at once if the headers of two graphs differ. -/
theorem followsCall_of_header {rule : FailedRule} (hmachine : machine.InOrder options)
    (hcontrol : machine.control = .graphs nodes (call :: calls) work)
    (hreads : Retraces options machine.trail nodes.entry via)
    (hheader : headerDifference? call.left call.right = some rule) :
    machine.FollowsCall options nodes call calls work via (machine.state.rejected options rule [])
      (.ok false) := by
  apply comesTo_of_next
  rw [next?, hcontrol]
  simp only [call?, hheader]
  exact @blame?_eq options { machine with state := machine.state.rejected options rule [] } nodes.entry
    via (hmachine.difference_rejected rule []) hreads call

/-- The machine does not begin with two graphs if there are too many calls inside each other. -/
theorem followsCall_of_limit (hcontrol : machine.control = .graphs nodes (call :: calls) work)
    (hheader : headerDifference? call.left call.right = none)
    (hdepth : options.depthLimit ≤ machine.depth) :
    machine.FollowsCall options nodes call calls work via machine.state
      (.error (.depthLimitExceeded options.depthLimit)) := by
  apply comesTo_of_next
  rw [next?, hcontrol]
  simp only [call?, hheader, if_neg (Nat.not_lt_of_le hdepth)]
  rfl

/-- The machine enters the scope of two graphs if not too many calls are inside each other. -/
theorem next?_enters (hmachine : machine.InOrder options)
    (hcontrol : machine.control = .graphs nodes (call :: calls) work)
    (hheader : headerDifference? call.left call.right = none)
    (hdepth : machine.depth < options.depthLimit) :
    machine.next? options = some (machine.enters options nodes call calls work) := by
  obtain ⟨scope, hscope, _⟩ := (hmachine.of_control hcontrol).2.inRange.held
  rw [next?, hcontrol]
  simp only [call?, hheader, if_pos hdepth, hscope, Option.map_some]

/-- Once the bodies of two graphs are compared, the machine leaves their scope. -/
theorem followsCall_of_left {inner : CompareState} {more : List TrailEntry} {outcome : Outcome Bool}
    (hreads : Retraces options machine.trail nodes.entry via)
    (hunrecorded : options.trace = false → inner.difference = none)
    (hcomes : Comes options machine
      ((machine.enters options nodes call calls work).moved inner more (.leave outcome))) :
    machine.FollowsCall options nodes call calls work via inner.popped outcome := by
  rcases outcome with error | _ | _
  · exact ⟨more, hcomes.tail rfl⟩
  · refine ⟨more, hcomes.tail ?_⟩
    exact @blame?_eq options (machine.moved inner.popped more (.leave (.ok false))) nodes.entry via
      hunrecorded (hreads.append more) call
  · exact ⟨more, hcomes.tail rfl⟩

/-- The machine follows the comparison of two nested graphs, whatever the number of levels that are
left. -/
theorem followsNested (options : CompareOptions) (levels : Nat) : FollowsNested options levels := by
  induction levels with
  | zero =>
      intro machine nodes call calls work via outcome final hmachine hdepth hcontrol hreads hrun
      rcases hrun with hheader | ⟨hheader, rfl, rfl⟩
      · exact followsCall_of_header hmachine hcontrol hreads hheader
      · exact followsCall_of_limit hcontrol hheader (Nat.le_of_eq hdepth.symm)
  | succ levels ih =>
      intro machine nodes call calls work via outcome final hmachine hdepth hcontrol hreads hrun
      rcases hrun with hheader | ⟨hheader, inner, hbodies, rfl⟩
      · exact followsCall_of_header hmachine hcontrol hreads hheader
      · have hnext := next?_enters hmachine hcontrol hheader (by omega)
        have hentered := hmachine.comes (.single hnext)
        have hdepth' : machine.depth + 1 + levels = options.depthLimit := by omega
        obtain ⟨more, hcomes⟩ := followsBodies ih hentered hdepth' rfl hbodies
        exact followsCall_of_left hreads (hentered.comes hcomes).unrecorded (.head hnext hcomes)

end Nested

end Machine

end OpGraph
