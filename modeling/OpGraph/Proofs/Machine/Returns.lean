import OpGraph.Proofs.Machine.Safety

/-!
A comparison of nested graphs, seen from around it. However it ends, the scopes that were in use are
in use again, with the same bodies inside of the same levels, and as many calls are counted as
before. All that has changed is that pairs were added, also at levels around the graphs. When the
comparison of the operands has ended, the root is the only scope left and no call is counted.
-/

namespace OpGraph

open CompareM

namespace Machine

variable {options : CompareOptions} {machine : Machine}

/-- What the machine is about to do once two graphs of nodes at hand are compared. -/
def afterCall (nodes : NodesAtHand) (calls : List GraphCall) (work : Worklist) :
    Outcome Bool → Control
  | .ok true => .graphs nodes calls work
  | outcome => .leave outcome

/-- How two graphs compare when the machine calls for them. -/
def answer (options : CompareOptions) (machine : Machine) (level : Nat) (call : GraphCall) :
    Outcome Bool :=
  (exec (compareNested options (options.depthLimit - machine.depth) level call.left call.right)
    machine.state).1

/-- The machine is back from a call for two graphs of nodes at hand. -/
structure BackFrom (options : CompareOptions) (machine : Machine) (nodes : NodesAtHand)
    (call : GraphCall) (calls : List GraphCall) (work : Worklist) (after : Machine) : Prop where
  control : after.control = afterCall nodes calls work (machine.answer options nodes.level call)
  depth : after.depth = machine.depth
  suspended : after.suspended = machine.suspended
  /-- There are as many scopes as before. Each has its parent, its bodies and its pairs still. -/
  scopes : machine.stack.Extends after.stack

/-- The machine comes back from every call, however it ends. -/
theorem InOrder.exists_back (hmachine : machine.InOrder options) {nodes : NodesAtHand}
    {call : GraphCall} {calls : List GraphCall} {work : Worklist}
    (hcontrol : machine.control = .graphs nodes (call :: calls) work) :
    ∃ after, Comes options machine after ∧
      machine.BackFrom options nodes call calls work after := by
  obtain ⟨via, hvia⟩ := hmachine.exists_path (hmachine.of_control hcontrol).2.inRange.entry
  have hreads : Retraces options machine.trail nodes.entry via := fun _ => hvia
  have hrun := compareNested_run options (options.depthLimit - machine.depth) nodes.level call.left
    call.right machine.state
  have hgrows := nestedRun_grows options _ _ _ _ _ _ _ hrun
  have hfollows : machine.FollowsCall options nodes call calls work via
      (exec (compareNested options (options.depthLimit - machine.depth) nodes.level call.left
        call.right) machine.state).2 (machine.answer options nodes.level call) := by
    rcases Nat.le_total machine.depth options.depthLimit with hdepth | hdepth
    · exact followsNested options _ hmachine (Nat.add_sub_cancel' hdepth) hcontrol hreads hrun
    · rw [answer]
      rw [Nat.sub_eq_zero_of_le hdepth] at hrun ⊢
      generalize exec (compareNested options 0 nodes.level call.left call.right) machine.state =
        ending at hrun ⊢
      obtain ⟨outcome, final⟩ := ending
      rcases hrun with hheader | ⟨hheader, rfl, rfl⟩
      · exact followsCall_of_header hmachine hcontrol hreads hheader
      · exact followsCall_of_limit hcontrol hheader hdepth
  cases hanswer : machine.answer options nodes.level call with
  | error error =>
      rw [hanswer] at hfollows
      obtain ⟨more, hcomes⟩ := hfollows
      exact ⟨_, hcomes, by rw [hanswer]; rfl, rfl, rfl, hgrows⟩
  | ok matched =>
      rw [hanswer] at hfollows
      cases matched <;> obtain ⟨more, hcomes⟩ := hfollows <;>
        exact ⟨_, hcomes, by rw [hanswer]; rfl, rfl, rfl, hgrows⟩

/-- Two nodes and a worklist that are in range belong to the innermost level or to those around
it. -/
theorem InOrder.goes_call (hmachine : machine.InOrder options) {nodes : NodesAtHand}
    (hnodes : nodes.InRange machine.stack machine.trail) {work : Worklist}
    (hlevel : work.level + 1 = machine.stack.depth)
    (htasks : ∀ task ∈ work.tasks, task.InRange machine.stack machine.trail)
    (calls : List GraphCall) : (machine.goes (.graphs nodes calls work)).InOrder options := by
  have hle : ∀ {level}, level < machine.stack.depth → level ≤ machine.suspended.length := by
    intro level hlt
    rw [hmachine.stack_depth] at hlt
    exact Nat.le_of_lt_succ hlt
  obtain ⟨scope, hscope, _⟩ := hnodes.held
  refine hmachine.goes ⟨⟨?_, fun task htask => hle (htasks task htask).level, htasks⟩,
    hle (ScopeStack.scope?_eq_some_lt hscope), hnodes⟩
  rw [hmachine.stack_depth] at hlevel
  exact Nat.succ_injective hlevel

end Machine

namespace Operands

open Machine

variable {options : CompareOptions} {operands : Operands}

/-- Comparisons of nested graphs leave everything around them in order. -/
structure LeavesInOrder (options : CompareOptions) (operands : Operands) : Prop where
  /-- From whatever state two graphs are compared, and at whatever level, the scopes stay. -/
  scopes : ∀ levels level left right (state : CompareState), state.stack.Extends
    (exec (compareNested options levels level left right) state).2.stack
  /-- The machine comes back from each call that it makes. -/
  made : ∀ (machine : Machine) nodes call calls work,
    Comes options (operands.machine options) machine →
    machine.control = .graphs nodes (call :: calls) work →
    ∃ after, Comes options machine after ∧ machine.BackFrom options nodes call calls work after
  /-- Wherever the machine comes, it would come back from a call for any two graphs, at the level of any
  two nodes. -/
  possible : ∀ (machine : Machine) nodes call calls work,
    Comes options (operands.machine options) machine →
    nodes.InRange machine.stack machine.trail → work.level + 1 = machine.stack.depth →
    (∀ task ∈ work.tasks, task.InRange machine.stack machine.trail) →
    ∃ after, Comes options (machine.goes (.graphs nodes (call :: calls) work)) after ∧
      machine.BackFrom options nodes call calls work after
  /-- The machine ends. -/
  halts : ∃ machine, Comes options (operands.machine options) machine ∧ machine.Halted
  /-- When it has ended, the root is the only scope, and no call is counted. -/
  halted : ∀ machine, Comes options (operands.machine options) machine → machine.Halted →
    machine.stack.depth = 1 ∧ machine.depth = 0

end Operands

/-- However a comparison of nested graphs ends, what is around it is as before, but for added
pairs. -/
theorem compare_leaves_in_order (options : CompareOptions) (operands : Operands) :
    operands.LeavesInOrder options where
  scopes levels level left right state :=
    nestedRun_grows options levels _ _ _ _ _ _ (compareNested_run options levels level left right state)
  made machine nodes call calls work hcomes hcontrol :=
    ((operands.inOrder_machine options).comes hcomes).exists_back hcontrol
  possible machine nodes call calls work hcomes hnodes hlevel htasks := by
    have hordered := (operands.inOrder_machine options).comes hcomes
    obtain ⟨after, hafter, hback⟩ :=
      (hordered.goes_call hnodes hlevel htasks (call :: calls)).exists_back rfl
    exact ⟨after, hafter, hback.control, hback.depth, hback.suspended, hback.scopes⟩
  halts := by
    obtain ⟨more, hcomes⟩ := operands.comesTo_ending options
    exact ⟨_, hcomes, rfl, _, rfl⟩
  halted machine hcomes hhalted := by
    have hordered := (operands.inOrder_machine options).comes hcomes
    rw [hordered.stack_depth, hordered.depth_eq, hhalted.1]
    exact ⟨rfl, rfl⟩

end OpGraph
