import OpGraph.Proofs.Descent.Invariants
import OpGraph.Proofs.Machine.Basic

/-!
The machine finds something at every place that it looks at. A worklist belongs to a level, and its
tasks are at this level or around it; the worklists that wait belong to the levels below, in order. So
the levels of their tasks stay in use until the worklist is done, whatever scopes are entered and left
in between. Each step keeps this, and is possible because of it.
-/

namespace OpGraph

open CompareM

namespace ScopeStack

/-- There are two nodes with these places at a level, one on either side. -/
def HoldsNodes (stack : ScopeStack) (level left right : Nat) : Prop :=
  ∃ scope, stack.scope? level = some scope ∧ left < scope.left.nodes.length ∧
    right < scope.right.nodes.length

/-- The scopes below a level are there with the same bodies. -/
def KeepsBelow (bound : Nat) (stack stack' : ScopeStack) : Prop :=
  ∀ ⦃level : Nat⦄ ⦃scope : Scope⦄, level < bound → stack.scope? level = some scope →
    ∃ scope', stack'.scope? level = some scope' ∧ scope'.left = scope.left ∧
      scope'.right = scope.right

variable {stack stack' : ScopeStack} {bound : Nat}

theorem keepsBelow_self (bound : Nat) (stack : ScopeStack) : KeepsBelow bound stack stack :=
  fun _ scope _ hscope => ⟨scope, hscope, rfl, rfl⟩

theorem Extends.keepsBelow (hextends : stack.Extends stack') : KeepsBelow bound stack stack' := by
  intro level scope _ hscope
  obtain ⟨scope', hscope', hscopes⟩ := hextends.scope? hscope
  exact ⟨scope', hscope', hscopes.left, hscopes.right⟩

theorem keepsBelow_push (parent : Nat) (left right : Body) :
    KeepsBelow stack.depth stack (stack.push parent left right) := by
  intro level scope hlevel hscope
  exact ⟨scope, (scope?_push_of_lt hlevel).trans hscope, rfl, rfl⟩

theorem keepsBelow_pop (hbound : bound < stack.depth) : KeepsBelow bound stack stack.pop := by
  intro level scope hlevel hscope
  exact ⟨scope, (scope?_pop_of_lt (by omega)).trans hscope, rfl, rfl⟩

end ScopeStack

/-- The place is one in the trail. -/
def InTrail (trail : List TrailEntry) (entry : Option Nat) : Prop :=
  ∀ place ∈ entry, place < trail.length

/-- A pair in the trail was led to by one before it. -/
def TrailInOrder (trail : List TrailEntry) : Prop :=
  ∀ ⦃place : Nat⦄ ⦃entry : TrailEntry⦄, trail[place]? = some entry →
    ∀ parent ∈ entry.parent, parent < place

/-- All places of a task are there. -/
structure Task.InRange (stack : ScopeStack) (trail : List TrailEntry) (task : Task) : Prop where
  level : task.level < stack.depth
  entry : InTrail trail task.entry
  nodes : ∀ left right, task.nodes? = some (left, right) → stack.HoldsNodes task.level left right

/-- All places of two nodes at hand are there. -/
structure NodesAtHand.InRange (stack : ScopeStack) (trail : List TrailEntry) (nodes : NodesAtHand) :
    Prop where
  held : ∃ scope, stack.scope? nodes.level = some scope ∧
    scope.left.nodes[nodes.left]? = some nodes.leftNode ∧
    scope.right.nodes[nodes.right]? = some nodes.rightNode
  entry : InTrail trail nodes.entry

/-- The worklist of a level: its tasks are at this level or around it. -/
structure Worklist.Of (stack : ScopeStack) (trail : List TrailEntry) (level : Nat) (work : Worklist) :
    Prop where
  level_eq : work.level = level
  level_le : ∀ task ∈ work.tasks, task.level ≤ level
  tasks : ∀ task ∈ work.tasks, task.InRange stack trail

/-- Two nodes at hand in the worklist of a level. -/
structure NodesAtHand.Of (stack : ScopeStack) (trail : List TrailEntry) (level : Nat)
    (nodes : NodesAtHand) : Prop where
  level_le : nodes.level ≤ level
  inRange : nodes.InRange stack trail

/-- What waits belongs to the levels in order. -/
def SuspendedInOrder (stack : ScopeStack) (trail : List TrailEntry) : List Suspended → Prop
  | [] => True
  | waiting :: suspended =>
      (waiting.work.Of stack trail suspended.length ∧
        waiting.nodes.Of stack trail suspended.length) ∧ SuspendedInOrder stack trail suspended

/-- What the machine is about to do belongs to a level. -/
def Control.Of (stack : ScopeStack) (trail : List TrailEntry) (level : Nat) : Control → Prop
  | .bodies other _ => other = level
  | .tasks work => work.Of stack trail level
  | .graphs nodes _ work => work.Of stack trail level ∧ nodes.Of stack trail level
  | .fail _ entry => InTrail trail entry
  | .leave _ => True

/-- What each step keeps. -/
structure Machine.InOrder (options : CompareOptions) (machine : Machine) : Prop where
  depth_eq : machine.depth = machine.suspended.length
  stack_depth : machine.stack.depth = machine.suspended.length + 1
  enclosed : ∀ ⦃level parent : Nat⦄ ⦃scope : Scope⦄, machine.stack.scope? level = some scope →
    scope.parent = some parent → parent < level
  pairs : ∀ level, machine.stack.InRangeAt level
  trail : TrailInOrder machine.trail
  suspended : SuspendedInOrder machine.stack machine.trail machine.suspended
  control : machine.control.Of machine.stack machine.trail machine.suspended.length
  unrecorded : options.trace = false → machine.state.difference = none

section Keeping

variable {stack stack' : ScopeStack} {trail trail' : List TrailEntry} {bound level : Nat}

theorem InTrail.none (trail : List TrailEntry) : InTrail trail none := by
  intro place hplace
  cases hplace

theorem InTrail.of_le {entry : Option Nat} (hlength : trail.length ≤ trail'.length)
    (hentry : InTrail trail entry) : InTrail trail' entry :=
  fun place hplace => Nat.lt_of_lt_of_le (hentry place hplace) hlength

theorem Task.inRange_values {left right : String} {entry : Option Nat} (hlevel : level < stack.depth)
    (hentry : InTrail trail entry) : Task.InRange stack trail (.values level left right entry) := by
  refine ⟨hlevel, hentry, ?_⟩
  intro _ _ hnodes
  cases hnodes

theorem ScopeStack.HoldsNodes.keep (hkeeps : ScopeStack.KeepsBelow bound stack stack')
    (hlevel : level < bound) {left right : Nat} (hholds : stack.HoldsNodes level left right) :
    stack'.HoldsNodes level left right := by
  obtain ⟨scope, hscope, hleft, hright⟩ := hholds
  obtain ⟨scope', hscope', hlefts, hrights⟩ := hkeeps hlevel hscope
  exact ⟨scope', hscope', hlefts ▸ hleft, hrights ▸ hright⟩

theorem Task.InRange.keep {task : Task} (hkeeps : ScopeStack.KeepsBelow bound stack stack')
    (hlength : trail.length ≤ trail'.length) (hlevel : task.level < bound)
    (htask : task.InRange stack trail) : task.InRange stack' trail' := by
  obtain ⟨scope, hscope⟩ := ScopeStack.exists_scope? htask.level
  obtain ⟨scope', hscope', _⟩ := hkeeps hlevel hscope
  refine ⟨ScopeStack.scope?_eq_some_lt hscope', htask.entry.of_le hlength, ?_⟩
  exact fun left right hnodes => (htask.nodes left right hnodes).keep hkeeps hlevel

theorem NodesAtHand.InRange.keep {nodes : NodesAtHand}
    (hkeeps : ScopeStack.KeepsBelow bound stack stack') (hlength : trail.length ≤ trail'.length)
    (hlevel : nodes.level < bound) (hnodes : nodes.InRange stack trail) :
    nodes.InRange stack' trail' := by
  obtain ⟨scope, hscope, hleft, hright⟩ := hnodes.held
  obtain ⟨scope', hscope', hlefts, hrights⟩ := hkeeps hlevel hscope
  exact ⟨⟨scope', hscope', by rwa [hlefts], by rwa [hrights]⟩, hnodes.entry.of_le hlength⟩

theorem Worklist.Of.keep {work : Worklist} (hkeeps : ScopeStack.KeepsBelow bound stack stack')
    (hlength : trail.length ≤ trail'.length) (hlevel : level < bound)
    (hwork : work.Of stack trail level) : work.Of stack' trail' level := by
  refine ⟨hwork.level_eq, hwork.level_le, fun task htask => ?_⟩
  exact (hwork.tasks task htask).keep hkeeps hlength
    (Nat.lt_of_le_of_lt (hwork.level_le task htask) hlevel)

theorem NodesAtHand.Of.keep {nodes : NodesAtHand}
    (hkeeps : ScopeStack.KeepsBelow bound stack stack') (hlength : trail.length ≤ trail'.length)
    (hlevel : level < bound) (hnodes : nodes.Of stack trail level) : nodes.Of stack' trail' level :=
  ⟨hnodes.level_le,
    hnodes.inRange.keep hkeeps hlength (Nat.lt_of_le_of_lt hnodes.level_le hlevel)⟩

theorem SuspendedInOrder.keep {suspended : List Suspended}
    (hkeeps : ScopeStack.KeepsBelow bound stack stack') (hlength : trail.length ≤ trail'.length)
    (hbound : suspended.length ≤ bound) (hsuspended : SuspendedInOrder stack trail suspended) :
    SuspendedInOrder stack' trail' suspended := by
  induction suspended with
  | nil => trivial
  | cons waiting suspended ih =>
      obtain ⟨⟨hwork, hnodes⟩, hrest⟩ := hsuspended
      have hlevel : suspended.length < bound := hbound
      exact ⟨⟨hwork.keep hkeeps hlength hlevel, hnodes.keep hkeeps hlength hlevel⟩,
        ih (Nat.le_of_lt hlevel) hrest⟩

theorem TrailInOrder.append (horder : TrailInOrder trail) {entry : TrailEntry}
    (hentry : InTrail trail entry.parent) : TrailInOrder (trail ++ [entry]) := by
  intro place other hother parent hparent
  rw [List.getElem?_append] at hother
  split at hother
  · exact horder hother parent hparent
  next hplace =>
    obtain rfl := List.mem_singleton.mp (List.mem_of_getElem? hother)
    exact Nat.lt_of_lt_of_le (hentry parent hparent) (Nat.le_of_not_lt hplace)

/-- A worklist of a level stays one when tasks come up at this level or around it. -/
theorem Worklist.Of.add {work : Worklist} (hwork : work.Of stack trail level) {tasks : List Task}
    (htasks : ∀ task ∈ tasks, task.level ≤ level ∧ task.InRange stack trail) :
    (work.add tasks).Of stack trail level := by
  refine ⟨hwork.level_eq, fun task htask => ?_, fun task htask => ?_⟩
  all_goals
    rcases List.mem_append.mp htask with hnew | hold
  · exact (htasks task hnew).1
  · exact hwork.level_le task hold
  · exact (htasks task hnew).2
  · exact hwork.tasks task hold

theorem valueTasks_inRange {other : Nat} (hlevel : other < stack.depth) {entry : Option Nat}
    (hentry : InTrail trail entry) (lefts rights : List String) :
    ∀ task ∈ valueTasks other lefts rights entry,
      task.level = other ∧ task.InRange stack trail := by
  intro task htask
  obtain ⟨place, hplace⟩ := List.mem_iff_getElem?.mp htask
  obtain ⟨left, right, _, _, rfl⟩ := List.getElem?_zipWith_eq_some.mp hplace
  exact ⟨rfl, Task.inRange_values hlevel hentry⟩

/-- Two names lead to nodes that are there. -/
theorem lookupTasks_inRange {scope : Scope} {left right : String} {lookup : Lookup}
    (hscope : stack.scope? level = some scope) (hlookup : scope.lookup left right = lookup)
    {entry : Option Nat} (hentry : InTrail trail entry) :
    ∀ task ∈ lookupTasks level entry lookup, task.level = level ∧ task.InRange stack trail := by
  intro task htask
  unfold lookupTasks at htask
  split at htask
  · obtain rfl := List.mem_singleton.mp htask
    obtain ⟨horigin, horigin'⟩ := ScopeStack.lookup_eq_here hlookup
    refine ⟨rfl, ScopeStack.scope?_eq_some_lt hscope, hentry, ?_⟩
    rintro _ _ ⟨⟩
    exact ⟨scope, hscope, (Body.defines_of_origin?_eq_output horigin).lt_length,
      (Body.defines_of_origin?_eq_output horigin').lt_length⟩
  · cases htask

end Keeping

/-- The way along the trail from a place of it ends. -/
theorem exists_trailPath {trail : List TrailEntry} (horder : TrailInOrder trail) {moves : Nat}
    (hmoves : moves ≤ trail.length) {entry : Option Nat} (hentry : ∀ place ∈ entry, place < moves) :
    ∃ path, trailPath? trail moves entry = some path := by
  induction moves generalizing entry with
  | zero =>
      cases entry with
      | none => exact ⟨[], rfl⟩
      | some place => exact absurd (hentry place rfl) (Nat.not_lt_zero place)
  | succ moves ih =>
      cases entry with
      | none => exact ⟨[], rfl⟩
      | some place =>
          have hplace := hentry place rfl
          have hget : trail[place]? = some trail[place] := List.getElem?_eq_getElem (by omega)
          obtain ⟨path, hpath⟩ := ih (by omega) fun parent hparent =>
            Nat.lt_of_lt_of_le (horder hget parent hparent) (Nat.le_of_lt_succ hplace)
          exact ⟨trail[place].use :: path, by rw [trailPath?, hget]; simp only [hpath]; rfl⟩

namespace Machine.InOrder

open ScopeStack

variable {options : CompareOptions} {machine : Machine}

theorem of_control (hmachine : machine.InOrder options) {control : Control}
    (hcontrol : machine.control = control) :
    control.Of machine.stack machine.trail machine.suspended.length := by
  rw [← hcontrol]
  exact hmachine.control

/-- The machine goes on without entering or leaving a scope or pairing nodes. -/
theorem goesIn (hmachine : machine.InOrder options) {state : CompareState} {control : Control}
    (hstack : state.stack = machine.stack)
    (hunrecorded : options.trace = false → state.difference = none)
    (hcontrol : control.Of machine.stack machine.trail machine.suspended.length) :
    InOrder options { machine with state, control } := by
  obtain ⟨⟨stack, difference⟩, depth, trail, suspended, _⟩ := machine
  obtain ⟨stack', difference'⟩ := state
  obtain rfl : stack' = stack := hstack
  exact { hmachine with control := hcontrol, unrecorded := hunrecorded }

theorem goes (hmachine : machine.InOrder options) {control : Control}
    (hcontrol : control.Of machine.stack machine.trail machine.suspended.length) :
    (machine.goes control).InOrder options :=
  hmachine.goesIn rfl hmachine.unrecorded hcontrol

theorem exists_path (hmachine : machine.InOrder options) {entry : Option Nat}
    (hentry : InTrail machine.trail entry) : ∃ path, machine.path? entry = some path :=
  exists_trailPath hmachine.trail (Nat.le_refl _) hentry

theorem difference_rejected (hmachine : machine.InOrder options) (rule : FailedRule)
    (path : List UseStep) (htrace : options.trace = false) :
    (machine.state.rejected options rule path).difference = none := by
  rw [CompareState.rejected, htrace]
  exact hmachine.unrecorded htrace

theorem fail (hmachine : machine.InOrder options) (rule : FailedRule) {entry : Option Nat}
    (hentry : InTrail machine.trail entry) :
    ∃ next, machine.fail? options rule entry = some next ∧ next.InOrder options := by
  obtain ⟨path, hpath⟩ : ∃ path, (if options.trace && machine.state.difference.isNone then
      machine.path? entry else some []) = some path := by
    split
    · exact hmachine.exists_path hentry
    · exact ⟨[], rfl⟩
  refine ⟨_, fail?_eq_some hpath rule, ?_⟩
  exact hmachine.goesIn (CompareState.stack_rejected _ _ _ _)
    (hmachine.difference_rejected rule path) trivial

theorem blame (hmachine : machine.InOrder options) {entry : Option Nat}
    (hentry : InTrail machine.trail entry) (call : GraphCall) :
    ∃ next, machine.blame? entry call = some next ∧ next.InOrder options := by
  obtain ⟨path, hpath⟩ : ∃ path, (if machine.state.difference.isSome then machine.path? entry
      else some []) = some path := by
    split
    · exact hmachine.exists_path hentry
    · exact ⟨[], rfl⟩
  refine ⟨_, blame?_eq_some hpath call, ?_⟩
  refine hmachine.goesIn rfl (fun htrace => ?_) trivial
  rw [CompareState.extended, hmachine.unrecorded htrace]
  rfl

/-- A pair of nodes that is led to by one in the trail may be visited. -/
theorem visit (hmachine : machine.InOrder options) {entry : TrailEntry}
    (hentry : InTrail machine.trail entry.parent) {control : Control}
    (hcontrol : ∀ trail, machine.trail.length ≤ trail.length →
      InTrail trail (machine.nextEntry options) →
      control.Of machine.stack trail machine.suspended.length) :
    ((machine.visit options entry).goes control).InOrder options := by
  rw [Machine.visit]
  cases htrace : options.trace with
  | false =>
      refine hmachine.goes (hcontrol _ (Nat.le_refl _) ?_)
      simp [InTrail, nextEntry, htrace]
  | true =>
      have hlength : machine.trail.length ≤ (machine.trail ++ [entry]).length := by simp
      have hnext : InTrail (machine.trail ++ [entry]) (machine.nextEntry options) := by
        simp [InTrail, nextEntry, htrace]
      exact { hmachine with
        trail := hmachine.trail.append hentry
        suspended := hmachine.suspended.keep (keepsBelow_self _ _) hlength (Nat.le_refl _)
        control := hcontrol _ hlength hnext }

/-- Two nodes at hand are paired. -/
theorem paired (hmachine : machine.InOrder options) {nodes : NodesAtHand} {work : Worklist}
    {scope : Scope} (hscope : machine.stack.scope? nodes.level = some scope)
    (hnodes : nodes.Of machine.stack machine.trail machine.suspended.length)
    (hwork : work.Of machine.stack machine.trail machine.suspended.length) :
    InOrder options { machine with
      state := machine.state.paired nodes.level nodes.left nodes.right
      control := .tasks (work.add (valueTasks nodes.level nodes.leftNode.inputs
        nodes.rightNode.inputs nodes.entry)) } := by
  obtain ⟨scope', hscope', hleft, hright⟩ := hnodes.inRange.held
  cases hscope.symm.trans hscope'
  have hextends := extends_pair machine.stack nodes.level nodes.left nodes.right
  have hkeeps : KeepsBelow machine.stack.depth machine.stack
      (machine.stack.pair nodes.level nodes.left nodes.right) := hextends.keepsBelow
  have hlevel : machine.suspended.length < machine.stack.depth := by
    rw [hmachine.stack_depth]
    exact Nat.lt_succ_self _
  refine { hmachine with
    stack_depth := (depth_pair _ _ _ _).trans hmachine.stack_depth
    enclosed := ?_
    pairs := fun level => (inRangeAt_invariant level).pair _ _ _ _ _ hscope
      (List.getElem?_eq_some_iff.mp hleft).1 (List.getElem?_eq_some_iff.mp hright).1
      (hmachine.pairs level)
    suspended := hmachine.suspended.keep hkeeps (Nat.le_refl _) (Nat.le_of_lt hlevel)
    control := (hwork.keep hkeeps (Nat.le_refl _) hlevel).add ?_ }
  · intro level parent scope' hscope' hparent
    obtain ⟨before, hbefore, hscopes⟩ := hextends.scope?_back hscope'
    exact hmachine.enclosed hbefore (hscopes.parent ▸ hparent)
  · intro task htask
    have hlevel' : nodes.level <
        (machine.stack.pair nodes.level nodes.left nodes.right).depth := by
      rw [depth_pair]
      exact scope?_eq_some_lt hscope
    obtain ⟨hsame, hrange⟩ :=
      valueTasks_inRange hlevel' hnodes.inRange.entry _ _ task htask
    exact ⟨hsame ▸ hnodes.level_le, hrange⟩

theorem pair (hmachine : machine.InOrder options) {nodes : NodesAtHand} {work : Worklist}
    (hnodes : nodes.Of machine.stack machine.trail machine.suspended.length)
    (hwork : work.Of machine.stack machine.trail machine.suspended.length) :
    ∃ next, machine.pair? nodes work = some next ∧ next.InOrder options := by
  obtain ⟨scope, hscope, _⟩ := hnodes.inRange.held
  rw [pair?]
  cases (attributePlan nodes.leftNode.attributes nodes.rightNode.attributes).difference? with
  | some difference => exact ⟨_, rfl, hmachine.goes hnodes.inRange.entry⟩
  | none =>
      by_cases hlength : nodes.leftNode.inputs.length = nodes.rightNode.inputs.length
      · simp only [if_pos hlength, hscope, Option.map_some]
        cases scope.pairing.partner? nodes.left with
        | some partner => exact ⟨_, rfl, hmachine.goes trivial⟩
        | none => exact ⟨_, rfl, hmachine.paired hscope hnodes hwork⟩
      · simp only [if_neg hlength]
        exact ⟨_, rfl, hmachine.goes hnodes.inRange.entry⟩

/-- Entering the scope of two graphs. -/
theorem entered (hmachine : machine.InOrder options) {nodes : NodesAtHand} {work : Worklist}
    (hnodes : nodes.Of machine.stack machine.trail machine.suspended.length)
    (hwork : work.Of machine.stack machine.trail machine.suspended.length) (call : GraphCall)
    (calls : List GraphCall) : (machine.enters options nodes call calls work).InOrder options := by
  have hkeeps : KeepsBelow machine.stack.depth machine.stack
      (machine.stack.push nodes.level call.left.body call.right.body) := keepsBelow_push _ _ _
  have hlevel : machine.suspended.length < machine.stack.depth := by
    rw [hmachine.stack_depth]
    exact Nat.lt_succ_self _
  refine { hmachine with
    depth_eq := congrArg (· + 1) hmachine.depth_eq
    stack_depth := (depth_push _ _ _ _).trans (congrArg (· + 1) hmachine.stack_depth)
    enclosed := ?_
    pairs := fun level => (inRangeAt_invariant level).push _ _ _ _ (hmachine.pairs level)
    suspended := ⟨⟨hwork.keep hkeeps (Nat.le_refl _) hlevel,
      hnodes.keep hkeeps (Nat.le_refl _) hlevel⟩,
      hmachine.suspended.keep hkeeps (Nat.le_refl _) (Nat.le_of_lt hlevel)⟩
    control := hmachine.stack_depth }
  intro level parent scope hscope hparent
  change (machine.stack.push _ _ _).scope? level = some scope at hscope
  rw [scope?_push] at hscope
  split at hscope
  next hdepth =>
    cases hscope
    cases hparent
    rw [hdepth]
    exact Nat.lt_of_le_of_lt hnodes.level_le hlevel
  next => exact hmachine.enclosed hscope hparent

theorem call (hmachine : machine.InOrder options) {nodes : NodesAtHand} {work : Worklist}
    (hnodes : nodes.Of machine.stack machine.trail machine.suspended.length)
    (hwork : work.Of machine.stack machine.trail machine.suspended.length) (call : GraphCall)
    (calls : List GraphCall) :
    ∃ next, machine.call? options nodes call calls work = some next ∧ next.InOrder options := by
  obtain ⟨scope, hscope, _⟩ := hnodes.inRange.held
  rw [call?]
  cases headerDifference? call.left call.right with
  | some rule =>
      have hrejected := hmachine.goesIn (CompareState.stack_rejected _ _ rule [])
        (hmachine.difference_rejected rule []) hmachine.control
      exact hrejected.blame hnodes.inRange.entry call
  | none =>
      by_cases hdepth : machine.depth < options.depthLimit
      · simp only [if_pos hdepth, hscope, Option.map_some]
        exact ⟨_, rfl, hmachine.entered hnodes hwork call calls⟩
      · simp only [if_neg hdepth]
        exact ⟨_, rfl, hmachine.goes trivial⟩

/-- Leaving the scope of two graphs. -/
theorem left (hmachine : machine.InOrder options) {waiting : Suspended}
    {suspended : List Suspended} (hsuspended : machine.suspended = waiting :: suspended)
    {depth : Nat} (hdepth : machine.depth = depth + 1) {control : Control}
    (hcontrol : control.Of machine.stack.pop machine.trail suspended.length) :
    InOrder options { machine with
      state := machine.state.popped, depth, suspended, control } := by
  have hstack : machine.stack.depth = suspended.length + 2 := by
    rw [hmachine.stack_depth, hsuspended]
    rfl
  have hpop : machine.stack.pop.depth + 1 = machine.stack.depth := depth_pop (by omega)
  have hkeeps : KeepsBelow (suspended.length + 1) machine.stack machine.stack.pop :=
    keepsBelow_pop (by omega)
  have hordered := hmachine.suspended
  rw [hsuspended] at hordered
  refine { hmachine with
    depth_eq := ?_
    stack_depth := Nat.succ.inj (hpop.trans hstack)
    enclosed := fun _ _ _ hscope => hmachine.enclosed (scope?_eq_some_of_pop hscope)
    pairs := fun level => (inRangeAt_invariant level).pop _ (hmachine.pairs level)
    suspended := hordered.2.keep hkeeps (Nat.le_refl _) (Nat.le_succ _)
    control := hcontrol }
  have hlength := hmachine.depth_eq
  rw [hsuspended, hdepth] at hlength
  exact Nat.succ.inj hlength

theorem leave (hmachine : machine.InOrder options) (hsuspended : machine.suspended ≠ [])
    (outcome : Outcome Bool) :
    ∃ next, machine.leave? outcome = some next ∧ next.InOrder options := by
  obtain ⟨waiting, suspended, hwaiting⟩ := List.exists_cons_of_ne_nil hsuspended
  obtain ⟨depth, hdepth⟩ : ∃ depth, machine.depth = depth + 1 :=
    ⟨suspended.length, by rw [hmachine.depth_eq, hwaiting]; rfl⟩
  have hordered := hmachine.suspended
  rw [hwaiting] at hordered
  obtain ⟨⟨hwork, hnodes⟩, _⟩ := hordered
  have hkeeps : KeepsBelow (suspended.length + 1) machine.stack machine.stack.pop := by
    apply keepsBelow_pop
    rw [hmachine.stack_depth, hwaiting]
    exact Nat.lt_succ_self _
  rw [leave?, hwaiting, hdepth]
  rcases outcome with error | matched
  · exact ⟨_, rfl, hmachine.left hwaiting hdepth trivial⟩
  · cases matched with
    | false =>
        have hleft : InOrder options { machine with
            state := machine.state.popped, depth, suspended, control := .leave (.ok false) } :=
          hmachine.left hwaiting hdepth trivial
        exact hleft.blame hnodes.inRange.entry waiting.call
    | true =>
        exact ⟨_, rfl, hmachine.left hwaiting hdepth
          ⟨hwork.keep hkeeps (Nat.le_refl _) (Nat.lt_succ_self _),
            hnodes.keep hkeeps (Nat.le_refl _) (Nat.lt_succ_self _)⟩⟩

/-- There is a scope for each descent that is not over. -/
theorem exists_scope_of_le (hmachine : machine.InOrder options) {level : Nat}
    (hlevel : level ≤ machine.suspended.length) :
    ∃ scope, machine.stack.scope? level = some scope := by
  apply exists_scope?
  rw [hmachine.stack_depth]
  exact Nat.lt_succ_of_le hlevel

theorem bodies (hmachine : machine.InOrder options) {level : Nat}
    (hlevel : level = machine.suspended.length) (all : Bool) :
    ∃ next, machine.bodies? level all = some next ∧ next.InOrder options := by
  obtain ⟨scope, hscope⟩ := hmachine.exists_scope_of_le (Nat.le_of_eq hlevel)
  have hlt := scope?_eq_some_lt hscope
  have hnone := InTrail.none machine.trail
  rw [bodies?, hscope]
  by_cases hlength : scope.left.outputs.length = scope.right.outputs.length
  · simp only [if_pos hlength, Option.map_some]
    refine ⟨_, rfl, hmachine.goes ⟨hlevel, fun task htask => ?_, fun task htask => ?_⟩⟩
    · exact Nat.le_of_eq ((valueTasks_inRange hlt hnone _ _ task htask).1.trans hlevel)
    · exact (valueTasks_inRange hlt hnone _ _ task htask).2
  · simp only [if_neg hlength, Option.map_some]
    exact ⟨_, rfl, hmachine.goes hnone⟩

theorem finish (hmachine : machine.InOrder options) {level : Nat}
    (hlevel : level = machine.suspended.length) (all : Bool) :
    ∃ next, machine.finish? level all = some next ∧ next.InOrder options := by
  obtain ⟨scope, hscope⟩ := hmachine.exists_scope_of_le (Nat.le_of_eq hlevel)
  rw [finish?]
  cases all with
  | false => exact ⟨_, rfl, hmachine.goes trivial⟩
  | true =>
      rw [if_pos rfl, hscope]
      simp only [Option.map_some]
      cases unpairedRule? scope with
      | none => exact ⟨_, rfl, hmachine.goes trivial⟩
      | some rule => exact ⟨_, rfl, hmachine.goes (.none machine.trail)⟩

theorem values (hmachine : machine.InOrder options) {level : Nat} {left right : String}
    {entry : Option Nat} {work : Worklist}
    (hwork : work.Of machine.stack machine.trail machine.suspended.length)
    (hlevel : level ≤ machine.suspended.length) (hentry : InTrail machine.trail entry) :
    ∃ next, machine.values? level left right entry work = some next ∧ next.InOrder options := by
  obtain ⟨scope, hscope⟩ := hmachine.exists_scope_of_le hlevel
  have hlookup : machine.stack.lookup? level left right = some (scope.lookup left right) := by
    rw [lookup?, hscope, Option.map_some]
  rw [values?, hlookup, Option.map_some]
  cases hfound : scope.lookup left right with
  | outward parent =>
      obtain ⟨_, _, hparent⟩ := lookup_eq_outward hfound
      have hparentLt := hmachine.enclosed hscope hparent
      refine ⟨_, rfl, hmachine.goes (hwork.add fun task htask => ?_)⟩
      obtain rfl := List.mem_singleton.mp htask
      exact ⟨Nat.le_trans (Nat.le_of_lt hparentLt) hlevel,
        Task.inRange_values (Nat.lt_trans hparentLt (scope?_eq_some_lt hscope)) hentry⟩
  | _ =>
      simp only
      split
      · exact ⟨_, rfl, hmachine.goes hentry⟩
      · refine ⟨_, rfl, hmachine.goes (hwork.add fun task htask => ?_)⟩
        obtain ⟨hsame, hrange⟩ := lookupTasks_inRange hscope hfound hentry task htask
        exact ⟨hsame ▸ hlevel, hrange⟩

theorem nodes (hmachine : machine.InOrder options) {level left right : Nat} {entry : Option Nat}
    {work : Worklist} (hwork : work.Of machine.stack machine.trail machine.suspended.length)
    (hlevel : level ≤ machine.suspended.length) (hentry : InTrail machine.trail entry)
    (hholds : machine.stack.HoldsNodes level left right) :
    ∃ next, machine.nodes? options level left right entry work = some next ∧
      next.InOrder options := by
  obtain ⟨scope, hscope, hleft, hright⟩ := hholds
  rw [nodes?, hscope]
  simp only
  cases scope.pairing.partner? left with
  | some partner =>
      simp only
      split
      · exact ⟨_, rfl, hmachine.goes hwork⟩
      · exact ⟨_, rfl, hmachine.goes hentry⟩
  | none =>
      have hleft' := List.getElem?_eq_getElem hleft
      have hright' := List.getElem?_eq_getElem hright
      simp only [hleft', hright']
      cases nodeRule? scope.left.nodes[left] scope.right.nodes[right] with
      | some rule => exact ⟨_, rfl, hmachine.visit hentry fun _ _ hnext => hnext⟩
      | none =>
          refine ⟨_, rfl, hmachine.visit hentry fun trail hlength hnext => ⟨?_, hlevel, ?_⟩⟩
          · exact hwork.keep (keepsBelow_self _ _) hlength (Nat.lt_succ_self _)
          · exact ⟨⟨scope, hscope, hleft', hright'⟩, hnext⟩

/-- The next task is in range. -/
theorem next_inRange (hmachine : machine.InOrder options) {level : Nat} {all : Bool} {task : Task}
    {tasks : List Task} (hcontrol : machine.control = .tasks ⟨level, all, task :: tasks⟩) :
    task.InRange machine.stack machine.trail :=
  Worklist.Of.tasks (hmachine.of_control hcontrol) task List.mem_cons_self

/-- A step is possible unless the machine has ended, and it keeps what it needs. -/
theorem next (hmachine : machine.InOrder options) :
    machine.Halted ∨ ∃ next, machine.next? options = some next ∧ next.InOrder options := by
  rw [next?]
  cases hcontrol : machine.control with
  | bodies level all => exact Or.inr (hmachine.bodies (hmachine.of_control hcontrol) all)
  | tasks work =>
      obtain ⟨level, all, tasks⟩ := work
      obtain ⟨hlevel, hlevels, htasks⟩ := hmachine.of_control hcontrol
      right
      cases tasks with
      | nil => exact hmachine.finish hlevel all
      | cons task tasks =>
          have hwork : Worklist.Of machine.stack machine.trail machine.suspended.length
              ⟨level, all, tasks⟩ :=
            ⟨hlevel, fun task htask => hlevels task (List.mem_cons_of_mem _ htask),
              fun task htask => htasks task (List.mem_cons_of_mem _ htask)⟩
          have hle := hlevels task List.mem_cons_self
          have hrange := htasks task List.mem_cons_self
          cases task with
          | values other left right entry => exact hmachine.values hwork hle hrange.entry
          | nodes other left right entry =>
              exact hmachine.nodes hwork hle hrange.entry (hrange.nodes left right rfl)
  | graphs nodes calls work =>
      obtain ⟨hwork, hnodes⟩ := hmachine.of_control hcontrol
      right
      cases calls with
      | nil => exact hmachine.pair hnodes hwork
      | cons call calls => exact hmachine.call hnodes hwork call calls
  | fail rule entry => exact Or.inr (hmachine.fail rule (hmachine.of_control hcontrol))
  | leave outcome =>
      by_cases hsuspended : machine.suspended = []
      · exact Or.inl ⟨hsuspended, outcome, hcontrol⟩
      · exact Or.inr (hmachine.leave hsuspended outcome)

end Machine.InOrder

end OpGraph
