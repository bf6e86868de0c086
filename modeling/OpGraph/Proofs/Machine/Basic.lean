import OpGraph.Proofs.Descent.Moments
import Mathlib.Logic.Relation

/-!
The comparison as a machine. It does one small step after another and keeps in plain lists what the
comparison keeps in its calls: the worklists of the descents that wait for nested graphs, how many they
are, and the pairs of nodes that were visited. Levels, nodes and visited pairs are places in lists. The
machine goes on only as long as it finds something at every place that it looks at.
-/

namespace OpGraph

open CompareM

/-- A pair of nodes that was visited, and the place of the pair that led to it. -/
structure TrailEntry where
  use : UseStep
  parent : Option Nat

/-- The uses from a place of the trail on, each followed by the one that led to it. So many of them may
be looked at. -/
def trailPath? (trail : List TrailEntry) : (moves : Nat) → Option Nat → Option (List UseStep)
  | _, none => some []
  | 0, some _ => none
  | moves + 1, some place =>
      match trail[place]? with
      | none => none
      | some entry => (trailPath? trail moves entry.parent).map (entry.use :: ·)

/-- A pending comparison at a level, with the place of the pair of nodes that led to it. -/
inductive Task where
  | values (level : Nat) (left right : String) (entry : Option Nat)
  | nodes (level left right : Nat) (entry : Option Nat)

namespace Task

def level : Task → Nat
  | values level _ _ _ => level
  | nodes level _ _ _ => level

def entry : Task → Option Nat
  | values _ _ _ entry => entry
  | nodes _ _ _ entry => entry

/-- The nodes to be compared. -/
def nodes? : Task → Option (Nat × Nat)
  | values _ _ _ _ => none
  | nodes _ left right _ => some (left, right)

end Task

/-- The tasks to compare the values of two lists, one by one. -/
def valueTasks (level : Nat) (lefts rights : List String) (entry : Option Nat) : List Task :=
  lefts.zipWith (fun left right => .values level left right entry) rights

/-- The task that two names lead to: to compare the nodes whose outputs they are. -/
def lookupTasks (level : Nat) (entry : Option Nat) : Lookup → List Task
  | .here (.output left _) (.output right _) => [.nodes level left right entry]
  | _ => []

/-- A descent from the outputs of the bodies at a level: what is still to be compared, and whether all
nodes of the bodies have to be paired then. -/
structure Worklist where
  level : Nat
  all : Bool
  tasks : List Task

def Worklist.add (work : Worklist) (tasks : List Task) : Worklist :=
  { work with tasks := tasks ++ work.tasks }

/-- Two nodes that are being compared, with the place at which they were visited. -/
structure NodesAtHand where
  level : Nat
  left : Nat
  right : Nat
  leftNode : Node
  rightNode : Node
  entry : Option Nat

/-- What waits for two graphs to be compared: the call for them, the calls for further graphs of the
same nodes, and the descent in which these nodes came up. -/
structure Suspended where
  nodes : NodesAtHand
  call : GraphCall
  calls : List GraphCall
  work : Worklist

/-- What the machine is about to do. -/
inductive Control where
  /-- Compare the outputs of the bodies at a level. -/
  | bodies (level : Nat) (all : Bool)
  /-- Do the next task. -/
  | tasks (work : Worklist)
  /-- Call for the next graphs of two nodes. -/
  | graphs (nodes : NodesAtHand) (calls : List GraphCall) (work : Worklist)
  /-- Find that the operands differ. -/
  | fail (rule : FailedRule) (entry : Option Nat)
  /-- End the innermost descent. -/
  | leave (outcome : Outcome Bool)

structure Machine where
  state : CompareState
  /-- How many calls for graphs there are inside each other. -/
  depth : Nat
  trail : List TrailEntry
  /-- What waits for these calls, the innermost first. -/
  suspended : List Suspended
  control : Control

namespace Machine

variable (options : CompareOptions)

def stack (machine : Machine) : ScopeStack := machine.state.stack

def goes (machine : Machine) (control : Control) : Machine := { machine with control }

def path? (machine : Machine) (entry : Option Nat) : Option (List UseStep) :=
  trailPath? machine.trail machine.trail.length entry

/-- Notes that two nodes are visited, if this is wanted. -/
def visit (machine : Machine) (entry : TrailEntry) : Machine :=
  if options.trace then { machine with trail := machine.trail ++ [entry] } else machine

/-- The place at which nodes are visited next. -/
def nextEntry (machine : Machine) : Option Nat :=
  if options.trace then some machine.trail.length else none

/-- Gives up with a difference. The way to it is read only if it is recorded. -/
def fail? (machine : Machine) (rule : FailedRule) (entry : Option Nat) : Option Machine :=
  let path? := if options.trace && machine.state.difference.isNone then machine.path? entry else some []
  path?.map fun path =>
    { machine with state := machine.state.rejected options rule path, control := .leave (.ok false) }

/-- Gives up as two graphs differ. The way to them is read only if a difference is recorded. -/
def blame? (machine : Machine) (entry : Option Nat) (call : GraphCall) : Option Machine :=
  let path? := if machine.state.difference.isSome then machine.path? entry else some []
  path?.map fun path =>
    { machine with
      state := machine.state.extended (.subgraph call.name call.index :: path)
      control := .leave (.ok false) }

variable {options} in
theorem fail?_eq_some {machine : Machine} {entry : Option Nat} {path : List UseStep}
    (hpath : (if options.trace && machine.state.difference.isNone then machine.path? entry
      else some []) = some path) (rule : FailedRule) :
    machine.fail? options rule entry = some { machine with
      state := machine.state.rejected options rule path, control := .leave (.ok false) } := by
  simp only [fail?, hpath, Option.map_some]

theorem blame?_eq_some {machine : Machine} {entry : Option Nat} {path : List UseStep}
    (hpath : (if machine.state.difference.isSome then machine.path? entry else some []) = some path)
    (call : GraphCall) :
    machine.blame? entry call = some { machine with
      state := machine.state.extended (.subgraph call.name call.index :: path)
      control := .leave (.ok false) } := by
  simp only [blame?, hpath, Option.map_some]

def bodies? (machine : Machine) (level : Nat) (all : Bool) : Option Machine :=
  (machine.stack.scope? level).map fun scope =>
    let lefts := scope.left.outputs
    let rights := scope.right.outputs
    if lefts.length = rights.length then
      machine.goes (.tasks ⟨level, all, valueTasks level lefts rights none⟩)
    else machine.goes (.fail (.valueCount lefts.length rights.length) none)

/-- Looks two names up at a level. If none is defined there, the task is to look them up further out.
-/
def values? (machine : Machine) (level : Nat) (left right : String) (entry : Option Nat)
    (work : Worklist) : Option Machine :=
  (machine.stack.lookup? level left right).map fun lookup =>
    match lookup with
    | .outward parent => machine.goes (.tasks (work.add [.values parent left right entry]))
    | lookup =>
        match lookupRule? left right lookup with
        | some rule => machine.goes (.fail rule entry)
        | none => machine.goes (.tasks (work.add (lookupTasks level entry lookup)))

/-- Compares two nodes up to their attributes. -/
def nodes? (machine : Machine) (level left right : Nat) (entry : Option Nat) (work : Worklist) :
    Option Machine :=
  match machine.stack.scope? level with
  | none => none
  | some scope =>
      match scope.pairing.partner? left with
      | some partner =>
          if partner = right then some (machine.goes (.tasks work))
          else some (machine.goes (.fail (.mappingConflict left partner right) entry))
      | none =>
          match scope.left.nodes[left]?, scope.right.nodes[right]? with
          | some leftNode, some rightNode =>
              let visited := machine.visit options ⟨.nodes level left right leftNode.opType, entry⟩
              let entry := machine.nextEntry options
              match nodeRule? leftNode rightNode with
              | some rule => some (visited.goes (.fail rule entry))
              | none => some (visited.goes (.graphs ⟨level, left, right, leftNode, rightNode, entry⟩
                  (attributePlan leftNode.attributes rightNode.attributes).calls work))
          | _, _ => none

/-- Compares two nodes whose graphs match in all else, and pairs them, unless the comparison of their
graphs has paired the left one. -/
def pair? (machine : Machine) (nodes : NodesAtHand) (work : Worklist) : Option Machine :=
  let lefts := nodes.leftNode.inputs
  let rights := nodes.rightNode.inputs
  match (attributePlan nodes.leftNode.attributes nodes.rightNode.attributes).difference? with
  | some difference => some (machine.goes (.fail (.attributes difference) nodes.entry))
  | none =>
      if lefts.length = rights.length then
        (machine.stack.scope? nodes.level).map fun scope =>
          match scope.pairing.partner? nodes.left with
          | some _ => machine.goes (.leave (.error (.fault .pairedTwice)))
          | none =>
              { machine with
                state := machine.state.paired nodes.level nodes.left nodes.right
                control := .tasks (work.add (valueTasks nodes.level lefts rights nodes.entry)) }
      else some (machine.goes (.fail (.valueCount lefts.length rights.length) nodes.entry))

/-- The machine in a new scope for two graphs of two nodes, about to compare their bodies. -/
def enters (machine : Machine) (nodes : NodesAtHand) (call : GraphCall) (calls : List GraphCall)
    (work : Worklist) : Machine :=
  { machine with
    state := machine.state.entered nodes.level call.left.body call.right.body
    depth := machine.depth + 1
    suspended := ⟨nodes, call, calls, work⟩ :: machine.suspended
    control := .bodies machine.stack.depth options.pairAllNodes }

/-- Calls for two graphs of two nodes, unless their headers differ or there are too many calls inside
each other. -/
def call? (machine : Machine) (nodes : NodesAtHand) (call : GraphCall) (calls : List GraphCall)
    (work : Worklist) : Option Machine :=
  match headerDifference? call.left call.right with
  | some rule =>
      { machine with state := machine.state.rejected options rule [] }.blame? nodes.entry call
  | none =>
      if machine.depth < options.depthLimit then
        (machine.stack.scope? nodes.level).map fun _ => machine.enters options nodes call calls work
      else some (machine.goes (.leave (.error (.depthLimitExceeded options.depthLimit))))

/-- Ends a descent in which nothing is left to do. -/
def finish? (machine : Machine) (level : Nat) (all : Bool) : Option Machine :=
  if all then
    (machine.stack.scope? level).map fun scope =>
      match unpairedRule? scope with
      | some rule => machine.goes (.fail rule none)
      | none => machine.goes (.leave (.ok true))
  else some (machine.goes (.leave (.ok true)))

/-- Leaves a call for graphs, and goes on with what waits for it. -/
def leave? (machine : Machine) (outcome : Outcome Bool) : Option Machine :=
  match machine.suspended, machine.depth with
  | waiting :: suspended, depth + 1 =>
      let left := { machine with
        state := machine.state.popped, depth, suspended, control := .leave outcome }
      match outcome with
      | .error _ => some left
      | .ok true => some (left.goes (.graphs waiting.nodes waiting.calls waiting.work))
      | .ok false => left.blame? waiting.nodes.entry waiting.call
  | _, _ => none

/-- The machine after one step; none if it has ended, or if it looks at a place where there is
nothing. -/
def next? (machine : Machine) : Option Machine :=
  match machine.control with
  | .bodies level all => machine.bodies? level all
  | .tasks ⟨level, all, []⟩ => machine.finish? level all
  | .tasks ⟨top, all, .values level left right entry :: tasks⟩ =>
      machine.values? level left right entry ⟨top, all, tasks⟩
  | .tasks ⟨top, all, .nodes level left right entry :: tasks⟩ =>
      machine.nodes? options level left right entry ⟨top, all, tasks⟩
  | .graphs nodes [] work => machine.pair? nodes work
  | .graphs nodes (call :: calls) work => machine.call? options nodes call calls work
  | .fail rule entry => machine.fail? options rule entry
  | .leave outcome => machine.leave? outcome

/-- The machine has ended: there is nothing that waits. -/
def Halted (machine : Machine) : Prop :=
  machine.suspended = [] ∧ ∃ outcome, machine.control = .leave outcome

/-- The second machine is the first one after some steps. -/
abbrev Comes : Machine → Machine → Prop :=
  Relation.ReflTransGen fun machine next => machine.next? options = some next

end Machine

/-- The machine at the start of the comparison of two operands. -/
def Operands.machine (options : CompareOptions) (operands : Operands) : Machine where
  state := .initial operands.left operands.right
  depth := 0
  trail := []
  suspended := []
  control :=
    match operands.openingRule? with
    | some rule => .fail rule none
    | none => .bodies 0 (operands.pairsAllNodes options)

end OpGraph
