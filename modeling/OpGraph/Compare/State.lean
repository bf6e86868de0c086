import OpGraph.Compare.Difference
import OpGraph.Compare.Options
import OpGraph.Scope.Basic

/-!
The state of a comparison: the scopes in use and the difference found, with the operations that
read and change them.
-/

namespace OpGraph

/-- What no comparison should meet: a level without a scope, a node that is not there, a left node
that is paired while it has a partner, or a descent that goes on for longer than there is anything
left to compare. -/
inductive CompareFault where
  | noScope (level : Nat)
  | noNode (level index : Nat)
  | pairedTwice
  | stepsExceeded
  deriving DecidableEq

/-- Why a comparison ends without a verdict. -/
inductive CompareError where
  | depthLimitExceeded (limit : Nat)
  | fault (cause : CompareFault)
  deriving DecidableEq

structure CompareState where
  stack : ScopeStack
  difference : Option Difference := none

/-- A part of a comparison. What it did to the state stays when it ends in an error. -/
abbrev CompareM (α : Type) : Type := ExceptT CompareError (StateM CompareState) α

/-- A pending comparison at a level, with the steps that led to it. -/
inductive Pending where
  | values (level : Nat) (left right : String) (via : List UseStep)
  | nodes (level left right : Nat) (via : List UseStep)
  deriving DecidableEq

namespace CompareM

/-- The scope at a level. -/
def scopeAt (level : Nat) : CompareM Scope := do
  match (← get).stack.scope? level with
  | some scope => return scope
  | none => throw (.fault (.noScope level))

/-- A node of one of the bodies at a level. -/
def nodeAt (level : Nat) (body : Body) (index : Nat) : CompareM Node :=
  match body.nodes[index]? with
  | some node => return node
  | none => throw (.fault (.noNode level index))

/-- Records why the operands differ, if this is wanted and nothing is recorded yet. -/
def reject (options : CompareOptions) (rule : FailedRule) (path : List UseStep) : CompareM Unit :=
  modify fun state =>
    if options.trace && state.difference.isNone then { state with difference := some ⟨rule, path⟩ }
    else state

/-- Extends the way to the recorded difference outwards. -/
def extendPath (path : List UseStep) : CompareM Unit :=
  modify fun state =>
    { state with difference := state.difference.map fun difference =>
        { difference with path := difference.path ++ path } }

/-- Pairs two nodes at a level. The left one must not have a partner yet. -/
def pair (level left right : Nat) : CompareM Unit := do
  match (← get).stack.partner? level left with
  | some _ => throw (.fault .pairedTwice)
  | none => modify fun state => { state with stack := state.stack.pair level left right }

/-- Runs a comparison in a new scope inside of a level, and leaves the scope however it ends. -/
def inScope {α : Type} (parent : Nat) (left right : Body) (compare : Nat → CompareM α) :
    CompareM α :=
  ExceptT.mk fun state =>
    let child := state.stack.depth
    let (outcome, state) :=
      (compare child).run { state with stack := state.stack.push parent left right }
    (outcome, { state with stack := state.stack.pop })

end CompareM

end OpGraph
