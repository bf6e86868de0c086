import OpGraph.Proofs.Descent.Execution
import OpGraph.Proofs.Matching.Counting

/-!
Invariants of the scopes. What holds on when a scope is entered, when it is left and when two nodes
of its bodies are paired, holds on through every comparison, however it ends. So pairs are always of
nodes that are there, and the check that all nodes are paired passes exactly if they all take part.
-/

namespace OpGraph

namespace CompareM

/-- What entering, leaving and pairing keep. -/
structure StackInvariant (holds : ScopeStack → Prop) : Prop where
  push : ∀ stack parent left right, holds stack → holds (stack.push parent left right)
  pop : ∀ stack, holds stack → holds stack.pop
  pair : ∀ (stack : ScopeStack) (level left right : Nat) (scope : Scope),
    stack.scope? level = some scope → left < scope.left.nodes.length →
    right < scope.right.nodes.length → holds stack → holds (stack.pair level left right)

/-- The relation keeps what holds of the scopes. -/
def Keeps (holds : ScopeStack → Prop) (relation : NestedRelation) : Prop :=
  ∀ level left right state outcome final, relation level left right state outcome final →
    holds state.stack → holds final.stack

variable {options : CompareOptions} {relation : NestedRelation} {holds : ScopeStack → Prop}
  {level : Nat} {state final : CompareState}

theorem CallsRun.keeps (hkeeps : Keeps holds relation) {calls : List GraphCall}
    {outcome : Outcome (Option GraphCall)}
    (hrun : CallsRun relation level calls state outcome final) (hholds : holds state.stack) :
    holds final.stack := by
  induction hrun with
  | finished => exact hholds
  | matched hcall _ ih => exact ih (hkeeps _ _ _ _ _ _ hcall hholds)
  | differed hcall => exact hkeeps _ _ _ _ _ _ hcall hholds
  | stopped hcall => exact hkeeps _ _ _ _ _ _ hcall hholds

theorem StepRun.keeps (hinvariant : StackInvariant holds) (hkeeps : Keeps holds relation)
    (hgrows : Grows relation) {next : Pending} {outcome : Outcome (Option (List Pending))}
    (hrun : StepRun options relation state next outcome final) (hholds : holds state.stack) :
    holds final.stack := by
  cases hrun with
  | callStopped _ _ hcalls | pairedTwice _ _ hcalls => exact hcalls.keeps hkeeps hholds
  | callDiffered _ _ hcalls =>
      rw [CompareState.stack_extended]
      exact hcalls.keeps hkeeps hholds
  | attributesDiffer _ _ hcalls _ =>
      rw [CompareState.stack_rejected]
      exact hcalls.keeps hkeeps hholds
  | inputCountsDiffer _ _ hcalls _ _ =>
      rw [CompareState.stack_rejected]
      exact hcalls.keeps hkeeps hholds
  | nodesPaired hfresh _ hcalls _ _ =>
      obtain ⟨scope, hscope, hscopes⟩ := (hcalls.grows hgrows).scope? hfresh.scope_eq
      have hleft := (List.getElem?_eq_some_iff.mp hfresh.left_eq).1
      have hright := (List.getElem?_eq_some_iff.mp hfresh.right_eq).1
      rw [← hscopes.left] at hleft
      rw [← hscopes.right] at hright
      exact hinvariant.pair _ _ _ _ _ hscope hleft hright (hcalls.keeps hkeeps hholds)
  | namesDiffer | conflict | nodesDiffer =>
      rw [CompareState.stack_rejected]
      exact hholds
  | namesLost | namesLead | scopeLost | partners | leftLost | rightLost => exact hholds

theorem DrainRun.keeps (hinvariant : StackInvariant holds) (hkeeps : Keeps holds relation)
    (hgrows : Grows relation) {pending : List Pending} {outcome : Outcome Bool}
    (hrun : DrainRun options relation state pending outcome final) (hholds : holds state.stack) :
    holds final.stack := by
  induction hrun with
  | finished => exact hholds
  | failed hstep => exact hstep.keeps hinvariant hkeeps hgrows hholds
  | stopped hstep => exact hstep.keeps hinvariant hkeeps hgrows hholds
  | continued hstep _ ih => exact ih (hstep.keeps hinvariant hkeeps hgrows hholds)

theorem OutputsRun.keeps (hinvariant : StackInvariant holds) (hkeeps : Keeps holds relation)
    (hgrows : Grows relation) {lefts rights : List String} {outcome : Outcome Bool}
    (hrun : OutputsRun options relation level lefts rights state outcome final)
    (hholds : holds state.stack) : holds final.stack := by
  cases hrun with
  | countsDiffer _ =>
      rw [CompareState.stack_rejected]
      exact hholds
  | drained _ hdrain => exact hdrain.keeps hinvariant hkeeps hgrows hholds

theorem BodiesRun.keeps (hinvariant : StackInvariant holds) (hkeeps : Keeps holds relation)
    (hgrows : Grows relation) {outcome : Outcome Bool}
    (hrun : BodiesRun options relation level state outcome final) (hholds : holds state.stack) :
    holds final.stack := by
  cases hrun with
  | lost _ => exact hholds
  | failed _ houtputs _ => exact houtputs.keeps hinvariant hkeeps hgrows hholds
  | matched _ houtputs _ => exact houtputs.keeps hinvariant hkeeps hgrows hholds
  | checked _ houtputs _ hpaired =>
      rw [hpaired.stack_eq]
      exact houtputs.keeps hinvariant hkeeps hgrows hholds

/-- Nested comparisons keep every invariant of the scopes. -/
theorem nestedRun_keeps (options : CompareOptions) (hinvariant : StackInvariant holds)
    (levels : Nat) : Keeps holds (NestedRun options levels) := by
  induction levels with
  | zero =>
      rintro level left right state outcome final (hheader | ⟨_, _, rfl⟩) hholds
      · rw [CompareState.stack_rejected]
        exact hholds
      · exact hholds
  | succ levels ih =>
      rintro level left right state outcome final (hheader | ⟨_, inner, hbodies, rfl⟩) hholds
      · rw [CompareState.stack_rejected]
        exact hholds
      · have hentered := hinvariant.push state.stack level left.body right.body hholds
        exact hinvariant.pop _ (hbodies.keeps hinvariant ih (nestedRun_grows options levels)
          hentered)

end CompareM

/-- The pairs of a scope are of nodes that are there. -/
def Scope.InRange (scope : Scope) : Prop :=
  scope.pairing.InRange scope.left.nodes.length scope.right.nodes.length

theorem Scope.inRange_empty (parent : Option Nat) (left right : Body) :
    Scope.InRange { parent, left, right } := by
  intro index index' hpartner
  simp [Pairing.partner?] at hpartner

theorem Scope.inRange_insertIfNew {scope : Scope} {left right : Nat} (hrange : scope.InRange)
    (hleft : left < scope.left.nodes.length) (hright : right < scope.right.nodes.length) :
    Scope.InRange { scope with pairing := scope.pairing.insertIfNew left right } := by
  intro index index' hpartner
  rw [Pairing.partner?_insertIfNew] at hpartner
  split at hpartner
  next hindex =>
    subst hindex
    cases hold : scope.pairing.partner? index with
    | none =>
        simp only [hold, Option.getD_none, Option.some.injEq] at hpartner
        exact hpartner ▸ ⟨hleft, hright⟩
    | some partner =>
        simp only [hold, Option.getD_some, Option.some.injEq] at hpartner
        exact hrange index index' (hpartner ▸ hold)
  next => exact hrange index index' hpartner

namespace ScopeStack

/-- The pairs at a level are of nodes that are there. -/
def InRangeAt (level : Nat) (stack : ScopeStack) : Prop :=
  ∀ scope, stack.scope? level = some scope → scope.InRange

theorem inRangeAt_invariant (level : Nat) : CompareM.StackInvariant (InRangeAt level) where
  push stack parent left right hrange := by
    intro scope hscope
    rw [scope?_push] at hscope
    split at hscope
    · cases hscope
      exact Scope.inRange_empty _ left right
    · exact hrange scope hscope
  pop stack hrange scope hscope := hrange scope (scope?_eq_some_of_pop hscope)
  pair stack other left right scope hscope hleft hright hrange := by
    intro scope' hscope'
    rw [scope?_pair] at hscope'
    split at hscope'
    next hlevel =>
      subst hlevel
      rw [hscope, Option.map_some, Option.some.injEq] at hscope'
      subst hscope'
      exact Scope.inRange_insertIfNew (hrange scope hscope) hleft hright
    next => exact hrange scope' hscope'

end ScopeStack

/-- A scope that is entered has no pairs yet. -/
theorem CompareM.inRangeAt_entered (state : CompareState) (level : Nat) (left right : Body) :
    (state.entered level left right).stack.InRangeAt state.stack.depth := by
  intro scope hscope
  rw [CompareState.stack_entered, ScopeStack.scope?_push_depth, Option.some.injEq] at hscope
  exact hscope ▸ Scope.inRange_empty _ left right

namespace CompareM

/-- The check finds that all nodes are paired exactly if they all take part. -/
theorem unpairedRule?_eq_none_iff {scope : Scope} (hrange : scope.InRange) :
    unpairedRule? scope = none ↔
      NodeCover scope.pairing.partner? scope.left.nodes.length scope.right.nodes.length := by
  rw [Pairing.cover_iff hrange, unpairedRule?]
  by_cases hsize : scope.pairing.size = scope.left.nodes.length
  · by_cases htargets : scope.pairing.targetCount = scope.right.nodes.length
    · simp [hsize, htargets]
    · simp [hsize, htargets]
  · simp [hsize]

variable {options : CompareOptions} {level : Nat} {state final : CompareState}

/-- The comparison of all that outputs depend on pairs only nodes that are there. -/
theorem OutputsRun.inRangeAt {levels : Nat} {lefts rights : List String} {outcome : Outcome Bool}
    (hrun : OutputsRun options (NestedRun options levels) level lefts rights state outcome final)
    (hrange : state.stack.InRangeAt level) : final.stack.InRangeAt level :=
  hrun.keeps (ScopeStack.inRangeAt_invariant level)
    (nestedRun_keeps options (ScopeStack.inRangeAt_invariant level) levels)
    (nestedRun_grows options levels) hrange

/-- Where all nodes have to take part, they do so in every comparison of two bodies that ends well.
-/
theorem BodiesRun.covers {levels : Nat} (hall : options.pairAllNodes = true)
    (hrange : state.stack.InRangeAt level)
    (hrun : BodiesRun options (NestedRun options levels) level state (.ok true) final) :
    ∃ scope, final.stack.scope? level = some scope ∧
      NodeCover scope.pairing.partner? scope.left.nodes.length scope.right.nodes.length := by
  cases hrun with
  | failed _ _ hfailed => exact absurd rfl hfailed
  | matched _ _ hnot => simp [hall] at hnot
  | checked _ houtputs _ hpaired =>
      cases hpaired with
      | passed hscope hrule =>
          have hfinal := houtputs.inRangeAt hrange
          exact ⟨_, hscope, (unpairedRule?_eq_none_iff (hfinal _ hscope)).mp hrule⟩

/-- If all nodes at a level take part, the check that they do succeeds. -/
theorem PairedRun.eq_ok_of_cover {scope : Scope} {outcome : Outcome Bool}
    (hrun : PairedRun options level state outcome final)
    (hscope : state.stack.scope? level = some scope)
    (hcover : NodeCover scope.pairing.partner? scope.left.nodes.length scope.right.nodes.length) :
    outcome = .ok true := by
  cases hrun with
  | lost hlost => simp [hscope] at hlost
  | failed hscope' hrule =>
      rw [hscope, Option.some.injEq] at hscope'
      subst hscope'
      rw [(unpairedRule?_eq_none_iff hcover.in_range).mpr hcover] at hrule
      cases hrule
  | passed _ _ => rfl

end CompareM

end OpGraph
