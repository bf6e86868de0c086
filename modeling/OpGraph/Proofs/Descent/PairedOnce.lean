import OpGraph.Proofs.Descent.Reach
import OpGraph.Proofs.Descent.Verdicts

/-!
A comparison that comes to pair a left node twice stops with a fault. It has to come back to the node
while it compares the attributes of the same node, so the node depends on itself: where no left node
does, there is no such fault, whatever the right operand is.
-/

namespace OpGraph

namespace CompareM

open ScopeStack

/-- No comparison of graphs that the bodies at a level carry pairs a left node twice. -/
def PairsOnce (leftRoot rightRoot : Body) (relation : NestedRelation) : Prop :=
  ∀ ⦃level : Nat⦄ ⦃graph graph' : Graph⦄ ⦃state final : CompareState⦄ ⦃outcome : Outcome Bool⦄
    ⦃left right : Body⦄,
    relation level graph graph' state outcome final → state.stack.Proper leftRoot rightRoot →
    state.stack.HasBodies level left right → Carried left right graph graph' →
    outcome ≠ .error (.fault .pairedTwice)

variable {leftRoot rightRoot : Body} {options : CompareOptions} {relation : NestedRelation}
  {level : Nat} {state final : CompareState}

theorem CallsRun.pairsOnce (honce : PairsOnce leftRoot rightRoot relation)
    (hgrows : Grows relation) {calls : List GraphCall} {outcome : Outcome (Option GraphCall)}
    {left right : Body} (hrun : CallsRun relation level calls state outcome final)
    (hproper : state.stack.Proper leftRoot rightRoot)
    (hbodies : state.stack.HasBodies level left right)
    (hcarried : ∀ call ∈ calls, Carried left right call.left call.right) :
    outcome ≠ .error (.fault .pairedTwice) := by
  induction hrun with
  | finished | differed => simp
  | matched hcall _ ih =>
      have hextends := hgrows _ _ _ _ _ _ hcall
      exact ih (hproper.of_extends hextends) (hbodies.of_extends hextends)
        fun call hmem => hcarried call (List.mem_cons_of_mem _ hmem)
  | stopped hcall =>
      have hends := honce hcall hproper hbodies (hcarried _ List.mem_cons_self)
      intro hfault
      cases hfault
      exact hends rfl

/-- A step does not pair a left node twice: after the calls for its attributes the node is as free as
it was before. -/
theorem StepRun.pairsOnce (hacyclic : leftRoot.AcyclicScopes)
    (honce : PairsOnce leftRoot rightRoot relation)
    (hreaches : ReachesOnly leftRoot rightRoot relation) (hgrows : Grows relation) {next : Pending}
    {outcome : Outcome (Option (List Pending))}
    (hrun : StepRun options relation state next outcome final)
    (hproper : state.stack.Proper leftRoot rightRoot) :
    outcome ≠ .error (.fault .pairedTwice) := by
  cases hrun with
  | @callStopped level left right via scope leftNode rightNode error final hfresh _ hcalls =>
      have hends := hcalls.pairsOnce honce hgrows hproper ⟨scope, hfresh.scope_eq, rfl, rfl⟩
        fun call hcall =>
          ⟨⟨leftNode, List.mem_of_getElem? hfresh.left_eq, (mem_attributePlan hcall).1⟩,
            ⟨rightNode, List.mem_of_getElem? hfresh.right_eq, (mem_attributePlan hcall).2⟩⟩
      intro hfault
      cases hfault
      exact hends rfl
  | pairedTwice hfresh _ hcalls _ _ hpartner =>
      rw [hfresh.unpaired_after hacyclic hreaches hgrows hproper hcalls] at hpartner
      cases hpartner
  | _ => simp

theorem DrainRun.pairsOnce (hacyclic : leftRoot.AcyclicScopes)
    (honce : PairsOnce leftRoot rightRoot relation)
    (hreaches : ReachesOnly leftRoot rightRoot relation) (hgrows : Grows relation)
    {pending : List Pending} {outcome : Outcome Bool}
    (hrun : DrainRun options relation state pending outcome final)
    (hproper : state.stack.Proper leftRoot rightRoot) :
    outcome ≠ .error (.fault .pairedTwice) := by
  induction hrun with
  | finished | failed => simp
  | stopped hstep =>
      have hends := hstep.pairsOnce hacyclic honce hreaches hgrows hproper
      intro hfault
      cases hfault
      exact hends rfl
  | continued hstep _ ih => exact ih (hproper.of_extends (hstep.grows hgrows))

theorem OutputsRun.pairsOnce (hacyclic : leftRoot.AcyclicScopes)
    (honce : PairsOnce leftRoot rightRoot relation)
    (hreaches : ReachesOnly leftRoot rightRoot relation) (hgrows : Grows relation)
    {lefts rights : List String} {outcome : Outcome Bool}
    (hrun : OutputsRun options relation level lefts rights state outcome final)
    (hproper : state.stack.Proper leftRoot rightRoot) :
    outcome ≠ .error (.fault .pairedTwice) := by
  cases hrun with
  | countsDiffer _ => simp
  | drained _ hdrain => exact hdrain.pairsOnce hacyclic honce hreaches hgrows hproper

theorem PairedRun.ne_pairedTwice {outcome : Outcome Bool}
    (hrun : PairedRun options level state outcome final) :
    outcome ≠ .error (.fault .pairedTwice) := by
  cases hrun <;> simp

theorem BodiesRun.pairsOnce (hacyclic : leftRoot.AcyclicScopes)
    (honce : PairsOnce leftRoot rightRoot relation)
    (hreaches : ReachesOnly leftRoot rightRoot relation) (hgrows : Grows relation)
    {outcome : Outcome Bool} (hrun : BodiesRun options relation level state outcome final)
    (hproper : state.stack.Proper leftRoot rightRoot) :
    outcome ≠ .error (.fault .pairedTwice) := by
  cases hrun with
  | lost | matched => simp
  | failed _ houtputs _ => exact houtputs.pairsOnce hacyclic honce hreaches hgrows hproper
  | checked _ _ _ hpaired => exact hpaired.ne_pairedTwice

/-- Where no left node depends on itself, no nested comparison pairs a left node twice. -/
theorem nestedRun_pairsOnce (options : CompareOptions) {leftRoot : Body} (rightRoot : Body)
    (hacyclic : leftRoot.AcyclicScopes) (levels : Nat) :
    PairsOnce leftRoot rightRoot (NestedRun options levels) := by
  induction levels with
  | zero =>
      intro level graph graph' state final outcome left right hrun _ _ _
      rcases hrun with _ | ⟨_, rfl, rfl⟩ <;> simp
  | succ levels ih =>
      intro level graph graph' state final outcome left right hrun hproper hbodies hcarried
      rcases hrun with _ | ⟨_, inner, hrun, rfl⟩
      · simp
      · exact hrun.pairsOnce hacyclic ih (nestedRun_reachesOnly options leftRoot rightRoot levels)
          (nestedRun_grows options levels) (Proper.entered hproper hbodies hcarried)

end CompareM

namespace Operands

variable {options : CompareOptions} {operands : Operands}

open CompareM

/-- Where no left node depends on itself, the comparison of two operands pairs no node twice. -/
theorem RootRun.ne_pairedTwice {outcome : Outcome Bool} {final : CompareState}
    (hacyclic : operands.left.AcyclicScopes) (hrun : operands.RootRun options outcome final) :
    outcome ≠ .error (.fault .pairedTwice) := by
  have hreaches := nestedRun_reachesOnly options operands.left operands.right options.depthLimit
  have honce := nestedRun_pairsOnce options operands.right hacyclic options.depthLimit
  cases hrun with
  | openingsDiffer | matched => simp
  | failed _ houtputs _ =>
      exact houtputs.pairsOnce hacyclic honce hreaches (nestedRun_grows options options.depthLimit)
        (ScopeStack.proper_ofBodies operands.left operands.right)
  | checked _ _ _ hpaired => exact hpaired.ne_pairedTwice

theorem compare_ne_pairedTwice (hacyclic : operands.left.AcyclicScopes) :
    operands.compare options ≠ .error (.unfinished (.fault .pairedTwice)) :=
  fun hcompare =>
    (operands.ending_run options).ne_pairedTwice hacyclic (ending_of_unfinished hcompare)

end Operands

/-- A choice whose branch is computed by a node that uses the choice. -/
def Graph.selfUsing : Graph where
  nodes := [
    { opType := "If", outputs := ["a"]
      attributes := [⟨"body", .graph { outputs := ["c"] }⟩] },
    { opType := "Relu", inputs := ["a"], outputs := ["c"] }]
  outputs := ["a"]

end OpGraph
