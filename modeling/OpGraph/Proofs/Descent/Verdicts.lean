import OpGraph.Compare.Verdict
import OpGraph.Proofs.Descent.Termination
import OpGraph.Proofs.Scoping.WellFormed

/-!
What a verdict tells of the run that led to it. Two functions are compared as two graphs are, but for
what is looked at before their bodies and for when all nodes have to be paired. So this is said once,
of operands.
-/

namespace OpGraph

/-- The state in which the comparison of two bodies starts. -/
def CompareState.initial (left right : Body) : CompareState := { stack := .ofBodies left right }

/-- The verdict of a comparison that ends in this state. -/
def CompareState.verdict (final : CompareState) (matched : Bool) : Verdict :=
  if matched then .equivalent final.stack.root.pairing else .different final.difference

theorem CompareM.verdict_eq (left right : Body) (compare : CompareM Bool) :
    verdict left right compare = (exec compare (.initial left right)).1.map
      (exec compare (.initial left right)).2.verdict := rfl

namespace CompareOptions

variable {options : CompareOptions} {left right : Except Violation Unit}

theorem checkOperands_eq_ok (hleft : left = .ok ()) (hright : right = .ok ()) :
    options.checkOperands left right = .ok () := by
  subst hleft hright
  rw [checkOperands]
  split <;> rfl

/-- Operands need not be in order if this is not required. -/
theorem checkOperands_of_not_required (hrequired : options.requireWellFormed = false) :
    options.checkOperands left right = .ok () := by
  rw [checkOperands, hrequired]
  rfl

end CompareOptions

namespace CompareM

/-- Compares the outputs of two bodies and all that they depend on. Then all nodes have to be paired,
if this is asked for. -/
def matchBodies (options : CompareOptions) (levels : Nat) (all : Bool) (level : Nat)
    (lefts rights : List String) : CompareM Bool := do
  if ← compareOutputs options (compareNested options levels) level lefts rights then
    if all then requireAllPaired options level else return true
  else return false

end CompareM

open CompareM

@[simp] theorem CompareState.verdict_eq_equivalent {final : CompareState} {matched : Bool}
    {pairing : Pairing} :
    Verdict.equivalent pairing = final.verdict matched ↔
      matched = true ∧ pairing = final.stack.root.pairing := by
  cases matched <;> simp [verdict]

/-- In every state that follows the initial one the root scope is that of the two operands. -/
theorem root_eq_of_extends {left right : Body} {final : CompareState}
    (hextends : (CompareState.initial left right).stack.Extends final.stack) :
    final.stack.scope? 0 = some final.stack.root ∧ final.stack.root.left = left ∧
      final.stack.root.right = right := by
  have hroot : (CompareState.initial left right).stack.scope? 0 =
      some { parent := none, left, right } := rfl
  obtain ⟨scope, hscope, hscopes⟩ := hextends.scope? hroot
  cases hscope
  exact ⟨rfl, hscopes.left, hscopes.right⟩

/-- Two functions or two graphs that are compared. -/
inductive Operands where
  | functions (left right : Function)
  | graphs (left right : Graph)

namespace Operands

def left : Operands → Body
  | functions left _ => left.body
  | graphs left _ => left.body

def right : Operands → Body
  | functions _ right => right.body
  | graphs _ right => right.body

/-- Both operands are well formed. -/
def WellFormed : Operands → Prop
  | functions left right => left.checkWellFormed = .ok () ∧ right.checkWellFormed = .ok ()
  | graphs left right => left.checkWellFormed = .ok () ∧ right.checkWellFormed = .ok ()

/-- What the operands differ in before their bodies are looked at. -/
def openingRule? : Operands → Option FailedRule
  | functions left right => signatureDifference? left right
  | graphs left right => headerDifference? left right

variable (options : CompareOptions)

def compare : Operands → Except NoVerdict Verdict
  | functions left right => left.compare options right
  | graphs left right => left.compare options right

/-- Requires the operands to be well formed, if the options say so. -/
def check : Operands → Except NoVerdict Unit
  | functions left right => options.checkOperands left.checkWellFormed right.checkWellFormed
  | graphs left right => options.checkOperands left.checkWellFormed right.checkWellFormed

/-- Whether all nodes of the two bodies have to be paired. -/
def pairsAllNodes : Operands → Bool
  | functions _ _ => true
  | graphs _ _ => options.pairAllNodes

/-- The comparison of the operands but for the check that they are well formed. -/
def run (operands : Operands) : CompareM Bool :=
  match operands.openingRule? with
  | some rule => do
      reject options rule []
      return false
  | none =>
      matchBodies options options.depthLimit (operands.pairsAllNodes options) 0
        operands.left.outputs operands.right.outputs

/-- How the comparison of the operands ends, and in which state. -/
def ending (operands : Operands) : Outcome Bool × CompareState :=
  exec (operands.run options) (.initial operands.left operands.right)

/-- The comparison of the operands at the root, from the state in which it starts. -/
inductive RootRun (operands : Operands) : Outcome Bool → CompareState → Prop where
  | openingsDiffer {rule : FailedRule} : operands.openingRule? = some rule →
      RootRun operands (.ok false)
        ((CompareState.initial operands.left operands.right).rejected options rule [])
  | failed {outcome : Outcome Bool} {final : CompareState} : operands.openingRule? = none →
      OutputsRun options (NestedRun options options.depthLimit) 0 operands.left.outputs
        operands.right.outputs (.initial operands.left operands.right) outcome final →
      outcome ≠ .ok true → RootRun operands outcome final
  | matched {final : CompareState} : operands.openingRule? = none →
      OutputsRun options (NestedRun options options.depthLimit) 0 operands.left.outputs
        operands.right.outputs (.initial operands.left operands.right) (.ok true) final →
      operands.pairsAllNodes options = false → RootRun operands (.ok true) final
  | checked {outcome : Outcome Bool} {inner final : CompareState} :
      operands.openingRule? = none →
      OutputsRun options (NestedRun options options.depthLimit) 0 operands.left.outputs
        operands.right.outputs (.initial operands.left operands.right) (.ok true) inner →
      operands.pairsAllNodes options = true → PairedRun options 0 inner outcome final →
      RootRun operands outcome final

variable {options} {operands : Operands} {verdict : Verdict} {pairing : Pairing}

theorem WellFormed.check (hwell : operands.WellFormed) : operands.check options = .ok () := by
  cases operands with
  | functions left right => exact CompareOptions.checkOperands_eq_ok hwell.1 hwell.2
  | graphs left right => exact CompareOptions.checkOperands_eq_ok hwell.1 hwell.2

theorem WellFormed.left_distinct (hwell : operands.WellFormed) : operands.left.Distinct := by
  cases operands with
  | functions left right => exact Function.distinct_of_checkWellFormed hwell.1
  | graphs left right => exact Graph.distinct_of_checkWellFormed hwell.1

theorem WellFormed.right_distinct (hwell : operands.WellFormed) : operands.right.Distinct := by
  cases operands with
  | functions left right => exact Function.distinct_of_checkWellFormed hwell.2
  | graphs left right => exact Graph.distinct_of_checkWellFormed hwell.2

/-- The comparison of the operands is the check that they are well formed, and then what is read off
its ending. -/
theorem compare_eq (options : CompareOptions) (operands : Operands) :
    operands.compare options = (do
      operands.check options
      ((operands.ending options).1.map (operands.ending options).2.verdict).mapError
        .unfinished) := by
  cases operands with
  | functions left right =>
      have hrun : run options (functions left right) = compareRootFunctions options left right := by
        rw [run, compareRootFunctions]
        simp only [openingRule?]
        cases signatureDifference? left right <;> rfl
      rw [ending, hrun]
      rfl
  | graphs left right =>
      have hrun : exec (run options (graphs left right)) (.initial left.body right.body) =
          exec (compareRootGraphs options left right) (.initial left.body right.body) := by
        rw [run, compareRootGraphs, underHeaders]
        simp only [openingRule?]
        cases headerDifference? left right <;> rfl
      have hending : ending options (graphs left right) =
          exec (compareRootGraphs options left right) (.initial left.body right.body) := hrun
      rw [hending]
      rfl

theorem check_ends (options : CompareOptions) (operands : Operands) :
    operands.check options = .ok () ∨
      ∃ violation, operands.check options = .error (.notWellFormed violation) := by
  have hends : ∀ left right : Except Violation Unit, options.checkOperands left right = .ok () ∨
      ∃ violation, options.checkOperands left right = .error (.notWellFormed violation) := by
    intro left right
    rw [CompareOptions.checkOperands]
    split
    · rcases left with violation | _
      · exact Or.inr ⟨violation, rfl⟩
      · rcases right with violation | _
        · exact Or.inr ⟨violation, rfl⟩
        · exact Or.inl rfl
    · exact Or.inl rfl
  cases operands with
  | functions left right => exact hends _ _
  | graphs left right => exact hends _ _

theorem compare_of_check (hcheck : operands.check options = .ok ()) :
    operands.compare options =
      ((operands.ending options).1.map (operands.ending options).2.verdict).mapError
        .unfinished := by
  rw [compare_eq, hcheck]
  rfl

/-- A verdict is read off the ending of operands that are as the options require. -/
theorem ending_of_compare (hcompare : operands.compare options = .ok verdict) :
    operands.check options = .ok () ∧ ∃ matched, (operands.ending options).1 = .ok matched ∧
      verdict = (operands.ending options).2.verdict matched := by
  rw [compare_eq] at hcompare
  obtain ⟨_, hcheck, hverdict⟩ := Except.bind_eq_ok hcompare
  refine ⟨hcheck, ?_⟩
  cases houtcome : (operands.ending options).1 with
  | error failure =>
      rw [houtcome] at hverdict
      cases hverdict
  | ok matched =>
      rw [houtcome] at hverdict
      cases hverdict
      exact ⟨matched, rfl, rfl⟩

/-- A comparison that is not finished has ended with an error. -/
theorem ending_of_unfinished {error : CompareError}
    (hcompare : operands.compare options = .error (.unfinished error)) :
    (operands.ending options).1 = .error error := by
  obtain hcheck | ⟨violation, hcheck⟩ := operands.check_ends options
  · rw [compare_of_check hcheck] at hcompare
    cases houtcome : (operands.ending options).1 with
    | ok matched =>
        rw [houtcome] at hcompare
        cases hcompare
    | error failure =>
        rw [houtcome] at hcompare
        cases hcompare
        rfl
  · rw [compare_eq, hcheck] at hcompare
    cases hcompare

/-- The comparison of operands does what its relation says. -/
theorem ending_run (options : CompareOptions) (operands : Operands) :
    operands.RootRun options (operands.ending options).1 (operands.ending options).2 := by
  rw [ending, run]
  cases hopening : operands.openingRule? with
  | some rule => exact .openingsDiffer hopening
  | none =>
      have houtputs := compareOutputs_run options (compareNested_run options options.depthLimit)
        (nestedRun_grows options options.depthLimit) 0 operands.left.outputs
        operands.right.outputs (.initial operands.left operands.right)
      simp only [matchBodies, exec_bind]
      rcases hexec : exec (compareOutputs options (compareNested options options.depthLimit) 0
        operands.left.outputs operands.right.outputs) (.initial operands.left operands.right)
        with ⟨error | matched, inner⟩ <;> rw [hexec] at houtputs
      · exact .failed hopening houtputs (by simp)
      · cases matched with
        | false => exact .failed hopening houtputs (by simp)
        | true =>
            cases hall : operands.pairsAllNodes options with
            | false => exact .matched hopening houtputs hall
            | true => exact .checked hopening houtputs hall (requireAllPaired_run options 0 inner)

/-- A verdict is read off the end of a run. -/
theorem run_of_compare (hcompare : operands.compare options = .ok verdict) :
    ∃ matched final, operands.RootRun options (.ok matched) final ∧
      verdict = final.verdict matched := by
  obtain ⟨_, matched, houtcome, hverdict⟩ := ending_of_compare hcompare
  have hrun := operands.ending_run options
  rw [houtcome] at hrun
  exact ⟨matched, _, hrun, hverdict⟩

/-- The pairs of operands that are found equivalent are those with which the comparison of their
outputs ends; where all nodes have to be paired, they are. -/
theorem outputs_of_compare (hcompare : operands.compare options = .ok (.equivalent pairing)) :
    operands.openingRule? = none ∧ ∃ final,
      OutputsRun options (NestedRun options options.depthLimit) 0 operands.left.outputs
        operands.right.outputs (.initial operands.left operands.right) (.ok true) final ∧
      pairing = final.stack.root.pairing ∧
      (operands.pairsAllNodes options = true → unpairedRule? final.stack.root = none) := by
  obtain ⟨matched, final, hrun, hverdict⟩ := run_of_compare hcompare
  obtain ⟨rfl, rfl⟩ := CompareState.verdict_eq_equivalent.mp hverdict
  cases hrun with
  | failed _ _ hfailed => exact absurd rfl hfailed
  | matched hopening houtputs hall =>
      exact ⟨hopening, final, houtputs, rfl, fun hpairs => by simp [hall] at hpairs⟩
  | checked hopening houtputs _ hpaired =>
      obtain ⟨hscope, _⟩ :=
        root_eq_of_extends (houtputs.grows (nestedRun_grows options options.depthLimit))
      rcases hpaired with _ | _ | ⟨hscope', hrule⟩
      rw [hscope, Option.some.injEq] at hscope'
      subst hscope'
      exact ⟨hopening, final, houtputs, rfl, fun _ => hrule⟩

end Operands

end OpGraph
