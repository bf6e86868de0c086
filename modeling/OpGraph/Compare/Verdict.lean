import OpGraph.Compare.Descent
import OpGraph.Graph.WellFormed

/-!
Structural equivalence of functions and graphs, up to the names of values and the order of nodes.
The descent settles on the first pairs that it meets, so operands with symmetric parts may be told
apart although another choice of pairs would do.
-/

namespace OpGraph

/-- The result of a comparison. -/
inductive Verdict where
  /-- The operands are equivalent under these pairs of nodes. -/
  | equivalent (pairing : Pairing)
  /-- The operands differ; why, if this was recorded. -/
  | different (difference : Option Difference)
  deriving DecidableEq

/-- Why there is no verdict. -/
inductive NoVerdict where
  | notWellFormed (violation : Violation)
  | unfinished (error : CompareError)
  deriving DecidableEq

namespace Verdict

def isEquivalent : Verdict → Bool
  | .equivalent _ => true
  | .different _ => false

def pairing? : Verdict → Option Pairing
  | .equivalent pairing => some pairing
  | .different _ => none

def difference? : Verdict → Option Difference
  | .equivalent _ => none
  | .different difference => difference

end Verdict

def CompareFault.message : CompareFault → String
  | .noScope level => "no scope at level " ++ toString level
  | .noNode level index => "no node #" ++ toString index ++ " at level " ++ toString level
  | .pairedTwice => "node committed twice"
  | .stepsExceeded => "comparison does not end"

def CompareError.message : CompareError → String
  | .depthLimitExceeded limit => "Recursion depth limit of " ++ toString limit ++ " exceeded"
  | .fault cause => cause.message

def NoVerdict.message : NoVerdict → String
  | .notWellFormed violation => violation.message
  | .unfinished error => error.message

/-- Runs a comparison of two bodies at the root. -/
def CompareM.verdict (left right : Body) (compare : CompareM Bool) : Except CompareError Verdict :=
  let (outcome, state) := compare.run { stack := .ofBodies left right }
  outcome.map fun matched =>
    if matched then .equivalent state.stack.root.pairing else .different state.difference

/-- Whether the operands are equivalent, as far as the comparison of them tells: not if it is given
up. A fault is no answer. -/
def Verdict.told : Except NoVerdict Verdict → Except CompareFault Bool
  | .ok verdict => .ok verdict.isEquivalent
  | .error (.unfinished (.fault cause)) => .error cause
  | .error _ => .ok false

/-- It is yes only for a mapping. -/
theorem Verdict.told_eq_true_iff {result : Except NoVerdict Verdict} :
    Verdict.told result = .ok true ↔ ∃ pairing, result = .ok (.equivalent pairing) := by
  unfold Verdict.told
  split
  next verdict => cases verdict <;> simp [isEquivalent]
  next => simp
  next => simp

/-- Requires the left operand and then the right one to be well formed, if the options say so. -/
def CompareOptions.checkOperands (options : CompareOptions) (left right : Except Violation Unit) :
    Except NoVerdict Unit :=
  if options.requireWellFormed then do
    left.mapError .notWellFormed
    right.mapError .notWellFormed
  else .ok ()

namespace Function

/-- Compares two functions. Every node has to take part. -/
def compare (options : CompareOptions) (left right : Function) : Except NoVerdict Verdict := do
  options.checkOperands left.checkWellFormed right.checkWellFormed
  (CompareM.verdict left.body right.body
    (CompareM.compareRootFunctions options left right)).mapError .unfinished

/-- Whether two functions are equivalent by the default options; not if the comparison is given up.
-/
def same (left right : Function) : Except CompareFault Bool := Verdict.told (compare {} left right)

/-- Whether two functions are told to be equivalent. -/
def isEquivalent (left right : Function) : Bool := left.same right matches .ok true

end Function

namespace Graph

/-- Compares two graphs. Nodes on which no output depends do not matter, unless the options require
all nodes to take part. -/
def compare (options : CompareOptions) (left right : Graph) : Except NoVerdict Verdict := do
  options.checkOperands left.checkWellFormed right.checkWellFormed
  (CompareM.verdict left.body right.body
    (CompareM.compareRootGraphs options left right)).mapError .unfinished

/-- Whether two graphs are equivalent by the default options; not if the comparison is given up. -/
def same (left right : Graph) : Except CompareFault Bool := Verdict.told (compare {} left right)

/-- Whether two graphs are told to be equivalent. -/
def isEquivalent (left right : Graph) : Bool := left.same right matches .ok true

end Graph

end OpGraph
