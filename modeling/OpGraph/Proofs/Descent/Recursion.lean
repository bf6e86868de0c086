import OpGraph.Compare.Verdict

/-!
The comparison by recursion. Two nodes are the same when operation, domain, attributes and inputs
are, and they are paired when all of this has been found; a value leads to its node by a call, not
by a pending comparison. Where a node depends on itself these calls would not end, so their depth is
limited; a limit that is high enough is never met.
-/

namespace OpGraph

namespace CompareM

/-- The comparison of two nodes at a level, with the steps that led to it. -/
abbrev NodeComparison : Type := Nat → Nat → Nat → List UseStep → CompareM Bool

variable (options : CompareOptions)

/-- Two values are the same if the scopes define both at the same level, and there as the same input
or as the same output of nodes that are the same. -/
def sameValue (sameNodes : NodeComparison) (level : Nat) (left right : String)
    (via : List UseStep) : CompareM Bool := do
  match (← get).stack.lookupOutward? left right level level with
  | none => throw (.fault (.noScope level))
  | some (found, .here leftOrigin rightOrigin) =>
      if leftOrigin.slot ≠ rightOrigin.slot then
        reject options (.slot left right leftOrigin.slot rightOrigin.slot) via
        return false
      else match leftOrigin, rightOrigin with
        | .input _, .input _ => return true
        | .output leftNode _, .output rightNode _ => sameNodes found leftNode rightNode via
        | _, _ =>
            reject options (.inputVersusNode left right) via
            return false
  | some (_, .oneSided) =>
      reject options (.scopeAsymmetry left right) via
      return false
  | some (_, .nowhere) | some (_, .outward _) =>
      reject options (.unbound left right) via
      return false

/-- Values at the same place of two lists are the same. -/
def sameInOrder (sameNodes : NodeComparison) (level : Nat) (via : List UseStep) :
    List String → List String → CompareM Bool
  | left :: lefts, right :: rights => do
      if ← sameValue options sameNodes level left right via then
        sameInOrder sameNodes level via lefts rights
      else return false
  | _, _ => return true

/-- Two lists of values are the same. -/
def sameValues (sameNodes : NodeComparison) (level : Nat) (lefts rights : List String)
    (via : List UseStep) : CompareM Bool := do
  if lefts.length = rights.length then sameInOrder options sameNodes level via lefts rights
  else
    reject options (.valueCount lefts.length rights.length) via
    return false

/-- The bodies at a level are the same if their outputs are, and if all nodes are paired where this
is required. -/
def sameBodies (sameNodes : NodeComparison) (level : Nat) : CompareM Bool := do
  let scope ← scopeAt level
  if ← sameValues options sameNodes level scope.left.outputs scope.right.outputs [] then
    if options.pairAllNodes then requireAllPaired options level else return true
  else return false

/-- Two graphs in attributes of nodes at a level are the same; there may be so many of them inside
each other. -/
def sameGraphs (sameNodes : Nat → NodeComparison) : Nat → NestedComparison
  | 0, _, left, right =>
      underHeaders options left right (throw (.depthLimitExceeded options.depthLimit))
  | levels + 1, level, left, right =>
      underHeaders options left right
        (inScope level left.body right.body (sameBodies options (sameNodes levels)))

/-- Two nodes are the same: they are paired already, or operation, domain, attributes and inputs are
the same, and then they are paired. -/
def sameNodes : (calls levels : Nat) → NodeComparison
  | 0, _, _, _, _, _ => throw (.fault .stepsExceeded)
  | calls + 1, levels, level, left, right, via => do
      let nested := sameGraphs options (sameNodes calls) levels
      let scope ← scopeAt level
      match scope.pairing.partner? left with
      | some partner =>
          if partner = right then return true
          else
            reject options (.mappingConflict left partner right) via
            return false
      | none =>
          let leftNode ← nodeAt level scope.left left
          let rightNode ← nodeAt level scope.right right
          let via := .nodes level left right leftNode.opType :: via
          if leftNode.opType ≠ rightNode.opType then
            reject options (.opType leftNode.opType rightNode.opType) via
            return false
          else if leftNode.domain ≠ rightNode.domain then
            reject options (.domain leftNode.domain rightNode.domain) via
            return false
          else match ← compareAttributes (nested level) leftNode.attributes rightNode.attributes with
            | some (.subgraph name index) =>
                extendPath (.subgraph name index :: via)
                return false
            | some difference =>
                reject options (.attributes difference) via
                return false
            | none =>
                if ← sameValues options (sameNodes calls levels) level leftNode.inputs
                    rightNode.inputs via then
                  pair level left right
                  return true
                else return false

/-- Compares two graphs at the root by recursion. -/
def sameRootGraphs (calls : Nat) (left right : Graph) : CompareM Bool :=
  underHeaders options left right
    (sameBodies options (sameNodes options calls options.depthLimit) 0)

/-- Compares two functions at the root by recursion. -/
def sameRootFunctions (calls : Nat) (left right : Function) : CompareM Bool := do
  match signatureDifference? left right with
  | some rule =>
      reject options rule []
      return false
  | none =>
      if ← sameValues options (sameNodes options calls options.depthLimit) 0 left.outputs
          right.outputs [] then
        requireAllPaired options 0
      else return false

end CompareM

/-- Compares two functions by recursion, with so many calls inside each other. -/
def Function.compareByRecursion (options : CompareOptions) (calls : Nat) (left right : Function) :
    Except NoVerdict Verdict := do
  options.checkOperands left.checkWellFormed right.checkWellFormed
  (CompareM.verdict left.body right.body
    (CompareM.sameRootFunctions options calls left right)).mapError .unfinished

/-- Compares two graphs by recursion, with so many calls inside each other. -/
def Graph.compareByRecursion (options : CompareOptions) (calls : Nat) (left right : Graph) :
    Except NoVerdict Verdict := do
  options.checkOperands left.checkWellFormed right.checkWellFormed
  (CompareM.verdict left.body right.body
    (CompareM.sameRootGraphs options calls left right)).mapError .unfinished

/-- Two results are the same: the same failure, equivalence under the same partners, or the same
difference. -/
inductive SameResult : Except NoVerdict Verdict → Except NoVerdict Verdict → Prop where
  | unfinished {failure : NoVerdict} : SameResult (.error failure) (.error failure)
  | equivalent {pairing pairing' : Pairing} :
      (∀ index, pairing.partner? index = pairing'.partner? index) →
      SameResult (.ok (.equivalent pairing)) (.ok (.equivalent pairing'))
  | different {difference : Option Difference} :
      SameResult (.ok (.different difference)) (.ok (.different difference))

end OpGraph
