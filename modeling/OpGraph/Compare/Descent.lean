import OpGraph.Compare.Attributes
import OpGraph.Compare.State

/-!
The comparison of two bodies, from their outputs down. Two values match when they are the same
output of matching nodes or the same input; two nodes match when operation, domain, attributes and
inputs do. A pair of nodes that is settled on is never given up.

Pending comparisons are kept in a list, and the ones that come up last are taken first. Only graphs
in attributes are compared by a call, and the number of such calls inside each other is limited.
-/

namespace OpGraph

namespace CompareM

/-- The comparison of graphs in attributes of two nodes at a level. -/
abbrev NestedComparison : Type := Nat → Graph → Graph → CompareM Bool

variable (options : CompareOptions)

/-- The comparisons of the values of two lists, one by one. -/
def pendingValues (level : Nat) (lefts rights : List String) (via : List UseStep) : List Pending :=
  lefts.zipWith (fun left right => .values level left right via) rights

/-- Leads to the values of two lists, which differ if their lengths do. -/
def valuesStep (level : Nat) (lefts rights : List String) (via : List UseStep) :
    CompareM (Option (List Pending)) := do
  if lefts.length = rights.length then return some (pendingValues level lefts rights via)
  else
    reject options (.valueCount lefts.length rights.length) via
    return none

/-- Compares where two values come from: the same place of the inputs, or the same output of two
nodes that are still to be compared. -/
def originStep (level : Nat) (left right : String) (leftOrigin rightOrigin : Origin)
    (via : List UseStep) : CompareM (Option (List Pending)) := do
  if leftOrigin.slot ≠ rightOrigin.slot then
    reject options (.slot left right leftOrigin.slot rightOrigin.slot) via
    return none
  else match leftOrigin, rightOrigin with
    | .input _, .input _ => return some []
    | .output leftNode _, .output rightNode _ =>
        return some [.nodes level leftNode rightNode via]
    | _, _ =>
        reject options (.inputVersusNode left right) via
        return none

/-- Compares two values. Names that are defined further out are compared at that level. -/
def valueStep (level : Nat) (left right : String) (via : List UseStep) :
    CompareM (Option (List Pending)) := do
  match (← get).stack.lookupOutward? left right level level with
  | none => throw (.fault (.noScope level))
  | some (found, .here leftOrigin rightOrigin) =>
      originStep options found left right leftOrigin rightOrigin via
  | some (_, .oneSided) =>
      reject options (.scopeAsymmetry left right) via
      return none
  | some (_, .nowhere) | some (_, .outward _) =>
      reject options (.unbound left right) via
      return none

/-- Compares two nodes but for their inputs, whose comparison it leads to. The nodes are paired
before that: if an input differs, the operands differ. -/
def nodeStep (nested : NestedComparison) (level left right : Nat) (via : List UseStep) :
    CompareM (Option (List Pending)) := do
  let scope ← scopeAt level
  match scope.pairing.partner? left with
  | some partner =>
      if partner = right then return some []
      else
        reject options (.mappingConflict left partner right) via
        return none
  | none =>
      let leftNode ← nodeAt level scope.left left
      let rightNode ← nodeAt level scope.right right
      let via := .nodes level left right leftNode.opType :: via
      if leftNode.opType ≠ rightNode.opType then
        reject options (.opType leftNode.opType rightNode.opType) via
        return none
      else if leftNode.domain ≠ rightNode.domain then
        reject options (.domain leftNode.domain rightNode.domain) via
        return none
      else match ← compareAttributes (nested level) leftNode.attributes rightNode.attributes with
        | some (.subgraph name index) =>
            extendPath (.subgraph name index :: via)
            return none
        | some difference =>
            reject options (.attributes difference) via
            return none
        | none =>
            match ← valuesStep options level leftNode.inputs rightNode.inputs via with
            | none => return none
            | some pending =>
                pair level left right
                return some pending

/-- Does one pending comparison. Gives the comparisons that it leads to, or nothing if it fails. -/
def step (nested : NestedComparison) : Pending → CompareM (Option (List Pending))
  | .values level left right via => valueStep options level left right via
  | .nodes level left right via => nodeStep options nested level left right via

/-- Does the pending comparisons until one fails or none is left. -/
def drain (nested : NestedComparison) : Nat → List Pending → CompareM Bool
  | _, [] => return true
  | 0, _ :: _ => throw (.fault .stepsExceeded)
  | steps + 1, next :: rest => do
      match ← step options nested next with
      | none => return false
      | some pending => drain nested steps (pending ++ rest)

/-- The number of inputs of all left nodes in the scopes. -/
def inputTotal (stack : ScopeStack) : Nat :=
  (stack.scopes.flatMap fun scope => scope.left.nodes.flatMap Node.inputs).length

/-- Does the pending comparisons. A left node is paired at most once, so its inputs come up at most
once, and a value leads to at most one pair of nodes: this bounds the steps. -/
def drainAll (nested : NestedComparison) (pending : List Pending) : CompareM Bool := do
  drain options nested (2 * (pending.length + inputTotal (← get).stack)) pending

/-- Compares the outputs of two bodies and all that they depend on. -/
def compareOutputs (nested : NestedComparison) (level : Nat) (lefts rights : List String) :
    CompareM Bool := do
  match ← valuesStep options level lefts rights [] with
  | none => return false
  | some pending => drainAll options nested pending

/-- Requires that all nodes at a level are paired, one to one. -/
def requireAllPaired (level : Nat) : CompareM Bool := do
  let scope ← scopeAt level
  let paired := scope.pairing.size
  let targets := scope.pairing.targetCount
  if paired ≠ scope.left.nodes.length then
    reject options (.unreachedNodes paired scope.left.nodes.length) []
    return false
  else if targets ≠ scope.right.nodes.length then
    reject options (.notInjective targets scope.right.nodes.length) []
    return false
  else return true

/-- Compares the two bodies of graphs at a level. -/
def compareBodies (nested : NestedComparison) (level : Nat) : CompareM Bool := do
  let scope ← scopeAt level
  if ← compareOutputs options nested level scope.left.outputs scope.right.outputs then
    if options.pairAllNodes then requireAllPaired options level else return true
  else return false

/-- What two graphs differ in before their bodies are looked at. -/
def headerDifference? (left right : Graph) : Option FailedRule :=
  if left.inputs.length ≠ right.inputs.length then
    some (.inputCount left.inputs.length right.inputs.length)
  else if left.initializers.isEmpty && right.initializers.isEmpty &&
      left.sparseInitializers.isEmpty && right.sparseInitializers.isEmpty then none
  else some .initializers

/-- Compares graphs by their headers, then as given. -/
def underHeaders (left right : Graph) (compare : CompareM Bool) : CompareM Bool := do
  match headerDifference? left right with
  | some rule =>
      reject options rule []
      return false
  | none => compare

/-- Compares graphs in attributes, with so many comparisons inside each other. -/
def compareNested : Nat → NestedComparison
  | 0, _, left, right =>
      underHeaders options left right (throw (.depthLimitExceeded options.depthLimit))
  | levels + 1, level, left, right =>
      underHeaders options left right
        (inScope level left.body right.body (compareBodies options (compareNested levels)))

/-- Compares two graphs at the root. -/
def compareRootGraphs (left right : Graph) : CompareM Bool :=
  underHeaders options left right
    (compareBodies options (compareNested options options.depthLimit) 0)

/-- Whether two lists hold the same names. -/
def sameNames (lefts rights : List String) : Bool :=
  lefts.all (rights.contains ·) && rights.all (lefts.contains ·)

/-- The version under which a domain is imported; of several imports the last one counts. -/
def importedVersion? (imports : List OpsetImport) (domain : String) : Option Int64 :=
  (imports.reverse.find? (·.domain == domain)).map OpsetImport.version

/-- Whether two lists import the same domains under the same versions. -/
def sameImports (lefts rights : List OpsetImport) : Bool :=
  (lefts ++ rights).all fun opset =>
    importedVersion? lefts opset.domain == importedVersion? rights opset.domain

/-- What two functions differ in before their bodies are looked at. Their names and domains do not
matter. -/
def signatureDifference? (left right : Function) : Option FailedRule :=
  if left.inputs.length ≠ right.inputs.length then
    some (.inputCount left.inputs.length right.inputs.length)
  else if !sameNames left.parameters right.parameters then some .attributeParameters
  else if !sameImports left.opsetImports right.opsetImports then some .opsetImports
  else if left.nodes.length ≠ right.nodes.length then
    some (.nodeCount left.nodes.length right.nodes.length)
  else none

/-- Compares two functions at the root. All nodes of a function have to be paired. -/
def compareRootFunctions (left right : Function) : CompareM Bool := do
  match signatureDifference? left right with
  | some rule =>
      reject options rule []
      return false
  | none =>
      let nested := compareNested options options.depthLimit
      if ← compareOutputs options nested 0 left.outputs right.outputs then
        requireAllPaired options 0
      else return false

end CompareM

end OpGraph
