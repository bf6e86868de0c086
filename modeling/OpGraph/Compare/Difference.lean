import OpGraph.Graph.Basic

/-!
Why two operands differ: the first rule that fails, and the uses that led to it.
-/

namespace OpGraph

/-- How the attributes of two nodes differ. -/
inductive AttributeDifference where
  | count (left right : Nat)
  | missing (name : String)
  | kind (name : String) (left right : AttributeKind)
  | value (name : String)
  | unsupported (name : String) (kind : AttributeKind)
  | graphCount (name : String) (left right : Nat)
  | subgraph (name : String) (index : Nat)
  deriving DecidableEq

/-- The rule that fails. -/
inductive FailedRule where
  | inputCount (left right : Nat)
  | attributeParameters
  | opsetImports
  | nodeCount (left right : Nat)
  | initializers
  | valueCount (left right : Nat)
  | unbound (left right : String)
  | scopeAsymmetry (left right : String)
  | slot (left right : String) (leftSlot rightSlot : Nat)
  | inputVersusNode (left right : String)
  | mappingConflict (left partner right : Nat)
  | opType (left right : String)
  | domain (left right : String)
  | attributes (difference : AttributeDifference)
  | unreachedNodes (paired total : Nat)
  | notInjective (targets total : Nat)
  deriving DecidableEq

/-- A step on the way to a difference: two nodes under comparison, or a graph in an attribute of
the two nodes of the step that follows. -/
inductive UseStep where
  | nodes (level left right : Nat) (opType : String)
  | subgraph (attr : String) (index : Nat)
  deriving DecidableEq

/-- The rule that fails and the way to it, the innermost step first. -/
structure Difference where
  rule : FailedRule
  path : List UseStep
  deriving DecidableEq

def versus (left right : Nat) : String := toString left ++ " vs " ++ toString right

namespace AttributeDifference

def about (name : String) : String := "attribute '" ++ name ++ "' "

def message : AttributeDifference → String
  | .count left right => "attribute count differs: " ++ versus left right
  | .missing name => about name ++ "missing from the first operand"
  | .kind name left right => about name ++ "kind differs: " ++ left.label ++ " vs " ++ right.label
  | .value name => about name ++ "value differs"
  | .unsupported name held => about name ++ "has unsupported kind " ++ held.label
  | .graphCount name left right =>
      about name ++ "holds " ++ toString left ++ " graphs vs " ++ toString right
  | .subgraph name index => about name ++ "graph #" ++ toString index ++ " differs"

end AttributeDifference

namespace FailedRule

def pairText (left right : String) : String := "'" ++ left ++ "' and '" ++ right ++ "'"

def message : FailedRule → String
  | .inputCount left right => "input count differs: " ++ versus left right
  | .attributeParameters => "formal attribute parameters differ"
  | .opsetImports => "opset imports differ"
  | .nodeCount left right => "node count differs: " ++ versus left right
  | .initializers => "initializers are not supported"
  | .valueCount left right => "value list length differs: " ++ versus left right
  | .unbound left right => "values " ++ pairText left right ++ " are not defined in any scope"
  | .scopeAsymmetry left right =>
      "values " ++ pairText left right ++ " are defined in different scopes"
  | .slot left right leftSlot rightSlot =>
      "values " ++ pairText left right ++ " come from different slots: " ++ versus leftSlot rightSlot
  | .inputVersusNode left right => "value " ++ pairText left right ++ ": only one is a scope input"
  | .mappingConflict left partner right =>
      "node #" ++ toString left ++ " is already paired with #" ++ toString partner ++ ", not #" ++
        toString right
  | .opType left right => "op type differs: " ++ left ++ " vs " ++ right
  | .domain left right => "domain differs: '" ++ left ++ "' vs '" ++ right ++ "'"
  | .attributes difference => difference.message
  | .unreachedNodes paired total =>
      "only " ++ toString paired ++ " of " ++ toString total ++
        " nodes are reachable from the outputs"
  | .notInjective targets total =>
      toString targets ++ " distinct targets for " ++ toString total ++ " nodes"

end FailedRule

def UseStep.message : UseStep → String
  | .nodes level left right opType =>
      opType ++ " node #" ++ toString left ++ " vs #" ++ toString right ++ " (scope " ++
        toString level ++ ")"
  | .subgraph attr index => "graph attribute '" ++ attr ++ "' #" ++ toString index

/-- The rule, and a line for each step of the way. -/
def Difference.message (difference : Difference) : String :=
  difference.rule.message ++
    String.join (difference.path.map fun step => "\n  while matching " ++ step.message)

end OpGraph
