import OpGraph.Json.Reader
import OpGraph.Json.Record

/-!
The options of a comparison.
-/

namespace OpGraph

structure CompareOptions where
  /-- How many comparisons of nested graphs may go on inside each other. -/
  depthLimit : Nat := 256
  /-- Whether the first rule that fails is recorded, with the uses that led to it. -/
  trace : Bool := false
  /-- Whether both operands have to be well formed. -/
  requireWellFormed : Bool := false
  /-- Whether all nodes of compared graphs have to be paired, one to one. -/
  pairAllNodes : Bool := false
  deriving DecidableEq, Inhabited

namespace CompareOptions

/-- The options that explain why operands differ. -/
def diagnostic : CompareOptions := { trace := true, requireWellFormed := true }

def withDepthLimit (options : CompareOptions) (depthLimit : Nat) : CompareOptions :=
  { options with depthLimit }

def withTrace (options : CompareOptions) (trace : Bool) : CompareOptions := { options with trace }

def withPairAllNodes (options : CompareOptions) (pairAllNodes : Bool) : CompareOptions :=
  { options with pairAllNodes }

def toJson (options : CompareOptions) : Json :=
  .object [
    ("max_depth", .nat options.depthLimit),
    ("trace", .bool options.trace),
    ("validate_inputs", .bool options.requireWellFormed),
    ("subgraph_totality", .bool options.pairAllNodes)]

end CompareOptions

open RecordField in
/-- Options; what is left out keeps its default. -/
def Decoder.compareOptions : Decoder CompareOptions := RecordShape.decode {
  title := "struct MatchConfig"
  blank := {}
  fields := [
    optional "max_depth" size CompareOptions.withDepthLimit,
    optional "trace" bool CompareOptions.withTrace,
    optional "validate_inputs" bool fun options requireWellFormed =>
      { options with requireWellFormed },
    optional "subgraph_totality" bool CompareOptions.withPairAllNodes] }

end OpGraph
