import OpGraph.Graph.Basic

/-!
Where the values of a body come from. A body is read as the list of its definitions: its inputs,
then the outputs of its nodes in order. Should a name be defined twice, its last definition counts.
-/

namespace OpGraph

/-- Where a value comes from: a place among the inputs of a body, or one among the outputs of a
node. -/
inductive Origin where
  | input (slot : Nat)
  | output (node slot : Nat)
  deriving DecidableEq

namespace Origin

def slot : Origin → Nat
  | .input place => place
  | .output _ place => place

/-- The node that the value is an output of, if it is one. -/
def node? : Origin → Option Nat
  | .input _ => none
  | .output node _ => some node

def render : Origin → String
  | .input place => "input #" ++ toString place
  | .output node place => "node #" ++ toString node ++ " output #" ++ toString place

end Origin

/-- The definitions that the inputs of a body make. -/
def inputDefinitions (inputs : List String) : List (String × Origin) :=
  inputs.zipIdx.map fun (name, slot) => (name, .input slot)

/-- The definitions that a node makes. Outputs without a name are omitted. -/
def Node.definitions (node : Node) (index : Nat) : List (String × Origin) :=
  (node.outputs.zipIdx.filter (·.1 != "")).map fun (name, slot) => (name, .output index slot)

namespace Body

def definitions (body : Body) : List (String × Origin) :=
  inputDefinitions body.inputs ++
    body.nodes.zipIdx.flatMap fun (node, index) => node.definitions index

/-- The last origin of a name. -/
def origin? (body : Body) (name : String) : Option Origin := body.definitions.reverse.lookup name

def defines (body : Body) (name : String) : Bool := (body.origin? name).isSome

/-- How many different names are defined. -/
def nameCount (body : Body) : Nat := (body.definitions.map Prod.fst).eraseDups.length

theorem origin?_eq_none_iff {body : Body} {name : String} :
    body.origin? name = none ↔ name ∉ body.definitions.map Prod.fst := by
  simp only [origin?, List.lookup_eq_none_iff, List.mem_reverse, List.mem_map, not_exists,
    not_and]
  constructor
  · intro hnone definition hmem hname
    exact absurd (hnone definition hmem) (by simp [hname])
  · intro hnone definition hmem
    simpa using fun hname => hnone definition hmem hname.symm

end Body

end OpGraph
