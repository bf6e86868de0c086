import OpGraph.Number.Binary

/-!
Operator graphs. A node applies an operation to named values and defines named results; attributes
give the operation its parameters, and an attribute may hold whole graphs. A value is defined as an
input of a graph or function, or as an output of a node, and a nested graph may use the values of
the graphs around it. The empty name stands for an optional value that is left out.
-/

namespace OpGraph

/-- A dense tensor, kept as it was written. -/
structure Tensor where
  name : String := ""
  dataType : Int32 := 0
  dims : List Int64 := []
  rawData : List UInt8 := []
  deriving DecidableEq, Inhabited

/-- A sparse tensor: its values and their indices. -/
structure SparseTensor where
  values : Tensor := {}
  indices : Tensor := {}
  dims : List Int64 := []
  deriving DecidableEq, Inhabited

/-- The text of a type. -/
structure TypeText where
  text : String := ""
  deriving DecidableEq, Inhabited

/-- What an attribute value holds. -/
inductive AttributeKind where
  | int
  | float
  | string
  | ints
  | floats
  | strings
  | graph
  | graphs
  | tensor
  | tensors
  | sparseTensor
  | sparseTensors
  | typeProto
  | typeProtos
  deriving DecidableEq, Inhabited

/-- One import of an operator set. -/
structure OpsetImport where
  domain : String := ""
  version : Int64 := 0
  deriving DecidableEq, Inhabited

mutual

/-- The value of an attribute. A reference names a formal attribute parameter of the function
around it, together with the kind of that parameter. -/
inductive AttributeValue where
  | int (value : Int64)
  | float (value : Binary32)
  | string (value : String)
  | ints (values : List Int64)
  | floats (values : List Binary32)
  | strings (values : List String)
  | graph (graph : Graph)
  | graphs (graphs : List Graph)
  | reference (target : String) (kind : AttributeKind)
  | tensor (tensor : Tensor)
  | tensors (tensors : List Tensor)
  | sparseTensor (tensor : SparseTensor)
  | sparseTensors (tensors : List SparseTensor)
  | typeProto (type : TypeText)
  | typeProtos (types : List TypeText)

structure Attribute where
  name : String
  value : AttributeValue

/-- An operation with its operands and results. The name is a label and is never compared. -/
structure Node where
  name : String := ""
  opType : String := ""
  domain : String := ""
  inputs : List String := []
  outputs : List String := []
  attributes : List Attribute := []

structure Graph where
  name : String := ""
  nodes : List Node := []
  inputs : List String := []
  outputs : List String := []
  initializers : List Tensor := []
  sparseInitializers : List SparseTensor := []

end

/-- A function: a body with formal attribute parameters and imported operator sets. -/
structure Function where
  name : String := ""
  domain : String := ""
  inputs : List String := []
  outputs : List String := []
  nodes : List Node := []
  parameters : List String := []
  opsetImports : List OpsetImport := []

/-- What graphs and functions have in common. -/
structure Body where
  nodes : List Node
  inputs : List String
  outputs : List String

def Graph.body (graph : Graph) : Body := ⟨graph.nodes, graph.inputs, graph.outputs⟩

def Function.body (function : Function) : Body :=
  ⟨function.nodes, function.inputs, function.outputs⟩

instance : Inhabited AttributeValue := ⟨.int 0⟩

instance : Inhabited Attribute := ⟨"", default⟩

instance : Inhabited Node := ⟨{}⟩

instance : Inhabited Graph := ⟨{}⟩

instance : Inhabited Function := ⟨{}⟩

namespace AttributeKind

/-- The kinds whose payload is never compared. -/
def isOpaque : AttributeKind → Bool
  | .tensor | .tensors | .sparseTensor | .sparseTensors | .typeProto | .typeProtos => true
  | .int | .float | .string | .ints | .floats | .strings | .graph | .graphs => false

/-- The name of a kind in reports. -/
def label : AttributeKind → String
  | .int => "INT"
  | .float => "FLOAT"
  | .string => "STRING"
  | .ints => "INTS"
  | .floats => "FLOATS"
  | .strings => "STRINGS"
  | .graph => "GRAPH"
  | .graphs => "GRAPHS"
  | .tensor => "TENSOR"
  | .tensors => "TENSORS"
  | .sparseTensor => "SPARSE_TENSOR"
  | .sparseTensors => "SPARSE_TENSORS"
  | .typeProto => "TYPE_PROTO"
  | .typeProtos => "TYPE_PROTOS"

end AttributeKind

namespace AttributeValue

/-- The kind of a value; a reference has the kind of its parameter. -/
def kind : AttributeValue → AttributeKind
  | .int _ => .int
  | .float _ => .float
  | .string _ => .string
  | .ints _ => .ints
  | .floats _ => .floats
  | .strings _ => .strings
  | .graph _ => .graph
  | .graphs _ => .graphs
  | .reference _ kind => kind
  | .tensor _ => .tensor
  | .tensors _ => .tensors
  | .sparseTensor _ => .sparseTensor
  | .sparseTensors _ => .sparseTensors
  | .typeProto _ => .typeProto
  | .typeProtos _ => .typeProtos

def isReference : AttributeValue → Bool
  | .reference .. => true
  | _ => false

/-- Whether the value holds a payload that is never compared. A reference does not, whatever the
kind of its parameter. -/
def isOpaque (value : AttributeValue) : Bool :=
  !value.isReference && value.kind.isOpaque

/-- The graphs that a value holds, in order. -/
def subgraphs : AttributeValue → List Graph
  | .graph g => [g]
  | .graphs gs => gs
  | _ => []

end AttributeValue

namespace Node

def ofType (opType : String) : Node := { opType }

def withName (node : Node) (name : String) : Node := { node with name }

def withDomain (node : Node) (domain : String) : Node := { node with domain }

def withInputs (node : Node) (inputs : List String) : Node := { node with inputs }

def withOutputs (node : Node) (outputs : List String) : Node := { node with outputs }

def addAttribute (node : Node) (attr : Attribute) : Node :=
  { node with attributes := node.attributes ++ [attr] }

/-- The first attribute of a name. -/
def attribute? (node : Node) (name : String) : Option Attribute :=
  node.attributes.find? (·.name == name)

end Node

namespace Graph

def withName (graph : Graph) (name : String) : Graph := { graph with name }

def addInputs (graph : Graph) (names : List String) : Graph :=
  { graph with inputs := graph.inputs ++ names }

def addOutputs (graph : Graph) (names : List String) : Graph :=
  { graph with outputs := graph.outputs ++ names }

def addNode (graph : Graph) (node : Node) : Graph :=
  { graph with nodes := graph.nodes ++ [node] }

def addInitializer (graph : Graph) (tensor : Tensor) : Graph :=
  { graph with initializers := graph.initializers ++ [tensor] }

def addSparseInitializer (graph : Graph) (tensor : SparseTensor) : Graph :=
  { graph with sparseInitializers := graph.sparseInitializers ++ [tensor] }

end Graph

namespace Function

/-- A function without inputs, outputs and nodes. -/
def named (domain name : String) : Function := { domain, name }

def addInputs (function : Function) (names : List String) : Function :=
  { function with inputs := function.inputs ++ names }

def addOutputs (function : Function) (names : List String) : Function :=
  { function with outputs := function.outputs ++ names }

def addNode (function : Function) (node : Node) : Function :=
  { function with nodes := function.nodes ++ [node] }

def addParameter (function : Function) (name : String) : Function :=
  { function with parameters := function.parameters ++ [name] }

def addImport (function : Function) (domain : String) (version : Int64) : Function :=
  { function with opsetImports := function.opsetImports ++ [⟨domain, version⟩] }

end Function

end OpGraph
