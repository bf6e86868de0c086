import OpGraph.Graph.Basic
import OpGraph.Json.Basic

/-!
Graphs as JSON. Every field is written, in the order of its declaration; an attribute value is an
object with its kind and its payload.
-/

namespace OpGraph

/-- The word for a kind in JSON. -/
def AttributeKind.word : AttributeKind → String
  | .int => "int"
  | .float => "float"
  | .string => "string"
  | .ints => "ints"
  | .floats => "floats"
  | .strings => "strings"
  | .graph => "graph"
  | .graphs => "graphs"
  | .tensor => "tensor"
  | .tensors => "tensors"
  | .sparseTensor => "sparse_tensor"
  | .sparseTensors => "sparse_tensors"
  | .typeProto => "type_proto"
  | .typeProtos => "type_protos"

namespace Json

def strings (values : List String) : Json := .array (values.map .string)

def int64s (values : List Int64) : Json := .array (values.map fun value => int value.toInt)

def single (value : Binary32) : Json := .number (.single value)

end Json

def Tensor.toJson (tensor : Tensor) : Json :=
  .object [
    ("name", .string tensor.name),
    ("data_type", .int tensor.dataType.toInt),
    ("dims", .int64s tensor.dims),
    ("raw_data", .array (tensor.rawData.map fun byte => .nat byte.toNat))]

def SparseTensor.toJson (tensor : SparseTensor) : Json :=
  .object [
    ("values", tensor.values.toJson),
    ("indices", tensor.indices.toJson),
    ("dims", .int64s tensor.dims)]

def TypeText.toJson (type : TypeText) : Json := .string type.text

def AttributeKind.toJson (kind : AttributeKind) : Json := .string kind.word

def OpsetImport.toJson (opset : OpsetImport) : Json :=
  .object [("domain", .string opset.domain), ("version", .int opset.version.toInt)]

/-- An attribute value from the word for its kind and its payload. -/
def taggedJson (word : String) (payload : Json) : Json :=
  .object [("kind", .string word), ("value", payload)]

mutual

def AttributeValue.toJson : AttributeValue → Json
  | .int value => taggedJson "int" (.int value.toInt)
  | .float value => taggedJson "float" (.single value)
  | .string value => taggedJson "string" (.string value)
  | .ints values => taggedJson "ints" (.int64s values)
  | .floats values => taggedJson "floats" (.array (values.map .single))
  | .strings values => taggedJson "strings" (.strings values)
  | .graph graph => taggedJson "graph" graph.toJson
  | .graphs graphs => taggedJson "graphs" (.array (graphsJson graphs))
  | .reference target kind =>
      taggedJson "ref" (.object [("target", .string target), ("kind", kind.toJson)])
  | .tensor tensor => taggedJson "tensor" tensor.toJson
  | .tensors tensors => taggedJson "tensors" (.array (tensors.map Tensor.toJson))
  | .sparseTensor tensor => taggedJson "sparse_tensor" tensor.toJson
  | .sparseTensors tensors =>
      taggedJson "sparse_tensors" (.array (tensors.map SparseTensor.toJson))
  | .typeProto type => taggedJson "type_proto" type.toJson
  | .typeProtos types => taggedJson "type_protos" (.array (types.map TypeText.toJson))

def Attribute.toJson : Attribute → Json
  | { name, value } => .object [("name", .string name), ("value", value.toJson)]

def Node.toJson : Node → Json
  | { name, opType, domain, inputs, outputs, attributes } =>
      .object [
        ("name", .string name),
        ("op_type", .string opType),
        ("domain", .string domain),
        ("inputs", .strings inputs),
        ("outputs", .strings outputs),
        ("attributes", .array (attributesJson attributes))]

def Graph.toJson : Graph → Json
  | { name, nodes, inputs, outputs, initializers, sparseInitializers } =>
      .object [
        ("name", .string name),
        ("nodes", .array (nodesJson nodes)),
        ("inputs", .strings inputs),
        ("outputs", .strings outputs),
        ("initializers", .array (initializers.map Tensor.toJson)),
        ("sparse_initializers", .array (sparseInitializers.map SparseTensor.toJson))]

def graphsJson : List Graph → List Json
  | [] => []
  | graph :: graphs => graph.toJson :: graphsJson graphs

def attributesJson : List Attribute → List Json
  | [] => []
  | attr :: rest => attr.toJson :: attributesJson rest

def nodesJson : List Node → List Json
  | [] => []
  | node :: nodes => node.toJson :: nodesJson nodes

end

def Function.toJson (function : Function) : Json :=
  .object [
    ("name", .string function.name),
    ("domain", .string function.domain),
    ("inputs", .strings function.inputs),
    ("outputs", .strings function.outputs),
    ("nodes", .array (nodesJson function.nodes)),
    ("attributes", .strings function.parameters),
    ("opset_imports", .array (function.opsetImports.map OpsetImport.toJson))]

end OpGraph
