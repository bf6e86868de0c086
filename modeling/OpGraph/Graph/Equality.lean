import OpGraph.Graph.Basic

/-!
Equality of graphs and functions, field by field and in order. Floats are compared as numbers, so a
graph that holds a NaN differs from itself.
-/

namespace OpGraph

mutual

def AttributeValue.equal : AttributeValue → AttributeValue → Bool
  | .int value, .int value' => value == value'
  | .float value, .float value' => value.numericEq value'
  | .string value, .string value' => value == value'
  | .ints values, .ints values' => values == values'
  | .floats values, .floats values' => values.isEqv values' Binary.numericEq
  | .strings values, .strings values' => values == values'
  | .graph graph, .graph graph' => graph.equal graph'
  | .graphs graphs, .graphs graphs' => graphsEqual graphs graphs'
  | .reference target kind, .reference target' kind' => target == target' && kind == kind'
  | .tensor tensor, .tensor tensor' => tensor == tensor'
  | .tensors tensors, .tensors tensors' => tensors == tensors'
  | .sparseTensor tensor, .sparseTensor tensor' => tensor == tensor'
  | .sparseTensors tensors, .sparseTensors tensors' => tensors == tensors'
  | .typeProto type, .typeProto type' => type == type'
  | .typeProtos types, .typeProtos types' => types == types'
  | _, _ => false

def Attribute.equal : Attribute → Attribute → Bool
  | ⟨name, value⟩, ⟨name', value'⟩ => name == name' && value.equal value'

def Node.equal : Node → Node → Bool
  | ⟨name, opType, domain, inputs, outputs, attributes⟩,
    ⟨name', opType', domain', inputs', outputs', attributes'⟩ =>
      name == name' && opType == opType' && domain == domain' && inputs == inputs' &&
        outputs == outputs' && attributesEqual attributes attributes'

def Graph.equal : Graph → Graph → Bool
  | ⟨name, nodes, inputs, outputs, initializers, sparse⟩,
    ⟨name', nodes', inputs', outputs', initializers', sparse'⟩ =>
      name == name' && nodesEqual nodes nodes' && inputs == inputs' && outputs == outputs' &&
        initializers == initializers' && sparse == sparse'

def graphsEqual : List Graph → List Graph → Bool
  | [], [] => true
  | graph :: graphs, graph' :: graphs' => graph.equal graph' && graphsEqual graphs graphs'
  | _, _ => false

def attributesEqual : List Attribute → List Attribute → Bool
  | [], [] => true
  | attr :: rest, attr' :: rest' => attr.equal attr' && attributesEqual rest rest'
  | _, _ => false

def nodesEqual : List Node → List Node → Bool
  | [], [] => true
  | node :: nodes, node' :: nodes' => node.equal node' && nodesEqual nodes nodes'
  | _, _ => false

end

instance : BEq Node := ⟨Node.equal⟩

instance : BEq Graph := ⟨Graph.equal⟩

def Function.equal (function function' : Function) : Bool :=
  function.name == function'.name && function.domain == function'.domain &&
    function.inputs == function'.inputs && function.outputs == function'.outputs &&
    nodesEqual function.nodes function'.nodes && function.parameters == function'.parameters &&
    function.opsetImports == function'.opsetImports

instance : BEq Function := ⟨Function.equal⟩

end OpGraph
