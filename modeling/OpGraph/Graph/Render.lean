import OpGraph.Graph.Basic
import OpGraph.Number.Shortest
import OpGraph.Text.Quoted

/-!
Graphs as text for readers: one line a node, results to the left. Nested graphs and opaque payloads
are only named.
-/

namespace OpGraph

open Text

/-- Numbers are written plainly from one ten-thousandth up to below ten to the sixteenth; of two
equally near last digits the greater is taken. -/
def displayLayout : DecimalLayout := ⟨-4, 15, false, .upward⟩

def listText (names : List String) : String := joinWith ", " names

def integerText (value : Int64) : String := toString value.toInt

namespace AttributeValue

def render : AttributeValue → String
  | .int value => integerText value
  | .float value => displayLayout.text value
  | .string value => quote value
  | .ints values => bracketed (values.map integerText)
  | .floats values => bracketed (values.map displayLayout.text)
  | .strings values => bracketed (values.map quote)
  | .graph g => "graph(" ++ toString g.nodes.length ++ " nodes)"
  | .graphs gs => "graphs[" ++ toString gs.length ++ "]"
  | .reference target _ => "@" ++ target
  | value@(.tensor _) | value@(.tensors _) | value@(.sparseTensor _) | value@(.sparseTensors _)
  | value@(.typeProto _) | value@(.typeProtos _) => "<" ++ value.kind.label ++ ">"

end AttributeValue

def Attribute.render (attr : Attribute) : String :=
  attr.name ++ "=" ++ attr.value.render

def Node.render (node : Node) : String :=
  let domain := if node.domain.isEmpty then "" else node.domain ++ "."
  let attributes :=
    if node.attributes.isEmpty then ""
    else " <" ++ listText (node.attributes.map Attribute.render) ++ ">"
  listText node.outputs ++ " = " ++ domain ++ node.opType ++ "(" ++ listText node.inputs ++ ")" ++
    attributes

/-- The lines of a body, from the opening to the closing brace. -/
def Body.render (body : Body) : String :=
  "(" ++ listText body.inputs ++ ") \x7b\n" ++
    String.join (body.nodes.map fun node => "  " ++ node.render ++ "\n") ++
    "  return " ++ listText body.outputs ++ "\n\x7d"

def Graph.render (graph : Graph) : String :=
  "graph " ++ graph.name ++ graph.body.render

def Function.render (function : Function) : String :=
  let domain := if function.domain.isEmpty then "" else function.domain ++ "."
  let parameters :=
    if function.parameters.isEmpty then "" else "<" ++ listText function.parameters ++ ">"
  "fn " ++ domain ++ function.name ++ parameters ++ function.body.render

end OpGraph
