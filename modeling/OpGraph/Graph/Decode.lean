import OpGraph.Graph.Encode
import OpGraph.Json.Reader
import OpGraph.Json.Record

/-!
Graphs from JSON.

The payload of an attribute value is decoded as its kind says. When the kind comes first the
payload is decoded where it stands; a payload that comes before its kind is read ahead, all of it,
and decoded once the kind is known.
-/

namespace OpGraph

open RecordField

/-- The words for the kinds, in the order in which a report lists them. -/
def AttributeKind.words : List (String × AttributeKind) :=
  [AttributeKind.int, .float, .string, .ints, .floats, .strings, .graph, .graphs, .tensor, .tensors,
    .sparseTensor, .sparseTensors, .typeProto, .typeProtos].map fun kind => (kind.word, kind)

/-- What the kind of an attribute value may say: one of the kinds, or that the value is a
reference. -/
inductive ValueTag where
  | kind (kind : AttributeKind)
  | reference
  deriving DecidableEq

def ValueTag.words : List (String × ValueTag) :=
  [.int, .float, .string, .ints, .floats, .strings, .graph, .graphs].map wordOf ++
    ("ref", .reference) ::
    [.tensor, .tensors, .sparseTensor, .sparseTensors, .typeProto, .typeProtos].map wordOf
where
  wordOf (kind : AttributeKind) : String × ValueTag := (kind.word, .kind kind)

namespace Decoder

def attributeKind : Decoder AttributeKind := oneOf AttributeKind.words

def tensor : Decoder Tensor := RecordShape.decode {
  title := "struct TensorData"
  blank := {}
  fields := [
    mandatory "name" string fun tensor name => { tensor with name },
    mandatory "data_type" int32 fun tensor dataType => { tensor with dataType },
    mandatory "dims" (list int64) fun tensor dims => { tensor with dims },
    mandatory "raw_data" (list byte) fun tensor rawData => { tensor with rawData }] }

def sparseTensor : Decoder SparseTensor := RecordShape.decode {
  title := "struct SparseTensorData"
  blank := {}
  fields := [
    mandatory "values" tensor fun sparse values => { sparse with values },
    mandatory "indices" tensor fun sparse indices => { sparse with indices },
    mandatory "dims" (list int64) fun sparse dims => { sparse with dims }] }

def typeText : Decoder TypeText := fun source reading =>
  (string source reading).map TypeText.mk

def opsetImport : Decoder OpsetImport := RecordShape.decode {
  title := "struct OpsetId"
  blank := {}
  fields := [
    optional "domain" string fun opset domain => { opset with domain },
    mandatory "version" int64 fun opset version => { opset with version }] }

/-- The target and the kind of a reference. -/
structure ReferencePayload where
  target : String := ""
  kind : AttributeKind := .int

def referenceShape : RecordShape ReferencePayload where
  title := "struct variant AttributeValue::Ref"
  blank := {}
  fields := [
    mandatory "target" string fun payload target => { payload with target },
    mandatory "kind" attributeKind fun payload kind => { payload with kind }]

/-- A reference is always written as an object. -/
def reference : Decoder AttributeValue
  | source, .object members stop => do
      let payload ← referenceShape.ofMembers (← source.enter) members stop
      return .reference payload.target payload.kind
  | source, .array items stop => do
      let _ ← source.enter
      throw ((Reading.array items stop).mismatch referenceShape.title)
  | _, reading => .error (reading.mismatch referenceShape.title)

section Value

variable (graph : Decoder Graph)

def mapped {α β : Type} (decode : Decoder α) (make : α → β) : Decoder β :=
  fun source reading => (decode source reading).map make

/-- The payload of an attribute value. -/
def payload : ValueTag → Decoder AttributeValue
  | .kind .int => mapped int64 .int
  | .kind .float => mapped single .float
  | .kind .string => mapped string .string
  | .kind .ints => mapped (list int64) .ints
  | .kind .floats => mapped (list single) .floats
  | .kind .strings => mapped (list string) .strings
  | .kind .graph => mapped graph .graph
  | .kind .graphs => mapped (list graph) .graphs
  | .reference => reference
  | .kind .tensor => mapped tensor .tensor
  | .kind .tensors => mapped (list tensor) .tensors
  | .kind .sparseTensor => mapped sparseTensor .sparseTensor
  | .kind .sparseTensors => mapped (list sparseTensor) .sparseTensors
  | .kind .typeProto => mapped typeText .typeProto
  | .kind .typeProtos => mapped (list typeText) .typeProtos

/-- The two members of an attribute value that matter. -/
inductive ValueKey where
  | kind
  | value
  deriving DecidableEq

def ValueKey.name : ValueKey → String
  | .kind => "kind"
  | .value => "value"

def ValueKey.ofName? : String → Option ValueKey
  | "kind" => some .kind
  | "value" => some .value
  | _ => none

/-- Skips to the next member that matters; none is left at the end of the object. -/
def nextKey (stop : Option ObjectStop) : List (Except JsonFault String × Reading) →
    Except DecodeError (Option (ValueKey × Reading × List (Except JsonFault String × Reading)))
  | [] => do
      raise? (stop.map ObjectStop.read)
      return none
  | (.error fault, _) :: _ => .error (.text fault)
  | (.ok name, reading) :: rest =>
      match ValueKey.ofName? name with
      | some key => .ok (some (key, reading, rest))
      | none => do
          raise? reading.skip?
          nextKey stop rest

/-- Requires that no member that matters is left. -/
def noKeyLeft (stop : Option ObjectStop) (members : List (Except JsonFault String × Reading)) :
    Except DecodeError Unit := do
  match ← nextKey stop members with
  | none => return ()
  | some (key, _, _) => throw (.data (.duplicateField key.name))

/-- Reads a value ahead of its turn. -/
def readAhead (source : Source) (reading : Reading) : Except DecodeError Unit :=
  match source with
  | .text levels => raise? (reading.fault? levels)
  | .value | .ahead => .ok ()

/-- An attribute value from the members of an object. -/
def valueOfMembers (source : Source) (members : List (Except JsonFault String × Reading))
    (stop : Option ObjectStop) : Except DecodeError AttributeValue := do
  match ← nextKey stop members with
  | none => throw (.data (.missingField ValueKey.kind.name))
  | some (.kind, reading, rest) =>
      let tag ← oneOf ValueTag.words source reading
      match ← nextKey stop rest with
      | none => throw (.data (.missingField ValueKey.value.name))
      | some (.kind, _, _) => throw (.data (.duplicateField ValueKey.kind.name))
      | some (.value, reading, rest) =>
          let value ← payload graph tag source reading
          noKeyLeft stop rest
          return value
  | some (.value, content, rest) =>
      readAhead source content
      match ← nextKey stop rest with
      | none => throw (.data (.missingField ValueKey.kind.name))
      | some (.value, _, _) => throw (.data (.duplicateField ValueKey.value.name))
      | some (.kind, reading, rest) =>
          let tag ← oneOf ValueTag.words source reading
          let value ← payload graph tag .ahead content
          noKeyLeft stop rest
          return value

def valueTitle : String := "adjacently tagged enum AttributeValue"

/-- An attribute value from a list of its kind and its payload. -/
def valueOfItems (source : Source) (readings : List Reading) (stop : Option ListStop) :
    Except DecodeError AttributeValue :=
  match readings with
  | [] => do
      raise? (stop.map ListStop.read)
      throw (.data (.invalidLength 0 valueTitle))
  | [first] => do
      let _ ← identifier ValueTag.words source first
      raise? (stop.map ListStop.read)
      throw (.data (.invalidLength 1 valueTitle))
  | first :: second :: _ => do
      let tag ← identifier ValueTag.words source first
      let value ← payload graph tag source second
      RecordShape.closeList source 2 readings.length stop
      return value

def attributeValueOver : Decoder AttributeValue
  | source, .array readings stop => do valueOfItems graph (← source.enter) readings stop
  | source, .object members stop => do valueOfMembers graph (← source.enter) members stop
  | _, reading => .error (reading.mismatch valueTitle)

def attributeOver : Decoder Attribute := RecordShape.decode {
  title := "struct Attribute"
  blank := default
  fields := [
    mandatory "name" string fun attr name => { attr with name },
    mandatory "value" (attributeValueOver graph) fun attr value => { attr with value }] }

def nodeOver : Decoder Node := RecordShape.decode {
  title := "struct Node"
  blank := {}
  fields := [
    optional "name" string fun node name => { node with name },
    mandatory "op_type" string fun node opType => { node with opType },
    optional "domain" string fun node domain => { node with domain },
    mandatory "inputs" (list string) fun node inputs => { node with inputs },
    mandatory "outputs" (list string) fun node outputs => { node with outputs },
    optional "attributes" (list (attributeOver graph)) fun node attributes =>
      { node with attributes }] }

def graphOver : Decoder Graph := RecordShape.decode {
  title := "struct Graph"
  blank := {}
  fields := [
    optional "name" string fun graph name => { graph with name },
    mandatory "nodes" (list (nodeOver graph)) fun graph nodes => { graph with nodes },
    mandatory "inputs" (list string) fun graph inputs => { graph with inputs },
    mandatory "outputs" (list string) fun graph outputs => { graph with outputs },
    optional "initializers" (list tensor) fun graph initializers => { graph with initializers },
    optional "sparse_initializers" (list sparseTensor) fun graph sparseInitializers =>
      { graph with sparseInitializers }] }

end Value

/-- A graph in which graphs are nested at most so deeply. -/
def graphWithin : Nat → Decoder Graph
  | 0 => fun _ _ => .error (.text .nestedTooDeep)
  | nesting + 1 => graphOver (graphWithin nesting)

/-- A graph. No more graphs than lists and objects are nested in a reading. -/
def graph : Decoder Graph := fun source reading =>
  graphWithin (reading.height + 1) source reading

def attributeValue : Decoder AttributeValue := attributeValueOver graph

def attr : Decoder Attribute := attributeOver graph

def node : Decoder Node := nodeOver graph

def function : Decoder Function := RecordShape.decode {
  title := "struct Function"
  blank := {}
  fields := [
    mandatory "name" string fun function name => { function with name },
    optional "domain" string fun function domain => { function with domain },
    mandatory "inputs" (list string) fun function inputs => { function with inputs },
    mandatory "outputs" (list string) fun function outputs => { function with outputs },
    mandatory "nodes" (list node) fun function nodes => { function with nodes },
    optional "attributes" (list string) fun function parameters => { function with parameters },
    optional "opset_imports" (list opsetImport) fun function opsetImports =>
      { function with opsetImports }] }

end Decoder

/-- How many levels of lists and objects a text may have. -/
def nestingLimit : Nat := 127

/-- Decodes a text that holds one value. -/
def Decoder.ofText {α : Type} (decode : Decoder α) (text : String) : Except DecodeError α := do
  let document := Document.ofText text
  let value ← decode (.text nestingLimit) document.root
  if document.trailing then throw (.text .trailingCharacters)
  return value

/-- Decodes a value at hand. -/
def Decoder.ofJson {α : Type} (decode : Decoder α) (value : Json) : Except DecodeError α :=
  decode .value value.reading

namespace Graph

def ofText (text : String) : Except DecodeError Graph := Decoder.graph.ofText text

/-- The written form of a graph. -/
def toText (graph : Graph) : String := graph.toJson.pretty

end Graph

namespace Function

def ofText (text : String) : Except DecodeError Function := Decoder.function.ofText text

/-- The written form of a function. -/
def toText (function : Function) : String := function.toJson.pretty

end Function

end OpGraph
