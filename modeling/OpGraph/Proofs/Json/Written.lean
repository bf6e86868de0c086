import OpGraph.Proofs.Json.AsRead
import OpGraph.Proofs.Scoping.Mentioned

/-!
# What is written of graphs and functions

Each single of a graph or a function is written, so what is written is finite only if all of them
are.
-/

namespace OpGraph

/-- The singles that the value holds itself. -/
def AttributeValue.singles : AttributeValue → List Binary32
  | .float value => [value]
  | .floats values => values
  | _ => []

/-- The value of a member is nested less deeply than the object that has it. -/
theorem Json.height_lt_of_member? {members : List (String × Json)} (name : String) {value : Json}
    (hvalue : (object members).member? name = some value) :
    value.height < (object members).height :=
  height_lt_object (Body.mem_of_lookup hvalue)

namespace Decoder

theorem graphsJson_eq (graphs : List Graph) : graphsJson graphs = graphs.map Graph.toJson := by
  induction graphs with
  | nil => rfl
  | cons graph graphs ih => rw [graphsJson, ih, List.map_cons]

theorem attributesJson_eq (attributes : List Attribute) :
    attributesJson attributes = attributes.map Attribute.toJson := by
  induction attributes with
  | nil => rfl
  | cons attr attributes ih => rw [attributesJson, ih, List.map_cons]

theorem nodesJson_eq (nodes : List Node) : nodesJson nodes = nodes.map Node.toJson := by
  induction nodes with
  | nil => rfl
  | cons node nodes ih => rw [nodesJson, ih, List.map_cons]

end Decoder

/-! ## Finite singles -/

/-- In every scope of the body, each single is finite. -/
def Body.SinglesFinite (body : Body) : Prop :=
  ∀ scope, body.HasScope scope → ∀ node ∈ scope.nodes, ∀ attr ∈ node.attributes,
    ∀ number ∈ attr.value.singles, number.isFinite = true

theorem Body.SinglesFinite.of_carries {body : Body} (hfinite : body.SinglesFinite) {node : Node}
    (hnode : node ∈ body.nodes) {nested : Graph} (hcarries : node.Carries nested) :
    nested.body.SinglesFinite :=
  fun scope hscope => hfinite scope (.of_carries hnode hcarries hscope)

theorem Body.singlesFinite_of_scopes {body : Body}
    (hscopes : ∀ scope ∈ body.scopes, ∀ node ∈ scope.nodes, ∀ attr ∈ node.attributes,
      ∀ number ∈ attr.value.singles, number.isFinite = true) :
    body.SinglesFinite :=
  fun scope hscope => hscopes scope hscope.mem_scopes

theorem Json.Finite.of_member? {members : List (String × Json)} (hfinite : (object members).Finite)
    (name : String) {value : Json} (hvalue : (object members).member? name = some value) :
    value.Finite :=
  finite_object.mp hfinite _ (Body.mem_of_lookup hvalue)

/-- The payload of an attribute value is as finite as the whole. -/
theorem Json.Finite.of_tagged {word : String} {json : Json}
    (hfinite : (taggedJson word json).Finite) : json.Finite :=
  hfinite.of_member? "value" rfl

theorem AttributeValue.singles_finite {value : AttributeValue} (hfinite : value.toJson.Finite) :
    ∀ number ∈ value.singles, number.isFinite = true := by
  cases value with
  | float value =>
      rw [AttributeValue.toJson] at hfinite
      exact List.forall_mem_singleton.mpr (Json.finite_single_iff.mp hfinite.of_tagged)
  | floats values =>
      rw [AttributeValue.toJson] at hfinite
      have hitems := Json.finite_array.mp hfinite.of_tagged
      exact fun number hnumber =>
        Json.finite_single_iff.mp (hitems _ (List.mem_map_of_mem hnumber))
  | _ => exact fun number hnumber => absurd hnumber List.not_mem_nil

theorem AttributeValue.subgraph_finite {value : AttributeValue} (hfinite : value.toJson.Finite)
    {nested : Graph} (hnested : nested ∈ value.subgraphs) : nested.toJson.Finite := by
  cases value with
  | graph graph =>
      obtain rfl := List.mem_singleton.mp hnested
      rw [AttributeValue.toJson] at hfinite
      exact hfinite.of_tagged
  | graphs graphs =>
      rw [AttributeValue.toJson, Decoder.graphsJson_eq] at hfinite
      exact Json.finite_array.mp hfinite.of_tagged _ (List.mem_map_of_mem hnested)
  | _ => cases hnested

theorem Node.value_finite {node : Node} (hfinite : node.toJson.Finite) :
    ∀ attr ∈ node.attributes, attr.value.toJson.Finite := by
  intro attr hattr
  cases node with | mk name opType domain inputs outputs attributes =>
  rw [Node.toJson, Decoder.attributesJson_eq] at hfinite
  have hitem : attr.toJson.Finite :=
    Json.finite_array.mp (hfinite.of_member? "attributes" rfl) _ (List.mem_map_of_mem hattr)
  cases attr with | mk name value =>
  rw [Attribute.toJson] at hitem
  exact hitem.of_member? "value" rfl

theorem Graph.node_finite {graph : Graph} (hfinite : graph.toJson.Finite) :
    ∀ node ∈ graph.nodes, node.toJson.Finite := by
  intro node hnode
  cases graph with | mk name nodes inputs outputs initializers sparseInitializers =>
  rw [Graph.toJson, Decoder.nodesJson_eq] at hfinite
  exact Json.finite_array.mp (hfinite.of_member? "nodes" rfl) _ (List.mem_map_of_mem hnode)

/-- If the nodes of a body are written without anything that is not finite, each single in its
scopes is finite. -/
theorem Body.singlesFinite_of_nodes {body : Body}
    (hfinite : ∀ node ∈ body.nodes, node.toJson.Finite) : body.SinglesFinite := by
  have hscopes : ∀ scope, body.HasScope scope → ∀ node ∈ scope.nodes, node.toJson.Finite := by
    intro scope hscope
    induction hscope with
    | root => exact hfinite
    | @nested outer node graph _ hnode hcarries ih =>
        obtain ⟨attr, hattr, hnested⟩ := hcarries
        exact Graph.node_finite
          (AttributeValue.subgraph_finite (Node.value_finite (ih node hnode) attr hattr) hnested)
  exact fun scope hscope node hnode attr hattr =>
    AttributeValue.singles_finite (Node.value_finite (hscopes scope hscope node hnode) attr hattr)

theorem Graph.singlesFinite {graph : Graph} (hfinite : graph.toJson.Finite) :
    graph.body.SinglesFinite :=
  Body.singlesFinite_of_nodes (Graph.node_finite hfinite)

theorem Function.singlesFinite {function : Function} (hfinite : function.toJson.Finite) :
    function.body.SinglesFinite := by
  refine Body.singlesFinite_of_nodes fun node hnode => ?_
  rw [Function.toJson, Decoder.nodesJson_eq] at hfinite
  exact Json.finite_array.mp (hfinite.of_member? "nodes" rfl) _ (List.mem_map_of_mem hnode)

end OpGraph
