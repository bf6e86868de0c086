import OpGraph.Proofs.Matching.Rearrangement
import OpGraph.Proofs.Matching.Symmetry

/-!
Operands in which some lists are in another order: those of the attributes of a node, at any depth of
nesting, and that of the outputs of the operand. The nodes stay where they are and define what they
did, so a body uses and needs the same, and what agreed with it goes on to do so.
-/

namespace OpGraph

mutual

/-- Two graphs are the same but for the order of the attributes of their nodes. -/
inductive GraphReordered : Graph → Graph → Prop where
  | intro {left right : Graph} : right = { left with nodes := right.nodes } →
      left.nodes.length = right.nodes.length →
      (∀ (index : Nat) (node node' : Node), left.nodes[index]? = some node →
        right.nodes[index]? = some node' → NodeReordered node node') →
      GraphReordered left right

/-- Two nodes are the same but for the order of the attributes, their own and those of the nodes of
graphs that they carry. -/
inductive NodeReordered : Node → Node → Prop where
  | intro {left right : Node} (shuffled : List Attribute) :
      right = { left with attributes := right.attributes } → left.attributes.Perm shuffled →
      shuffled.length = right.attributes.length →
      (∀ (place : Nat) (attr attr' : Attribute), shuffled[place]? = some attr →
        right.attributes[place]? = some attr' → AttributeReordered attr attr') →
      NodeReordered left right

inductive AttributeReordered : Attribute → Attribute → Prop where
  | intro {left right : Attribute} : left.name = right.name →
      ValueReordered left.value right.value → AttributeReordered left right

inductive ValueReordered : AttributeValue → AttributeValue → Prop where
  | same (value : AttributeValue) : ValueReordered value value
  | graph {left right : Graph} : GraphReordered left right →
      ValueReordered (.graph left) (.graph right)
  | graphs {lefts rights : List Graph} : lefts.length = rights.length →
      (∀ (place : Nat) (left right : Graph), lefts[place]? = some left →
        rights[place]? = some right → GraphReordered left right) →
      ValueReordered (.graphs lefts) (.graphs rights)

end

/-- The attributes are put into another order, and one by one have the same name and graphs in
another order. -/
def AttributesReordered : List Attribute → List Attribute → Prop :=
  Relation.Comp List.Perm (List.Forall₂ AttributeReordered)

/-- Two bodies are the same but for the order of the outputs and of the attributes of nodes. -/
structure Body.Reordered (left right : Body) : Prop where
  nodes : List.Forall₂ NodeReordered left.nodes right.nodes
  inputs : left.inputs = right.inputs
  outputs : ∀ name, name ∈ left.outputs ↔ name ∈ right.outputs

/-- The operand with its outputs in the given order, and with attributes in another order. -/
structure Graph.ReorderedBy (order : Equiv.Perm Nat) (left right : Graph) : Prop where
  rest : right = { left with nodes := right.nodes, outputs := right.outputs }
  nodes : List.Forall₂ NodeReordered left.nodes right.nodes
  outputs : ∀ place, right.outputs[place]? = left.outputs[order place]?

structure Function.ReorderedBy (order : Equiv.Perm Nat) (left right : Function) : Prop where
  rest : right = { left with nodes := right.nodes, outputs := right.outputs }
  nodes : List.Forall₂ NodeReordered left.nodes right.nodes
  outputs : ∀ place, right.outputs[place]? = left.outputs[order place]?

section Parts

theorem nodeReordered_iff {left right : Node} :
    NodeReordered left right ↔ right = { left with attributes := right.attributes } ∧
      AttributesReordered left.attributes right.attributes := by
  constructor
  · rintro ⟨shuffled, hrest, hperm, hlength, hattributes⟩
    exact ⟨hrest, shuffled, hperm, forall₂_iff_getElem?.mpr ⟨hlength, hattributes⟩⟩
  · rintro ⟨hrest, shuffled, hperm, hattributes⟩
    obtain ⟨hlength, hattributes⟩ := forall₂_iff_getElem?.mp hattributes
    exact .intro shuffled hrest hperm hlength hattributes

theorem graphReordered_iff {left right : Graph} :
    GraphReordered left right ↔ right = { left with nodes := right.nodes } ∧
      List.Forall₂ NodeReordered left.nodes right.nodes := by
  rw [forall₂_iff_getElem?]
  constructor
  · rintro ⟨hrest, hlength, hnodes⟩
    exact ⟨hrest, hlength, hnodes⟩
  · rintro ⟨hrest, hlength, hnodes⟩
    exact .intro hrest hlength hnodes

/-- The attributes of a node may be put into any order. -/
theorem NodeReordered.of_perm (node : Node) {attributes : List Attribute}
    (hperm : node.attributes.Perm attributes) : NodeReordered node { node with attributes } :=
  nodeReordered_iff.mpr ⟨rfl, attributes, hperm,
    List.forall₂_same.mpr fun attr _ => .intro rfl (.same attr.value)⟩

theorem NodeReordered.refl (node : Node) : NodeReordered node node := by
  cases node
  exact .of_perm _ (.refl _)

theorem GraphReordered.refl (graph : Graph) : GraphReordered graph graph :=
  graphReordered_iff.mpr ⟨by cases graph; rfl, List.forall₂_same.mpr fun node _ => .refl node⟩

mutual

theorem GraphReordered.symm {left right : Graph} :
    GraphReordered left right → GraphReordered right left
  | .intro hrest hlength hnodes => by
      have hback : left = { right with nodes := left.nodes } := by
        cases left
        cases right
        cases hrest
        rfl
      refine .intro hback hlength.symm fun index node' node hnode' hnode => ?_
      exact NodeReordered.symm (hnodes index node node' hnode hnode')

theorem NodeReordered.symm {left right : Node} :
    NodeReordered left right → NodeReordered right left
  | .intro shuffled hrest hperm hlength hattributes => by
      have hback : left = { right with attributes := left.attributes } := by
        cases left
        cases right
        cases hrest
        rfl
      have hshuffled : List.Forall₂ AttributeReordered right.attributes shuffled :=
        forall₂_iff_getElem?.mpr ⟨hlength.symm, fun place attr' attr hattr' hattr =>
          AttributeReordered.symm (hattributes place attr attr' hattr hattr')⟩
      refine nodeReordered_iff.mpr ⟨hback, ?_⟩
      rw [AttributesReordered, ← List.forall₂_comp_perm_eq_perm_comp_forall₂]
      exact ⟨shuffled, hshuffled, hperm.symm⟩

theorem AttributeReordered.symm {left right : Attribute} :
    AttributeReordered left right → AttributeReordered right left
  | .intro hname hvalue => .intro hname.symm (ValueReordered.symm hvalue)

theorem ValueReordered.symm {left right : AttributeValue} :
    ValueReordered left right → ValueReordered right left
  | .same value => .same value
  | .graph hgraph => .graph (GraphReordered.symm hgraph)
  | .graphs hlength hgraphs => .graphs hlength.symm fun place right left hright hleft =>
      GraphReordered.symm (hgraphs place left right hleft hright)

end

variable {left right : Node}

theorem NodeReordered.rest (hnode : NodeReordered left right) :
    right = { left with attributes := right.attributes } :=
  (nodeReordered_iff.mp hnode).1

theorem GraphReordered.name {left right : Graph} (hgraph : GraphReordered left right) :
    left.name = right.name := by
  rw [(graphReordered_iff.mp hgraph).1]

theorem GraphReordered.inputs {left right : Graph} (hgraph : GraphReordered left right) :
    left.inputs = right.inputs := by
  rw [(graphReordered_iff.mp hgraph).1]

theorem GraphReordered.outputs {left right : Graph} (hgraph : GraphReordered left right) :
    left.outputs = right.outputs := by
  rw [(graphReordered_iff.mp hgraph).1]

theorem AttributeReordered.name {left right : Attribute} (hattr : AttributeReordered left right) :
    left.name = right.name := by
  cases hattr
  assumption

theorem NodeReordered.inputs (hnode : NodeReordered left right) : left.inputs = right.inputs := by
  rw [hnode.rest]

theorem NodeReordered.outputs (hnode : NodeReordered left right) : left.outputs = right.outputs := by
  rw [hnode.rest]

/-- Each attribute of the node comes from one in the other order. -/
theorem NodeReordered.exists_left (hnode : NodeReordered left right) {attr' : Attribute}
    (hattr' : attr' ∈ right.attributes) :
    ∃ attr ∈ left.attributes, attr.name = attr'.name ∧ ValueReordered attr.value attr'.value := by
  obtain ⟨_, shuffled, hperm, hattributes⟩ := nodeReordered_iff.mp hnode
  obtain ⟨hlength, hattributes⟩ := forall₂_iff_getElem?.mp hattributes
  obtain ⟨place, hplace'⟩ := List.mem_iff_getElem?.mp hattr'
  obtain ⟨attr, hplace⟩ := exists_getElem?_of_length_eq hlength.symm hplace'
  obtain ⟨hname, hvalue⟩ := hattributes place attr attr' hplace hplace'
  exact ⟨attr, hperm.mem_iff.mpr (List.mem_of_getElem? hplace), hname, hvalue⟩

theorem NodeReordered.mem_names (hnode : NodeReordered left right) {name : String} :
    name ∈ left.attributes.map Attribute.name ↔ name ∈ right.attributes.map Attribute.name := by
  simp only [List.mem_map]
  constructor
  · rintro ⟨attr, hattr, rfl⟩
    obtain ⟨attr', hattr', hname, _⟩ := hnode.symm.exists_left hattr
    exact ⟨attr', hattr', hname⟩
  · rintro ⟨attr', hattr', rfl⟩
    obtain ⟨attr, hattr, hname, _⟩ := hnode.exists_left hattr'
    exact ⟨attr, hattr, hname⟩

theorem ValueReordered.eq_of_subgraphs {value value' : AttributeValue}
    (hvalue : ValueReordered value value') (hgraphs : value.subgraphs = []) : value' = value := by
  cases hvalue with
  | same => rfl
  | graph hgraph => cases hgraphs
  | graphs hlength _ =>
      cases hgraphs
      rw [List.length_eq_zero_iff.mp hlength.symm]

theorem ValueReordered.exists_graph {graph : Graph} {value' : AttributeValue}
    (hvalue : ValueReordered (.graph graph) value') :
    ∃ graph', value' = .graph graph' ∧ GraphReordered graph graph' := by
  cases hvalue with
  | same => exact ⟨graph, rfl, .refl graph⟩
  | graph hgraph => exact ⟨_, rfl, hgraph⟩

theorem ValueReordered.exists_graphs {graphs : List Graph} {value' : AttributeValue}
    (hvalue : ValueReordered (.graphs graphs) value') :
    ∃ graphs', value' = .graphs graphs' ∧ List.Forall₂ GraphReordered graphs graphs' := by
  cases hvalue with
  | same => exact ⟨graphs, rfl, List.forall₂_same.mpr fun graph _ => .refl graph⟩
  | graphs hlength hgraphs => exact ⟨_, rfl, forall₂_iff_getElem?.mpr ⟨hlength, hgraphs⟩⟩

theorem ValueReordered.subgraphs {value value' : AttributeValue}
    (hvalue : ValueReordered value value') :
    List.Forall₂ GraphReordered value.subgraphs value'.subgraphs := by
  cases hvalue with
  | same => exact List.forall₂_same.mpr fun graph _ => .refl graph
  | graph hgraph => exact .cons hgraph .nil
  | graphs hlength hgraphs => exact forall₂_iff_getElem?.mpr ⟨hlength, hgraphs⟩

end Parts

section Bodies

variable {left right : Body} {name : String}

theorem GraphReordered.body {left right : Graph} (hgraph : GraphReordered left right) :
    left.body.Reordered right.body := by
  refine ⟨(graphReordered_iff.mp hgraph).2, hgraph.inputs, fun name => ?_⟩
  rw [Graph.body, Graph.body, hgraph.outputs]

/-- What the node carries in the other order comes from a graph that it carried. -/
theorem NodeReordered.exists_carried {node node' : Node} (hnode : NodeReordered node node')
    {graph' : Graph} (hcarries : node'.Carries graph') :
    ∃ graph, node.Carries graph ∧ GraphReordered graph graph' := by
  obtain ⟨attr', hattr', hgraph'⟩ := hcarries
  obtain ⟨attr, hattr, _, hvalue⟩ := hnode.exists_left hattr'
  obtain ⟨hlength, hgraphs⟩ := forall₂_iff_getElem?.mp hvalue.subgraphs
  obtain ⟨place, hplace'⟩ := List.mem_iff_getElem?.mp hgraph'
  obtain ⟨graph, hplace⟩ := exists_getElem?_of_length_eq hlength.symm hplace'
  exact ⟨graph, ⟨attr, hattr, List.mem_of_getElem? hplace⟩, hgraphs place _ _ hplace hplace'⟩

namespace Body.Reordered

theorem symm (hbody : left.Reordered right) : right.Reordered left where
  nodes := hbody.nodes.flip.imp fun _ _ => NodeReordered.symm
  inputs := hbody.inputs.symm
  outputs name := (hbody.outputs name).symm

theorem exists_node (hbody : left.Reordered right) {index : Nat} {node' : Node}
    (hnode' : right.nodes[index]? = some node') :
    ∃ node, left.nodes[index]? = some node ∧ NodeReordered node node' := by
  obtain ⟨hlength, hnodes⟩ := forall₂_iff_getElem?.mp hbody.nodes
  obtain ⟨node, hnode⟩ := exists_getElem?_of_length_eq hlength.symm hnode'
  exact ⟨node, hnode, hnodes index node node' hnode hnode'⟩

/-- The same names are defined at the same places. -/
theorem definitions (hbody : left.Reordered right) : left.definitions = right.definitions := by
  rw [Body.definitions, Body.definitions, hbody.inputs,
    flatMap_nodeDefinitions_congr (hbody.nodes.imp fun _ _ => NodeReordered.outputs)]

theorem definedNames (hbody : left.Reordered right) : left.definedNames = right.definedNames := by
  rw [definedNames_eq, definedNames_eq, hbody.definitions]

theorem origin? (hbody : left.Reordered right) (name : String) :
    left.origin? name = right.origin? name := by
  rw [Body.origin?, Body.origin?, hbody.definitions]

theorem defines (hbody : left.Reordered right) {origin : Origin}
    (hdefines : right.Defines name origin) : left.Defines name origin := by
  have hname := hdefines.name_ne_empty
  rw [← mem_definitions_iff_defines hname] at hdefines ⊢
  exact hbody.definitions ▸ hdefines

theorem lacks (hbody : left.Reordered right) (hlacks : right.Lacks name) : left.Lacks name :=
  fun origin hdefines => hlacks origin (hbody.symm.defines hdefines)

end Body.Reordered

/-- A node mentions no more names in another order. -/
theorem NodeReordered.mentions {node node' : Node} (hnode : NodeReordered node node')
    (hmentions : node'.Mentions name) : node.Mentions name := by
  induction hmentions generalizing node with
  | input hname => exact .input (hnode.inputs ▸ hname)
  | nestedOutput hcarries hname hlacks =>
      obtain ⟨graph, hcarries, hgraph⟩ := hnode.exists_carried hcarries
      exact .nestedOutput hcarries ((hgraph.body.outputs _).mpr hname) (hgraph.body.lacks hlacks)
  | nestedNode hcarries hinner _ hlacks ih =>
      obtain ⟨graph, hcarries, hgraph⟩ := hnode.exists_carried hcarries
      obtain ⟨index, hindex'⟩ := List.mem_iff_getElem?.mp hinner
      obtain ⟨inner, hindex, hinner⟩ := hgraph.body.exists_node hindex'
      exact .nestedNode hcarries (List.mem_of_getElem? hindex) (ih hinner)
        (hgraph.body.lacks hlacks)

namespace Body.Reordered

theorem dependsOn (hbody : left.Reordered right) {index other : Nat}
    (hdepends : right.DependsOn index other) : left.DependsOn index other := by
  obtain ⟨node', name, slot, hnode', hmentions, hdefines⟩ := hdepends
  obtain ⟨node, hnode, hreordered⟩ := hbody.exists_node hnode'
  exact ⟨node, name, slot, hnode, hreordered.mentions hmentions, hbody.defines hdefines⟩

theorem acyclic (hbody : left.Reordered right) (hacyclic : left.Acyclic) : right.Acyclic :=
  fun index hcycle => hacyclic index
    (Relation.TransGen.mono (fun _ _ => hbody.dependsOn) _ _ hcycle)

/-- Each scope in the other order comes from a scope. -/
theorem exists_scope (hbody : left.Reordered right) {scope' : Body}
    (hscope : right.HasScope scope') : ∃ scope, left.HasScope scope ∧ scope.Reordered scope' := by
  induction hscope with
  | root => exact ⟨left, .root, hbody⟩
  | nested _ hnode hcarries ih =>
      obtain ⟨scope, hscope, hinner⟩ := ih
      obtain ⟨index, hindex'⟩ := List.mem_iff_getElem?.mp hnode
      obtain ⟨node, hindex, hreordered⟩ := hinner.exists_node hindex'
      obtain ⟨graph, hcarries, hgraph⟩ := hreordered.exists_carried hcarries
      exact ⟨graph.body, .nested hscope (List.mem_of_getElem? hindex) hcarries, hgraph.body⟩

theorem acyclicScopes (hbody : left.Reordered right) (hacyclic : left.AcyclicScopes) :
    right.AcyclicScopes := by
  intro scope' hscope'
  obtain ⟨scope, hscope, hreordered⟩ := hbody.exists_scope hscope'
  exact hreordered.acyclic (hacyclic scope hscope)

/-- The outputs depend on no more names in another order. -/
theorem needs (hbody : left.Reordered right) (hneeds : right.Needs name) : left.Needs name := by
  induction hneeds generalizing left with
  | output hname => exact .output ((hbody.outputs _).mpr hname)
  | input _ hdefines hnode' hname ih =>
      obtain ⟨node, hnode, hreordered⟩ := hbody.exists_node hnode'
      exact .input (ih hbody) (hbody.defines hdefines) hnode (hreordered.inputs ▸ hname)
  | captured _ hdefines hnode' hcarries _ hlacks ih ihGraph =>
      obtain ⟨node, hnode, hreordered⟩ := hbody.exists_node hnode'
      obtain ⟨graph, hcarries, hgraph⟩ := hreordered.exists_carried hcarries
      exact .captured (ih hbody) (hbody.defines hdefines) hnode hcarries (ihGraph hgraph.body)
        (hgraph.body.lacks hlacks)

theorem reaches (hbody : left.Reordered right) {index : Nat} (hreaches : right.Reaches index) :
    left.Reaches index := by
  obtain ⟨name, slot, hneeds, hdefines⟩ := hreaches
  exact ⟨name, slot, hbody.needs hneeds, hbody.defines hdefines⟩

theorem reaches_iff (hbody : left.Reordered right) {index : Nat} :
    left.Reaches index ↔ right.Reaches index :=
  ⟨hbody.symm.reaches, hbody.reaches⟩

end Body.Reordered

end Bodies

section WellFormed

variable {around : Surroundings} {scope : List String}

/-- A body in another order is in order, if its nodes are. -/
theorem Body.Reordered.checkBody {left right : Body} (hbody : left.Reordered right)
    (hnodes : ∀ (index : Nat) (node node' : Node), left.nodes[index]? = some node →
      right.nodes[index]? = some node' → ∀ around : Surroundings, ∀ user,
        around.checkAttributes scope user [] node.attributes = .ok () →
          around.checkAttributes scope user [] node'.attributes = .ok ())
    (hcheck : around.checkBody scope left (fun inner => inner.checkNodes scope 0 left.nodes) =
      .ok ()) :
    around.checkBody scope right (fun inner => inner.checkNodes scope 0 right.nodes) = .ok () := by
  obtain ⟨hunique, hchecks, houtputs⟩ := Surroundings.checkBody_eq_ok_iff.mp hcheck
  rw [hbody.definedNames] at hchecks houtputs
  refine Surroundings.checkBody_eq_ok_iff.mpr ⟨?_, ?_, ?_⟩
  · rwa [UniqueNames, ← hbody.definedNames]
  · refine Surroundings.checkNodes_eq_ok_iff.mpr fun index node' hnode' => ?_
    obtain ⟨node, hnode, hreordered⟩ := hbody.exists_node hnode'
    obtain ⟨hinputs, hattributes⟩ := Surroundings.checkNodes_eq_ok_iff.mp hchecks index node hnode
    have hattributes' := hnodes index node node' hnode hnode' _ _ hattributes
    rw [hreordered.rest]
    exact ⟨hinputs, hattributes'⟩
  · exact fun name hname => houtputs name ((hbody.outputs name).mpr hname)

mutual

/-- A well-formed graph is so in another order. -/
theorem GraphReordered.checkGraph {around : Surroundings} {scope : List String}
    {left right : Graph} (hcheck : around.checkGraph scope left = .ok ()) :
    GraphReordered left right → around.checkGraph scope right = .ok ()
  | .intro hrest hlength hnodes => by
      have hbody := (GraphReordered.intro hrest hlength hnodes).body
      refine Surroundings.checkGraph_eq_ok_iff.mpr
        (hbody.checkBody ?_ (Surroundings.checkGraph_eq_ok_iff.mp hcheck))
      intro index node node' hnode hnode' inner user hattributes
      exact NodeReordered.checkAttributes hattributes (hnodes index node node' hnode hnode')

theorem NodeReordered.checkAttributes {around : Surroundings} {scope : List String}
    {user : ValueUser} {left right : Node}
    (hcheck : around.checkAttributes scope user [] left.attributes = .ok ()) :
    NodeReordered left right → around.checkAttributes scope user [] right.attributes = .ok ()
  | .intro shuffled hrest hperm hlength hattributes => by
      obtain ⟨hnodup, _, hchecks⟩ := Surroundings.checkAttributes_eq_ok_iff.mp hcheck
      have hnames : shuffled.map Attribute.name = right.attributes.map Attribute.name := by
        rw [← List.forall₂_eq_eq_eq, List.forall₂_map_left_iff, List.forall₂_map_right_iff]
        exact forall₂_iff_getElem?.mpr ⟨hlength, fun place attr attr' hattr hattr' =>
          (hattributes place attr attr' hattr hattr').name⟩
      refine Surroundings.checkAttributes_eq_ok_iff.mpr ⟨?_, by simp, ?_⟩
      · rw [← hnames]
        exact (hperm.map Attribute.name).nodup hnodup
      · intro attr' hattr'
        obtain ⟨place, hplace'⟩ := List.mem_iff_getElem?.mp hattr'
        obtain ⟨attr, hplace⟩ := exists_getElem?_of_length_eq hlength.symm hplace'
        exact AttributeReordered.checkValue
          (hchecks attr (hperm.mem_iff.mpr (List.mem_of_getElem? hplace)))
          (hattributes place attr attr' hplace hplace')

theorem AttributeReordered.checkValue {around : Surroundings} {scope : List String}
    {user : ValueUser} {left right : Attribute}
    (hcheck : around.checkValue scope user left.name left.value = .ok ()) :
    AttributeReordered left right → around.checkValue scope user right.name right.value = .ok ()
  | .intro hname hvalue => ValueReordered.checkValue (hname ▸ hcheck) hvalue

theorem ValueReordered.checkValue {around : Surroundings} {scope : List String}
    {user : ValueUser} {attrName : String} {left right : AttributeValue}
    (hcheck : around.checkValue scope user attrName left = .ok ()) :
    ValueReordered left right → around.checkValue scope user attrName right = .ok ()
  | .same _ => hcheck
  | .graph hgraph => by
      rw [Surroundings.checkValue] at hcheck ⊢
      rw [← hgraph.name]
      exact GraphReordered.checkGraph hcheck hgraph
  | .graphs hlength hgraphs => by
      rw [Surroundings.checkValue, Surroundings.checkGraphs_eq_ok_iff] at hcheck ⊢
      intro place graph' hplace'
      obtain ⟨graph, hplace⟩ := exists_getElem?_of_length_eq hlength.symm hplace'
      rw [← (hgraphs place graph graph' hplace hplace').name]
      exact GraphReordered.checkGraph (hcheck place graph hplace)
        (hgraphs place graph graph' hplace hplace')

end

theorem Body.Reordered.checkRoot {left right : Body} (hbody : left.Reordered right)
    (hcheck : around.checkBody scope left (fun inner => inner.checkNodes scope 0 left.nodes) =
      .ok ()) :
    around.checkBody scope right (fun inner => inner.checkNodes scope 0 right.nodes) = .ok () := by
  refine hbody.checkBody (fun index node node' hnode hnode' _ _ hattributes => ?_) hcheck
  exact ((forall₂_iff_getElem?.mp hbody.nodes).2 index node node' hnode hnode').checkAttributes
    hattributes

end WellFormed

section Operands

variable {order : Equiv.Perm Nat}

theorem mem_iff_of_order {lefts rights : List String}
    (houtputs : ∀ place, rights[place]? = lefts[order place]?) (name : String) :
    name ∈ lefts ↔ name ∈ rights := by
  rw [List.mem_iff_getElem?, List.mem_iff_getElem?]
  constructor
  · rintro ⟨place, hplace⟩
    exact ⟨order.symm place, by rw [houtputs, order.apply_symm_apply, hplace]⟩
  · rintro ⟨place, hplace⟩
    exact ⟨order place, (houtputs place).symm.trans hplace⟩

theorem Graph.ReorderedBy.body {left right : Graph} (hgraph : left.ReorderedBy order right) :
    left.body.Reordered right.body where
  nodes := hgraph.nodes
  inputs := by rw [hgraph.rest]; rfl
  outputs := mem_iff_of_order hgraph.outputs

theorem Function.ReorderedBy.body {left right : Function}
    (hfunction : left.ReorderedBy order right) : left.body.Reordered right.body where
  nodes := hfunction.nodes
  inputs := by rw [hfunction.rest]; rfl
  outputs := mem_iff_of_order hfunction.outputs

/-- A well-formed operand is so in another order. -/
theorem Graph.ReorderedBy.checkWellFormed {left right : Graph}
    (hgraph : left.ReorderedBy order right) (hcheck : left.checkWellFormed = .ok ()) :
    right.checkWellFormed = .ok () := by
  have hname : right.name = left.name := by rw [hgraph.rest]
  rw [Graph.checkWellFormed, Surroundings.checkGraph_eq_ok_iff] at hcheck ⊢
  rw [hname]
  exact hgraph.body.checkRoot hcheck

theorem Function.ReorderedBy.checkWellFormed {left right : Function}
    (hfunction : left.ReorderedBy order right) (hcheck : left.checkWellFormed = .ok ()) :
    right.checkWellFormed = .ok () := by
  have hname : right.name = left.name := by rw [hfunction.rest]
  have hparameters : right.parameters = left.parameters := by rw [hfunction.rest]
  have himports : right.opsetImports = left.opsetImports := by rw [hfunction.rest]
  rw [Function.checkWellFormed_eq_ok_iff] at hcheck ⊢
  rw [hname, hparameters, himports]
  exact ⟨hcheck.1, hfunction.body.checkRoot hcheck.2⟩

theorem Graph.ReorderedBy.symm {left right : Graph} (hgraph : left.ReorderedBy order right) :
    right.ReorderedBy order.symm left where
  rest := by
    cases left
    cases right
    cases hgraph.rest
    rfl
  nodes := hgraph.body.symm.nodes
  outputs place := by rw [hgraph.outputs, order.apply_symm_apply]

theorem Function.ReorderedBy.symm {left right : Function}
    (hfunction : left.ReorderedBy order right) : right.ReorderedBy order.symm left where
  rest := by
    rw [hfunction.rest]
  nodes := hfunction.body.symm.nodes
  outputs place := by rw [hfunction.outputs, order.apply_symm_apply]

end Operands

/-- Two bodies of one layer are each in another order, with the same partners. -/
structure Layer.Reordered (layer layer' : Layer) : Prop where
  left : layer.left.Reordered layer'.left
  right : layer.right.Reordered layer'.right
  partner : layer.partner? = layer'.partner?

/-- The order of attributes does not matter to the rule. -/
def GraphRule.Unordered (rule : GraphRule) : Prop :=
  ∀ left left' right right' partner?, GraphReordered left left' → GraphReordered right right' →
    rule left right partner? → rule left' right' partner?

section Agreement

variable {rule : GraphRule} {layers layers' : List Layer}

theorem Agrees.reordered {left right : String}
    (hlayers : List.Forall₂ Layer.Reordered layers layers') (hagrees : Agrees layers left right) :
    Agrees layers' left right := by
  induction hagrees generalizing layers' with
  | here hleft hright hmatch =>
      cases hlayers with
      | cons hlayer _ =>
          exact .here (hlayer.left.origin? _ ▸ hleft) (hlayer.right.origin? _ ▸ hright)
            (hlayer.partner ▸ hmatch)
  | outward hleft hright _ ih =>
      cases hlayers with
      | cons hlayer houter =>
          exact .outward (hlayer.left.origin? _ ▸ hleft) (hlayer.right.origin? _ ▸ hright)
            (ih houter)

mutual

theorem GraphsAgree.reordered {layers layers' : List Layer} {left left' right right' : Graph}
    (hrule : rule.Unordered) (hlayers : List.Forall₂ Layer.Reordered layers layers')
    (hleft : GraphReordered left left') (hright : GraphReordered right right') :
    GraphsAgree rule layers left right → GraphsAgree rule layers' left' right'
  | .intro partner? hinputs hgraphs houtputs hnodes => by
      have hinner : List.Forall₂ Layer.Reordered (⟨left.body, right.body, partner?⟩ :: layers)
          (⟨left'.body, right'.body, partner?⟩ :: layers') :=
        .cons ⟨hleft.body, hright.body, rfl⟩ hlayers
      refine .intro partner? ?_ (hrule _ _ _ _ _ hleft hright hgraphs) ?_ ?_
      · rw [← hleft.inputs, ← hright.inputs]
        exact hinputs
      · rw [← hleft.outputs, ← hright.outputs]
        exact houtputs.imp fun _ _ => Agrees.reordered hinner
      · intro index index' node node' hpartner hnode hnode'
        obtain ⟨old, hold, hreordered⟩ := hleft.body.exists_node hnode
        obtain ⟨old', hold', hreordered'⟩ := hright.body.exists_node hnode'
        exact NodesAgree.reordered hrule hinner hreordered hreordered'
          (hnodes index index' old old' hpartner hold hold')

/-- Nodes that agree go on to do so when attributes are put into another order, in them and around
them. -/
theorem NodesAgree.reordered {layers layers' : List Layer} {left left' right right' : Node}
    (hrule : rule.Unordered) (hlayers : List.Forall₂ Layer.Reordered layers layers')
    (hleft : NodeReordered left left') (hright : NodeReordered right right') :
    NodesAgree rule layers left right → NodesAgree rule layers' left' right'
  | .intro htype hdomain hinputs hnames hvalues => by
      refine .intro ?_ ?_ ?_ ?_ ?_
      · rw [hleft.rest, hright.rest]
        exact htype
      · rw [hleft.rest, hright.rest]
        exact hdomain
      · rw [← hleft.inputs, ← hright.inputs]
        exact hinputs.imp fun _ _ => Agrees.reordered hlayers
      · exact fun name => hleft.mem_names.symm.trans ((hnames name).trans hright.mem_names)
      · intro attr hattr attr' hattr' hname
        obtain ⟨old, hold, holdName, hreordered⟩ := hleft.exists_left hattr
        obtain ⟨old', hold', holdName', hreordered'⟩ := hright.exists_left hattr'
        exact ValuesAgree.reordered hrule hlayers hreordered hreordered'
          (hvalues old hold old' hold' (holdName.trans (hname.trans holdName'.symm)))

theorem ValuesAgree.reordered {layers layers' : List Layer}
    {left left' right right' : AttributeValue} (hrule : rule.Unordered)
    (hlayers : List.Forall₂ Layer.Reordered layers layers') (hleft : ValueReordered left left')
    (hright : ValueReordered right right') :
    ValuesAgree rule layers left right → ValuesAgree rule layers' left' right'
  | .plain hvalues => by
      rw [hleft.eq_of_subgraphs hvalues.subgraphs_eq_nil,
        hright.eq_of_subgraphs (AttributeValue.SamePlain.symm hvalues).subgraphs_eq_nil]
      exact .plain hvalues
  | .graph hgraph => by
      obtain ⟨graph, rfl, hreordered⟩ := hleft.exists_graph
      obtain ⟨graph', rfl, hreordered'⟩ := hright.exists_graph
      exact .graph (GraphsAgree.reordered hrule hlayers hreordered hreordered' hgraph)
  | .graphs hlength hgraphs => by
      obtain ⟨graphs, rfl, hreordered⟩ := hleft.exists_graphs
      obtain ⟨graphs', rfl, hreordered'⟩ := hright.exists_graphs
      obtain ⟨hcount, hreordered⟩ := forall₂_iff_getElem?.mp hreordered
      obtain ⟨hcount', hreordered'⟩ := forall₂_iff_getElem?.mp hreordered'
      refine .graphs (hcount.symm.trans (hlength.trans hcount')) ?_
      intro place left right hplace hplace'
      obtain ⟨old, hold⟩ := exists_getElem?_of_length_eq hcount.symm hplace
      obtain ⟨old', hold'⟩ := exists_getElem?_of_length_eq hcount'.symm hplace'
      exact GraphsAgree.reordered hrule hlayers (hreordered place old left hold hplace)
        (hreordered' place old' right hold' hplace') (hgraphs place old old' hold hold')

end

/-- Lists that correspond one by one go on to do so in any order that both are put into. -/
theorem forall₂_of_order {α β : Type} {same : α → β → Prop} {order : Equiv.Perm Nat}
    {lefts lefts' : List α} {rights rights' : List β} (hsame : List.Forall₂ same lefts rights)
    (hleft : ∀ place, lefts'[place]? = lefts[order place]?)
    (hright : ∀ place, rights'[place]? = rights[order place]?) :
    List.Forall₂ same lefts' rights' := by
  obtain ⟨hlength, hsame⟩ := forall₂_iff_getElem?.mp hsame
  refine forall₂_iff_getElem?.mpr ⟨?_, fun place left right hplace hplace' => ?_⟩
  · have hbound : ∀ place, lefts'.length ≤ place ↔ rights'.length ≤ place := fun place => by
      rw [← List.getElem?_eq_none_iff, ← List.getElem?_eq_none_iff, hleft, hright,
        List.getElem?_eq_none_iff, List.getElem?_eq_none_iff, hlength]
    exact le_antisymm ((hbound _).mpr le_rfl) ((hbound _).mp le_rfl)
  · exact hsame _ _ _ ((hleft place).symm.trans hplace) ((hright place).symm.trans hplace')

/-- Bodies that agree go on to do so when both have their outputs in one other order, and attributes
in any. -/
theorem BodiesAgree.reordered {left left' right right' : Body} {partner? : Nat → Option Nat}
    {order : Equiv.Perm Nat} (hrule : rule.Unordered) (hleft : left.Reordered left')
    (hright : right.Reordered right')
    (houtputs : ∀ place, left'.outputs[place]? = left.outputs[order place]?)
    (houtputs' : ∀ place, right'.outputs[place]? = right.outputs[order place]?)
    (hagree : BodiesAgree rule [] left right partner?) :
    BodiesAgree rule [] left' right' partner? := by
  have hlayers : List.Forall₂ Layer.Reordered [⟨left, right, partner?⟩]
      [⟨left', right', partner?⟩] := .cons ⟨hleft, hright, rfl⟩ .nil
  constructor
  · exact (forall₂_of_order hagree.outputs houtputs houtputs').imp fun _ _ => Agrees.reordered hlayers
  · intro index index' node node' hpartner hnode hnode'
    obtain ⟨old, hold, hreordered⟩ := hleft.exists_node hnode
    obtain ⟨old', hold', hreordered'⟩ := hright.exists_node hnode'
    exact (hagree.nodes index index' old old' hpartner hold hold').reordered hrule hlayers
      hreordered hreordered'

end Agreement

end OpGraph
