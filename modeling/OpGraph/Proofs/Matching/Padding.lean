import OpGraph.Proofs.Matching.Relation
import OpGraph.Proofs.Scoping.Nesting

/-!
Operands with further nodes, which nothing refers to. Nodes may stand behind those of any scope, at
any depth, and may use and carry whatever they like; the names that they define are written nowhere
in the operand. Where a written name comes from is not changed by them.
-/

namespace OpGraph

mutual

/-- A graph with further nodes behind its own, and with such graphs in its nodes. All names that the
further nodes define are among the added ones. -/
inductive GraphPadded (added : List String) : Graph → Graph → Prop where
  | intro {left right : Graph} (kept further : List Node) :
      right = { left with nodes := kept ++ further } → left.nodes.length = kept.length →
      (∀ (index : Nat) (node node' : Node), left.nodes[index]? = some node →
        kept[index]? = some node' → NodePadded added node node') →
      (∀ node ∈ further, ∀ name ∈ node.outputs, name ≠ "" → name ∈ added) →
      GraphPadded added left right

/-- A node with further nodes in the graphs that it carries. -/
inductive NodePadded (added : List String) : Node → Node → Prop where
  | intro {left right : Node} : right = { left with attributes := right.attributes } →
      left.attributes.length = right.attributes.length →
      (∀ (place : Nat) (attr attr' : Attribute), left.attributes[place]? = some attr →
        right.attributes[place]? = some attr' → AttributePadded added attr attr') →
      NodePadded added left right

inductive AttributePadded (added : List String) : Attribute → Attribute → Prop where
  | intro {left right : Attribute} : left.name = right.name →
      ValuePadded added left.value right.value → AttributePadded added left right

inductive ValuePadded (added : List String) : AttributeValue → AttributeValue → Prop where
  | same (value : AttributeValue) : ValuePadded added value value
  | graph {left right : Graph} : GraphPadded added left right →
      ValuePadded added (.graph left) (.graph right)
  | graphs {lefts rights : List Graph} : lefts.length = rights.length →
      (∀ (place : Nat) (left right : Graph), lefts[place]? = some left →
        rights[place]? = some right → GraphPadded added left right) →
      ValuePadded added (.graphs lefts) (.graphs rights)

end

namespace Body

/-- The names that are written in a body itself: the inputs and outputs of it and of its nodes. -/
def written (body : Body) : List String :=
  body.inputs ++ body.outputs ++ body.nodes.flatMap fun node => node.inputs ++ node.outputs

/-- The name is written in the body or in a graph nested in it. -/
def Writes (root : Body) (name : String) : Prop :=
  ∃ scope, root.HasScope scope ∧ name ∈ scope.written

end Body

/-- The graph with further nodes, here and in graphs nested in it, that define none but the added
names. None of these is written in the graph as it was. -/
structure Graph.PaddedBy (added : List String) (graph graph' : Graph) : Prop where
  padded : GraphPadded added graph graph'
  unwritten : ∀ name ∈ added, ¬ graph.body.Writes name

/-- The body with further nodes, here and in graphs nested in it. -/
structure Body.PaddedBy (added : List String) (body body' : Body) : Prop where
  inputs : body.inputs = body'.inputs
  outputs : body.outputs = body'.outputs
  nodes : ∃ kept further, body'.nodes = kept ++ further ∧
    List.Forall₂ (NodePadded added) body.nodes kept ∧
    ∀ node ∈ further, ∀ name ∈ node.outputs, name ≠ "" → name ∈ added
  unwritten : ∀ name ∈ added, ¬ body.Writes name

section Parts

variable {added : List String}

theorem nodePadded_iff {left right : Node} :
    NodePadded added left right ↔ right = { left with attributes := right.attributes } ∧
      List.Forall₂ (AttributePadded added) left.attributes right.attributes := by
  rw [forall₂_iff_getElem?]
  constructor
  · rintro ⟨hrest, hlength, hattributes⟩
    exact ⟨hrest, hlength, hattributes⟩
  · rintro ⟨hrest, hlength, hattributes⟩
    exact .intro hrest hlength hattributes

theorem graphPadded_iff {left right : Graph} :
    GraphPadded added left right ↔ ∃ kept further,
      right = { left with nodes := kept ++ further } ∧
        List.Forall₂ (NodePadded added) left.nodes kept ∧
        ∀ node ∈ further, ∀ name ∈ node.outputs, name ≠ "" → name ∈ added := by
  simp only [forall₂_iff_getElem?]
  constructor
  · rintro ⟨kept, further, hrest, hlength, hnodes, hfurther⟩
    exact ⟨kept, further, hrest, ⟨hlength, hnodes⟩, hfurther⟩
  · rintro ⟨kept, further, hrest, ⟨hlength, hnodes⟩, hfurther⟩
    exact .intro kept further hrest hlength hnodes hfurther

theorem NodePadded.refl (node : Node) : NodePadded added node node :=
  nodePadded_iff.mpr ⟨by cases node; rfl,
    List.forall₂_same.mpr fun attr _ => .intro rfl (.same attr.value)⟩

/-- Nodes may be added behind those of a graph. -/
theorem GraphPadded.of_append (graph : Graph) {further : List Node}
    (hfurther : ∀ node ∈ further, ∀ name ∈ node.outputs, name ≠ "" → name ∈ added) :
    GraphPadded added graph { graph with nodes := graph.nodes ++ further } :=
  graphPadded_iff.mpr ⟨graph.nodes, further, rfl, List.forall₂_same.mpr fun node _ => .refl node,
    hfurther⟩

/-- A graph may be left as it is. -/
theorem GraphPadded.refl (graph : Graph) : GraphPadded added graph graph := by
  have hpadded := @GraphPadded.of_append added graph [] (by simp)
  rw [List.append_nil] at hpadded
  cases graph
  exact hpadded

theorem Graph.paddedBy_self (graph : Graph) : graph.PaddedBy [] graph :=
  ⟨.refl graph, by simp⟩

theorem Graph.PaddedBy.body {graph graph' : Graph} (hgraph : graph.PaddedBy added graph') :
    graph.body.PaddedBy added graph'.body := by
  obtain ⟨kept, further, hrest, hnodes, hfurther⟩ := graphPadded_iff.mp hgraph.padded
  rw [hrest]
  exact ⟨rfl, rfl, ⟨kept, further, rfl, hnodes, hfurther⟩, hgraph.unwritten⟩

variable {left right : Node}

theorem NodePadded.rest (hnode : NodePadded added left right) :
    right = { left with attributes := right.attributes } :=
  (nodePadded_iff.mp hnode).1

theorem NodePadded.inputs (hnode : NodePadded added left right) : left.inputs = right.inputs := by
  rw [hnode.rest]

theorem NodePadded.outputs (hnode : NodePadded added left right) :
    left.outputs = right.outputs := by
  rw [hnode.rest]

end Parts

section Bodies

variable {added : List String} {body body' : Body} {name : String}

/-- What is written in a graph that a node carries is written in the whole. -/
theorem Body.Writes.of_carries {node : Node} {graph : Graph} (hnode : node ∈ body.nodes)
    (hcarries : node.Carries graph) (hwrites : graph.body.Writes name) : body.Writes name := by
  obtain ⟨scope, hscope, hwritten⟩ := hwrites
  exact ⟨scope, hscope.of_carries hnode hcarries, hwritten⟩

theorem Body.writes_of_mem_outputs (hname : name ∈ body.outputs) : body.Writes name :=
  ⟨body, .root, List.mem_append_left _ (List.mem_append_right _ hname)⟩

theorem Body.writes_of_mem_inputs {node : Node} (hnode : node ∈ body.nodes)
    (hname : name ∈ node.inputs) : body.Writes name :=
  ⟨body, .root, List.mem_append_right _
    (List.mem_flatMap.mpr ⟨node, hnode, List.mem_append_left _ hname⟩)⟩

namespace Body.PaddedBy

theorem exists_node (hbody : body.PaddedBy added body') {index : Nat} {node : Node}
    (hnode : body.nodes[index]? = some node) :
    ∃ node', body'.nodes[index]? = some node' ∧ NodePadded added node node' := by
  obtain ⟨kept, further, hnodes, hkept, _⟩ := hbody.nodes
  obtain ⟨hlength, hkept⟩ := forall₂_iff_getElem?.mp hkept
  obtain ⟨node', hnode'⟩ := exists_getElem?_of_length_eq hlength hnode
  refine ⟨node', ?_, hkept index node node' hnode hnode'⟩
  rw [hnodes, List.getElem?_append_left (List.getElem?_eq_some_iff.mp hnode').1, hnode']

/-- Other names than the added ones come from where they did. -/
theorem origin? (hbody : body.PaddedBy added body') (hname : name ∉ added) :
    body'.origin? name = body.origin? name := by
  obtain ⟨kept, further, hnodes, hkept, hfurther⟩ := hbody.nodes
  obtain ⟨rest, hdefinitions, hnames⟩ :=
    definitions_of_append hbody.inputs hnodes (hkept.imp fun _ _ => NodePadded.outputs)
  have hnone : rest.reverse.lookup name = none := by
    refine List.lookup_eq_none_iff.mpr fun definition hdefinition => bne_iff_ne.mpr ?_
    rintro rfl
    have hmem : definition.1 ∈ rest.map Prod.fst :=
      List.mem_map_of_mem (List.mem_reverse.mp hdefinition)
    rw [hnames, List.mem_filter, List.mem_flatMap] at hmem
    obtain ⟨⟨node, hnode, houtput⟩, hne⟩ := hmem
    exact hname (hfurther node hnode _ houtput (bne_iff_ne.mp hne))
  rw [Body.origin?, Body.origin?, hdefinitions, List.reverse_append, List.lookup_append, hnone,
    Option.none_or]

theorem notMem_of_mem_outputs (hbody : body.PaddedBy added body') (hname : name ∈ body.outputs) :
    name ∉ added :=
  fun hadded => hbody.unwritten name hadded (writes_of_mem_outputs hname)

theorem notMem_of_mem_inputs (hbody : body.PaddedBy added body') {node : Node}
    (hnode : node ∈ body.nodes) (hname : name ∈ node.inputs) : name ∉ added :=
  fun hadded => hbody.unwritten name hadded (writes_of_mem_inputs hnode hname)

end Body.PaddedBy

end Bodies

end OpGraph
