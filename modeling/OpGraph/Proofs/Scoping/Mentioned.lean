import OpGraph.Proofs.Scoping.Nesting

/-!
Scopes and mentioned names, listed. A body whose nodes stand behind those that they depend on has no
cyclic dependencies, and this can be checked scope by scope.
-/

namespace OpGraph

mutual

/-- The bodies of a graph and of the graphs nested in it. -/
def Graph.scopes : Graph → List Body
  | ⟨_, nodes, inputs, outputs, _, _⟩ => ⟨nodes, inputs, outputs⟩ :: scopesOfNodes nodes

def scopesOfNodes : List Node → List Body
  | [] => []
  | ⟨_, _, _, _, _, attributes⟩ :: nodes => scopesOfAttributes attributes ++ scopesOfNodes nodes

def scopesOfAttributes : List Attribute → List Body
  | [] => []
  | ⟨_, value⟩ :: rest => scopesOfValue value ++ scopesOfAttributes rest

def scopesOfValue : AttributeValue → List Body
  | .graph graph => graph.scopes
  | .graphs graphs => scopesOfGraphs graphs
  | _ => []

def scopesOfGraphs : List Graph → List Body
  | [] => []
  | graph :: graphs => graph.scopes ++ scopesOfGraphs graphs

end

mutual

/-- The names that a graph uses from outside. -/
def Graph.captured : Graph → List String
  | ⟨_, nodes, inputs, outputs, _, _⟩ =>
      (outputs ++ mentionedByNodes nodes).filter fun name =>
        !(Body.definedNames ⟨nodes, inputs, outputs⟩).contains name

def mentionedByNodes : List Node → List String
  | [] => []
  | ⟨_, _, _, inputs, _, attributes⟩ :: nodes =>
      inputs ++ capturedByAttributes attributes ++ mentionedByNodes nodes

def capturedByAttributes : List Attribute → List String
  | [] => []
  | ⟨_, value⟩ :: rest => capturedByValue value ++ capturedByAttributes rest

def capturedByValue : AttributeValue → List String
  | .graph graph => graph.captured
  | .graphs graphs => capturedByGraphs graphs
  | _ => []

def capturedByGraphs : List Graph → List String
  | [] => []
  | graph :: graphs => graph.captured ++ capturedByGraphs graphs

end

/-- The names that a node, or a graph that it carries, uses. -/
def Node.mentioned (node : Node) : List String :=
  node.inputs ++ capturedByAttributes node.attributes

namespace Body

/-- The body and those of the graphs nested in it. -/
def scopes (body : Body) : List Body := body :: scopesOfNodes body.nodes

/-- Whether no node mentions an output of its own or of a node behind it. -/
def inOrder (body : Body) : Bool :=
  body.nodes.zipIdx.all fun (node, index) =>
    node.mentioned.all fun name => !((body.nodes.drop index).flatMap Node.outputs).contains name

end Body

section Listed

variable {name : String} {graph : Graph}

theorem capturedByGraphs_eq (graphs : List Graph) :
    capturedByGraphs graphs = graphs.flatMap Graph.captured := by
  induction graphs with
  | nil => rfl
  | cons graph rest ih => rw [capturedByGraphs, ih, List.flatMap_cons]

theorem capturedByValue_eq (value : AttributeValue) :
    capturedByValue value = value.subgraphs.flatMap Graph.captured := by
  cases value with
  | graph graph => simp [capturedByValue, AttributeValue.subgraphs]
  | graphs graphs => exact capturedByGraphs_eq graphs
  | _ => rfl

theorem capturedByAttributes_eq (attributes : List Attribute) :
    capturedByAttributes attributes =
      attributes.flatMap fun attr => attr.value.subgraphs.flatMap Graph.captured := by
  induction attributes with
  | nil => rfl
  | cons attr rest ih =>
      cases attr with
      | mk _ value => rw [capturedByAttributes, ih, capturedByValue_eq, List.flatMap_cons]

theorem mentionedByNodes_eq (nodes : List Node) :
    mentionedByNodes nodes = nodes.flatMap Node.mentioned := by
  induction nodes with
  | nil => rfl
  | cons node rest ih =>
      cases node with
      | mk _ _ _ inputs _ attributes => rw [mentionedByNodes, ih, List.flatMap_cons, Node.mentioned]

theorem mem_mentioned_of_carries {node : Node} (hcarries : node.Carries graph)
    (hcaptured : name ∈ graph.captured) : name ∈ node.mentioned := by
  obtain ⟨attr, hattr, hgraph⟩ := hcarries
  rw [Node.mentioned, capturedByAttributes_eq, List.mem_append]
  exact Or.inr (List.mem_flatMap.mpr ⟨attr, hattr, List.mem_flatMap.mpr ⟨graph, hgraph, hcaptured⟩⟩)

theorem mem_captured (hname : name ∈ graph.outputs ∨ name ∈ mentionedByNodes graph.nodes)
    (hlacks : graph.body.Lacks name) : name ∈ graph.captured := by
  have hfree := Body.notMem_definedNames_of_lacks hlacks
  cases graph with
  | mk _ nodes inputs outputs _ _ =>
      rw [Graph.captured, List.mem_filter, List.mem_append]
      exact ⟨hname, by simpa [Graph.body] using hfree⟩

/-- What a node mentions is listed. -/
theorem Node.Mentions.mem_mentioned {node : Node} (hmentions : node.Mentions name) :
    name ∈ node.mentioned := by
  induction hmentions with
  | input hinput => exact List.mem_append_left _ hinput
  | nestedOutput hcarries houtput hlacks =>
      exact mem_mentioned_of_carries hcarries (mem_captured (Or.inl houtput) hlacks)
  | @nestedNode node inner graph name hcarries hinner _ hlacks ih =>
      have hnodes : name ∈ mentionedByNodes graph.nodes := by
        rw [mentionedByNodes_eq]
        exact List.mem_flatMap.mpr ⟨_, hinner, ih⟩
      exact mem_mentioned_of_carries hcarries (mem_captured (Or.inr hnodes) hlacks)

theorem scopesOfGraphs_eq (graphs : List Graph) :
    scopesOfGraphs graphs = graphs.flatMap Graph.scopes := by
  induction graphs with
  | nil => rfl
  | cons graph rest ih => rw [scopesOfGraphs, ih, List.flatMap_cons]

theorem scopesOfValue_eq (value : AttributeValue) :
    scopesOfValue value = value.subgraphs.flatMap Graph.scopes := by
  cases value with
  | graph graph => simp [scopesOfValue, AttributeValue.subgraphs]
  | graphs graphs => exact scopesOfGraphs_eq graphs
  | _ => rfl

theorem scopesOfAttributes_eq (attributes : List Attribute) :
    scopesOfAttributes attributes =
      attributes.flatMap fun attr => attr.value.subgraphs.flatMap Graph.scopes := by
  induction attributes with
  | nil => rfl
  | cons attr rest ih =>
      cases attr with
      | mk _ value => rw [scopesOfAttributes, ih, scopesOfValue_eq, List.flatMap_cons]

theorem scopesOfNodes_eq (nodes : List Node) :
    scopesOfNodes nodes = nodes.flatMap fun node =>
      node.attributes.flatMap fun attr => attr.value.subgraphs.flatMap Graph.scopes := by
  induction nodes with
  | nil => rfl
  | cons node rest ih =>
      cases node with
      | mk _ _ _ _ _ attributes =>
          rw [scopesOfNodes, ih, scopesOfAttributes_eq, List.flatMap_cons]

theorem subset_scopesOfNodes {nodes : List Node} {node : Node} (hnode : node ∈ nodes)
    (hcarries : node.Carries graph) : graph.scopes ⊆ scopesOfNodes nodes := by
  obtain ⟨attr, hattr, hgraph⟩ := hcarries
  intro scope hscope
  rw [scopesOfNodes_eq]
  exact List.mem_flatMap.mpr ⟨node, hnode, List.mem_flatMap.mpr ⟨attr, hattr,
    List.mem_flatMap.mpr ⟨graph, hgraph, hscope⟩⟩⟩

theorem Graph.scopes_eq (graph : Graph) : graph.scopes = graph.body.scopes := by
  cases graph with
  | mk _ _ _ _ _ _ => rw [scopes, body, Body.scopes]

namespace Body

variable {root scope : Body}

/-- What is nested in a scope is nested in the whole. -/
theorem HasScope.scopes_subset (hscope : root.HasScope scope) : scope.scopes ⊆ root.scopes := by
  induction hscope with
  | root => exact List.Subset.refl _
  | @nested body node graph _ hnode hcarries ih =>
      rw [← Graph.scopes_eq]
      refine List.Subset.trans ?_ ih
      exact List.Subset.trans (subset_scopesOfNodes hnode hcarries) (List.subset_cons_self _ _)

theorem HasScope.mem_scopes (hscope : root.HasScope scope) : scope ∈ root.scopes :=
  hscope.scopes_subset List.mem_cons_self

/-- In order, a node depends on nodes before it. -/
theorem DependsOn.lt_of_inOrder {body : Body} (horder : body.inOrder = true) {index other : Nat}
    (hdepends : body.DependsOn index other) : other < index := by
  obtain ⟨node, name, slot, hnode, hmentions, hdefines⟩ := hdepends
  rw [inOrder, List.all_eq_true] at horder
  have hall := horder (node, index) (List.mem_zipIdx_iff_getElem?.mpr hnode)
  rw [List.all_eq_true] at hall
  have hname := hall name hmentions.mem_mentioned
  by_contra hle
  cases hdefines with
  | output _ hother hslot =>
      have hdrop : (body.nodes.drop index)[other - index]? = body.nodes[other]? := by
        rw [List.getElem?_drop]
        congr 1
        omega
      have hmem := List.mem_of_getElem? (hdrop.trans hother)
      have houtput : name ∈ (body.nodes.drop index).flatMap Node.outputs :=
        List.mem_flatMap.mpr ⟨_, hmem, List.mem_of_getElem? hslot⟩
      simp [houtput] at hname

theorem acyclic_of_inOrder {body : Body} (horder : body.inOrder = true) : body.Acyclic := by
  have hlt : ∀ {index other}, Relation.TransGen body.DependsOn index other → other < index := by
    intro index other hpath
    induction hpath with
    | single hdepends => exact hdepends.lt_of_inOrder horder
    | tail _ hdepends ih => exact Nat.lt_trans (hdepends.lt_of_inOrder horder) ih
  exact fun index hcycle => Nat.lt_irrefl index (hlt hcycle)

/-- Scopes in order have no cyclic dependencies. -/
theorem acyclicScopes_of_inOrder (horder : root.scopes.all inOrder = true) :
    root.AcyclicScopes := by
  intro scope hscope
  exact acyclic_of_inOrder (List.all_eq_true.mp horder scope hscope.mem_scopes)

theorem namedInputs_of_scopes (hnamed : (root.scopes.all fun scope => !scope.inputs.contains "") =
    true) : root.NamedInputs := by
  intro scope hscope
  simpa using List.all_eq_true.mp hnamed scope hscope.mem_scopes

end Body

end Listed

end OpGraph
