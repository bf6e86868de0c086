import OpGraph.Proofs.Scoping.Definitions
import Mathlib.Logic.Relation

/-!
Nested scopes and the dependencies between the nodes of one scope. A node depends on another one if
it uses an output of it, itself or from inside of a graph that it carries. A dependency counts as
needed if an output of the body depends on it: what only dead nodes of a nested graph use is not
needed.
-/

namespace OpGraph

/-- The node has the graph in one of its attributes. -/
def Node.Carries (node : Node) (graph : Graph) : Prop :=
  ∃ attr ∈ node.attributes, graph ∈ attr.value.subgraphs

/-- A scope of a body: the body itself, or that of a graph nested in it at any depth. -/
inductive Body.HasScope (root : Body) : Body → Prop where
  | root : root.HasScope root
  | nested {body : Body} {node : Node} {graph : Graph} : root.HasScope body →
      node ∈ body.nodes → node.Carries graph → root.HasScope graph.body

/-- The node, or a node of a graph nested in it, uses a name that is not defined further inside. -/
inductive Node.Mentions : Node → String → Prop where
  | input {node : Node} {name : String} : name ∈ node.inputs → node.Mentions name
  | nestedOutput {node : Node} {graph : Graph} {name : String} : node.Carries graph →
      name ∈ graph.outputs → graph.body.Lacks name → node.Mentions name
  | nestedNode {node inner : Node} {graph : Graph} {name : String} : node.Carries graph →
      inner ∈ graph.nodes → inner.Mentions name → graph.body.Lacks name → node.Mentions name

/-- The outputs of the body depend on the name: it is one of them, or it is used by the node that
defines such a name, or by a graph that this node carries. -/
inductive Body.Needs : Body → String → Prop where
  | output {body : Body} {name : String} : name ∈ body.outputs → body.Needs name
  | input {body : Body} {used name : String} {index slot : Nat} {node : Node} :
      body.Needs used → body.Defines used (.output index slot) →
      body.nodes[index]? = some node → name ∈ node.inputs → body.Needs name
  | captured {body : Body} {used name : String} {index slot : Nat} {node : Node} {graph : Graph} :
      body.Needs used → body.Defines used (.output index slot) →
      body.nodes[index]? = some node → node.Carries graph → graph.body.Needs name →
      graph.body.Lacks name → body.Needs name

/-- The node uses the name, or the outputs of a graph that it carries depend on it. -/
inductive Node.Needs (node : Node) (name : String) : Prop where
  | input : name ∈ node.inputs → node.Needs name
  | captured {graph : Graph} : node.Carries graph → graph.body.Needs name →
      graph.body.Lacks name → node.Needs name

namespace Body

/-- The name is one of the outputs, or a node mentions it. -/
def Uses (body : Body) (name : String) : Prop :=
  name ∈ body.outputs ∨ ∃ node ∈ body.nodes, node.Mentions name

/-- The body uses a name from around it. -/
structure Captures (body : Body) (name : String) : Prop where
  uses : body.Uses name
  lacks : body.Lacks name

/-- The outputs of the body depend on the node. -/
def Reaches (body : Body) (index : Nat) : Prop :=
  ∃ name slot, body.Needs name ∧ body.Defines name (.output index slot)

/-- A node of the body uses an output of another one, itself or from inside of a graph. -/
def DependsOn (body : Body) (index other : Nat) : Prop :=
  ∃ node name slot, body.nodes[index]? = some node ∧ node.Mentions name ∧
    body.Defines name (.output other slot)

/-- No node of the body depends on itself, directly or through others. -/
def Acyclic (body : Body) : Prop := ∀ index, ¬ Relation.TransGen body.DependsOn index index

/-- In every scope of the body the dependencies are acyclic. -/
def AcyclicScopes (body : Body) : Prop := ∀ scope, body.HasScope scope → scope.Acyclic

/-- In every scope of the body no name is defined twice. -/
def UniqueScopes (body : Body) : Prop := ∀ scope, body.HasScope scope → scope.UniqueNames

/-- In every scope of the body each input has a name. -/
def NamedInputs (body : Body) : Prop := ∀ scope, body.HasScope scope → "" ∉ scope.inputs

variable {body scope : Body} {name : String} {index : Nat}

/-- A scope of a nested scope is one of the whole. -/
theorem HasScope.trans {root : Body} (hbody : root.HasScope body) (hscope : body.HasScope scope) :
    root.HasScope scope := by
  induction hscope with
  | root => exact hbody
  | nested _ hnode hcarries ih => exact .nested ih hnode hcarries

section Carried

variable {root : Body} {node : Node} {graph : Graph}

/-- A scope of a graph that a node of the body carries is one of the body. -/
theorem HasScope.of_carries (hnode : node ∈ root.nodes) (hcarries : node.Carries graph)
    (hscope : graph.body.HasScope scope) : root.HasScope scope :=
  HasScope.trans (.nested .root hnode hcarries) hscope

theorem AcyclicScopes.of_carries (hacyclic : root.AcyclicScopes) (hnode : node ∈ root.nodes)
    (hcarries : node.Carries graph) : graph.body.AcyclicScopes :=
  fun scope hscope => hacyclic scope (.of_carries hnode hcarries hscope)

theorem UniqueScopes.of_carries (hunique : root.UniqueScopes) (hnode : node ∈ root.nodes)
    (hcarries : node.Carries graph) : graph.body.UniqueScopes :=
  fun scope hscope => hunique scope (.of_carries hnode hcarries hscope)

theorem NamedInputs.of_carries (hnamed : root.NamedInputs) (hnode : node ∈ root.nodes)
    (hcarries : node.Carries graph) : graph.body.NamedInputs :=
  fun scope hscope => hnamed scope (.of_carries hnode hcarries hscope)

end Carried

theorem Needs.of_node {used : String} {slot : Nat} {node : Node} (hused : body.Needs used)
    (hdefines : body.Defines used (.output index slot)) (hnode : body.nodes[index]? = some node)
    (hneeds : node.Needs name) : body.Needs name := by
  cases hneeds with
  | input hinput => exact .input hused hdefines hnode hinput
  | captured hcarries hneeds hlacks => exact .captured hused hdefines hnode hcarries hneeds hlacks

/-- What the body of a graph captures is mentioned by the node that carries the graph. -/
theorem Captures.mentions {graph : Graph} {node : Node} (hcaptures : graph.body.Captures name)
    (hcarries : node.Carries graph) : node.Mentions name := by
  rcases hcaptures.uses with houtput | ⟨inner, hinner, hmentions⟩
  · exact .nestedOutput hcarries houtput hcaptures.lacks
  · exact .nestedNode hcarries hinner hmentions hcaptures.lacks

/-- What a body needs it uses. -/
theorem Needs.uses (hneeds : body.Needs name) : body.Uses name := by
  induction hneeds with
  | output houtput => exact Or.inl houtput
  | input _ _ hnode hinput _ => exact Or.inr ⟨_, List.mem_of_getElem? hnode, .input hinput⟩
  | captured _ _ hnode hcarries _ hlacks _ ih =>
      exact Or.inr ⟨_, List.mem_of_getElem? hnode, Captures.mentions ⟨ih, hlacks⟩ hcarries⟩

end Body

/-- What a node needs it mentions. -/
theorem Node.Needs.mentions {node : Node} {name : String} (hneeds : node.Needs name) :
    node.Mentions name := by
  cases hneeds with
  | input hinput => exact .input hinput
  | captured hcarries hneeds hlacks => exact Body.Captures.mentions ⟨hneeds.uses, hlacks⟩ hcarries

/-- The nodes of the graphs that a node carries are smaller. -/
theorem Node.Carries.sizeOf_lt {node inner : Node} {graph : Graph} (hcarries : node.Carries graph)
    (hinner : inner ∈ graph.nodes) : sizeOf inner < sizeOf node := by
  obtain ⟨⟨name, value⟩, hattr, hgraph⟩ := hcarries
  have hinnerLt := List.sizeOf_lt_of_mem hinner
  have hattrLt := List.sizeOf_lt_of_mem hattr
  have hgraphLt : sizeOf graph < sizeOf value := by
    cases value with
    | graph held =>
        rw [List.mem_singleton.mp hgraph]
        simp
    | graphs held =>
        have hheldLt : sizeOf graph < sizeOf held := List.sizeOf_lt_of_mem hgraph
        simp only [AttributeValue.graphs.sizeOf_spec]
        omega
    | _ => cases hgraph
  cases node
  cases graph
  simp only [Graph.mk.sizeOf_spec, Attribute.mk.sizeOf_spec, Node.mk.sizeOf_spec] at *
  omega

/-- What holds of a node once it holds of all nodes of the graphs that it carries, holds of all. -/
theorem Node.carried_induction {motive : Node → Prop}
    (hstep : ∀ node, (∀ graph, node.Carries graph → ∀ inner ∈ graph.nodes, motive inner) →
      motive node) (node : Node) : motive node :=
  hstep node fun _ _ inner _ => carried_induction hstep inner
termination_by sizeOf node
decreasing_by exact Node.Carries.sizeOf_lt ‹_› ‹_›

/-- What holds of a body once it holds of the bodies of all graphs that its nodes carry, holds of
all. -/
theorem Body.nested_induction {motive : Body → Prop}
    (hstep : ∀ body, (∀ node ∈ body.nodes, ∀ graph, node.Carries graph → motive graph.body) →
      motive body) (body : Body) : motive body := by
  have hnode : ∀ node : Node, ∀ graph, node.Carries graph → motive graph.body := by
    apply Node.carried_induction
    intro node ih graph hcarries
    exact hstep graph.body fun inner hinner => ih graph hcarries inner hinner
  exact hstep body fun node _ => hnode node

end OpGraph
