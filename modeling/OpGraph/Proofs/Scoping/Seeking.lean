import OpGraph.Proofs.Scoping.Ranks

/-!
What the outputs of a body depend on, as a search finds it. From what they need by definition this
differs for the empty name only: an input of a body may have it, and then the search finds this
input, where an omitted value is meant.
-/

namespace OpGraph

/-- The outputs of the body lead to the name: it is one of them, or it is used by the node that the
search finds behind such a name, or by a graph that this node carries. -/
inductive Body.Seeks : Body → String → Prop where
  | output {body : Body} {name : String} : name ∈ body.outputs → body.Seeks name
  | input {body : Body} {used name : String} {index slot : Nat} {node : Node} :
      body.Seeks used → body.origin? used = some (.output index slot) →
      body.nodes[index]? = some node → name ∈ node.inputs → body.Seeks name
  | captured {body : Body} {used name : String} {index slot : Nat} {node : Node} {graph : Graph} :
      body.Seeks used → body.origin? used = some (.output index slot) →
      body.nodes[index]? = some node → node.Carries graph → graph.body.Seeks name →
      graph.body.origin? name = none → body.Seeks name

/-- The node uses the name, or the outputs of a graph that it carries lead to it. -/
inductive Node.Seeks (node : Node) (name : String) : Prop where
  | input : name ∈ node.inputs → node.Seeks name
  | captured {graph : Graph} : node.Carries graph → graph.body.Seeks name →
      graph.body.origin? name = none → node.Seeks name

namespace Body

variable {body : Body} {name used : String} {index other slot : Nat} {node : Node}

theorem Seeks.of_node (hused : body.Seeks used)
    (horigin : body.origin? used = some (.output index slot))
    (hnode : body.nodes[index]? = some node) (hseeks : node.Seeks name) : body.Seeks name := by
  cases hseeks with
  | input hinput => exact .input hused horigin hnode hinput
  | captured hcarries hseeks hnone => exact .captured hused horigin hnode hcarries hseeks hnone

/-- What is sought is needed. -/
theorem Seeks.needs (hseeks : body.Seeks name) : body.Needs name := by
  induction hseeks with
  | output houtput => exact .output houtput
  | input _ horigin hnode hinput ih =>
      exact .input ih (defines_of_origin?_eq_output horigin) hnode hinput
  | captured _ horigin hnode hcarries _ hnone ih ihGraph =>
      exact .captured ih (defines_of_origin?_eq_output horigin) hnode hcarries ihGraph
        (lacks_of_origin?_eq_none hnone)

/-- What holds of the outputs, and goes over from a name to all that the node behind it uses, holds of
all sought names. -/
theorem Seeks.of_closed (holds : String → Prop) (houtputs : ∀ name ∈ body.outputs, holds name)
    (hnodes : ∀ ⦃used name : String⦄ ⦃index slot : Nat⦄ ⦃node : Node⦄, holds used →
      body.origin? used = some (.output index slot) → body.nodes[index]? = some node →
      node.Seeks name → holds name)
    (hseeks : body.Seeks name) : holds name := by
  induction hseeks with
  | output houtput => exact houtputs _ houtput
  | input _ horigin hnode hinput ih =>
      exact hnodes (ih houtputs hnodes) horigin hnode (.input hinput)
  | captured _ horigin hnode hcarries hseeks hnone ih _ =>
      exact hnodes (ih houtputs hnodes) horigin hnode (.captured hcarries hseeks hnone)

/-- Apart from the empty name, what is needed is sought, if no name is defined twice. -/
theorem Needs.seeks (hneeds : body.Needs name) (hunique : body.UniqueScopes) (hname : name ≠ "") :
    body.Seeks name := by
  induction hneeds with
  | output houtput => exact .output houtput
  | input _ hdefines hnode hinput ih =>
      exact .input (ih hunique hdefines.name_ne_empty)
        (hdefines.origin? (hunique _ .root)) hnode hinput
  | captured _ hdefines hnode hcarries _ hlacks ih ihGraph =>
      have hgraph := hunique.of_carries (List.mem_of_getElem? hnode) hcarries
      exact .captured (ih hunique hdefines.name_ne_empty)
        (hdefines.origin? (hunique _ .root)) hnode hcarries (ihGraph hgraph hname)
        (hlacks.origin?_eq_none fun hempty => absurd hempty hname)

/-- The outputs of a node that is reached are sought. -/
theorem Reaches.exists_seeks (hreaches : body.Reaches index) (hunique : body.UniqueScopes) :
    ∃ name slot, body.Seeks name ∧ body.origin? name = some (.output index slot) := by
  obtain ⟨name, slot, hneeds, hdefines⟩ := hreaches
  exact ⟨name, slot, hneeds.seeks hunique hdefines.name_ne_empty,
    hdefines.origin? (hunique _ .root)⟩

theorem Seeks.reaches (hseeks : body.Seeks name)
    (horigin : body.origin? name = some (.output index slot)) : body.Reaches index :=
  ⟨name, slot, hseeks.needs, defines_of_origin?_eq_output horigin⟩

theorem getElem?_of_origin? (horigin : body.origin? name = some (.output index slot)) :
    ∃ node, body.nodes[index]? = some node :=
  (defines_of_origin?_eq_output horigin).exists_node

end Body

theorem Node.Seeks.needs {node : Node} {name : String} (hseeks : node.Seeks name) :
    node.Needs name := by
  cases hseeks with
  | input hinput => exact .input hinput
  | captured hcarries hseeks hnone =>
      exact .captured hcarries hseeks.needs (Body.lacks_of_origin?_eq_none hnone)

namespace Body

variable {body : Body} {motive : String → Prop}

/-- What holds of a sought name once it holds of all that the node behind it leads to, holds of all
sought names, if no node depends on itself. -/
theorem seeks_induction (hacyclic : body.Acyclic)
    (hnone : ∀ name, body.Seeks name → body.origin? name = none → motive name)
    (hinput : ∀ name slot, body.origin? name = some (.input slot) → motive name)
    (houtput : ∀ name index slot node, body.Seeks name →
      body.origin? name = some (.output index slot) → body.nodes[index]? = some node →
      (∀ used, node.Seeks used → motive used) → motive name)
    {name : String} (hseeks : body.Seeks name) : motive name := by
  -- by the rank of the node behind the name
  have hranked : ∀ bound name, body.Seeks name →
      (∀ index slot, body.origin? name = some (.output index slot) → body.rank index < bound) →
      motive name := by
    intro bound
    induction bound with
    | zero =>
        intro name hseeks hrank
        rcases horigin : body.origin? name with _ | slot | ⟨index, slot⟩
        · exact hnone name hseeks horigin
        · exact hinput name slot horigin
        · exact absurd (hrank index slot horigin) (Nat.not_lt_zero _)
    | succ bound ih =>
        intro name hseeks hrank
        rcases horigin : body.origin? name with _ | slot | ⟨index, slot⟩
        · exact hnone name hseeks horigin
        · exact hinput name slot horigin
        · obtain ⟨node, hnode⟩ := getElem?_of_origin? horigin
          refine houtput name index slot node hseeks horigin hnode fun used hused => ?_
          refine ih used (hseeks.of_node horigin hnode hused) fun other place hother => ?_
          have hdepends : body.DependsOn index other :=
            ⟨node, used, place, hnode, hused.needs.mentions, defines_of_origin?_eq_output hother⟩
          have hlt := hdepends.rank_lt hacyclic
          have hbound := hrank index slot horigin
          omega
  apply hranked body.nodes.length name hseeks
  intro index slot horigin
  exact rank_lt_length hacyclic (defines_of_origin?_eq_output horigin).lt_length

end Body

end OpGraph
