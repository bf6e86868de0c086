import OpGraph.Proofs.Matching.Isomorphism
import OpGraph.Proofs.Scoping.Seeking
import OpGraph.Proofs.Scoping.WellFormed

/-!
When a body agrees with itself, as a search sees it. Each node that the outputs depend on is its own
partner; the other nodes have none, for what they use may be lost to the search. What the outputs
lead to has to be found: in the body itself, or around it.
-/

namespace OpGraph

/-- No attribute of any scope holds what is never equal to itself, and no nested graph has
initializers. -/
structure Body.ComparableAttributes (root : Body) : Prop where
  values : ∀ scope, root.HasScope scope → ∀ node ∈ scope.nodes, ∀ attr ∈ node.attributes,
    attr.value.isOpaque = false ∧ attr.value.holdsNaN = false
  graphs : ∀ scope, root.HasScope scope → ∀ node ∈ scope.nodes, ∀ graph, node.Carries graph →
    graph.Bare

namespace Body

open Classical in
/-- The nodes that the body reaches, each one as its own partner. -/
noncomputable def selfPartner? (body : Body) (index : Nat) : Option Nat :=
  if body.Reaches index then some index else none

variable {body : Body} {index index' : Nat} {outer : List Layer}

theorem selfPartner?_eq_some_iff :
    body.selfPartner? index = some index' ↔ body.Reaches index ∧ index' = index := by
  rw [selfPartner?]
  split
  next hreaches => simp [hreaches, eq_comm]
  next hreaches => simp [hreaches]

theorem Reaches.lt_length (hreaches : body.Reaches index) : index < body.nodes.length := by
  obtain ⟨_, _, _, hdefines⟩ := hreaches
  exact hdefines.lt_length

theorem selfPartner?_in_range (hpartner : body.selfPartner? index = some index') :
    index < body.nodes.length ∧ index' < body.nodes.length := by
  obtain ⟨hreaches, rfl⟩ := selfPartner?_eq_some_iff.mp hpartner
  exact ⟨hreaches.lt_length, hreaches.lt_length⟩

theorem Comparable.attributes {root : Body} (hcomparable : root.Comparable) :
    root.ComparableAttributes where
  values := hcomparable.values
  graphs := hcomparable.graphs

theorem ComparableAttributes.of_carries {root : Body} (hcomparable : root.ComparableAttributes)
    {node : Node} {graph : Graph} (hnode : node ∈ root.nodes) (hcarries : node.Carries graph) :
    graph.body.ComparableAttributes where
  values scope hscope := hcomparable.values scope (.of_carries hnode hcarries hscope)
  graphs scope hscope := hcomparable.graphs scope (.of_carries hnode hcarries hscope)

/-- What a body seeks agrees with itself, if it does so around the body where this lacks it. -/
theorem Seeks.agrees_self {name : String} (hseeks : body.Seeks name)
    (houter : body.origin? name = none → Agrees outer name name) :
    Agrees (⟨body, body, body.selfPartner?⟩ :: outer) name name := by
  rcases horigin : body.origin? name with _ | slot | ⟨index, slot⟩
  · exact .outward horigin horigin (houter horigin)
  · exact .here horigin horigin (.input slot)
  · have hpartner := selfPartner?_eq_some_iff.mpr ⟨hseeks.reaches horigin, rfl⟩
    exact .here horigin horigin (.output slot hpartner)

end Body

/-- A node agrees with itself, if the names that it seeks and the graphs that it carries do. -/
theorem Node.nodesAgree_self {node : Node} {layers : List Layer}
    (hnodup : (node.attributes.map Attribute.name).Nodup)
    (hcompared : ∀ attr ∈ node.attributes,
      attr.value.isOpaque = false ∧ attr.value.holdsNaN = false)
    (hnames : ∀ name ∈ node.inputs, Agrees layers name name)
    (hgraphs : ∀ graph, node.Carries graph → GraphsAgree ConfirmableGraphs layers graph graph) :
    NodesAgree ConfirmableGraphs layers node node := by
  refine .intro rfl rfl (List.forall₂_same.mpr hnames) (fun name => Iff.rfl) ?_
  intro attr hattr attr' hattr' hname
  obtain rfl := List.inj_on_of_nodup_map hnodup hattr hattr' hname
  apply valuesAgree_self (hcompared attr hattr)
  exact fun graph hgraph => hgraphs graph ⟨attr, hattr, hgraph⟩

namespace Body

variable {body : Body} {outer : List Layer}

/-- A body agrees with itself, if what it seeks without having it does so around the body. -/
theorem bodiesAgree_self (hdistinct : body.Distinct) (hcomparable : body.ComparableAttributes)
    (houter : ∀ name, body.Seeks name → body.origin? name = none → Agrees outer name name) :
    BodiesAgree ConfirmableGraphs outer body body body.selfPartner? := by
  induction body using Body.nested_induction generalizing outer with
  | hstep body ih =>
      have hagrees : ∀ name, body.Seeks name →
          Agrees (⟨body, body, body.selfPartner?⟩ :: outer) name name :=
        fun name hseeks => hseeks.agrees_self (houter name hseeks)
      refine ⟨List.forall₂_same.mpr fun name hname => hagrees name (.output hname), ?_⟩
      intro index index' node node' hpartner hnode hnode'
      obtain ⟨hreaches, rfl⟩ := selfPartner?_eq_some_iff.mp hpartner
      rw [hnode, Option.some.injEq] at hnode'
      subst hnode'
      have hmem := List.mem_of_getElem? hnode
      -- the node is behind a name that is sought, so what it seeks is sought in turn
      obtain ⟨used, slot, hused, horigin⟩ := hreaches.exists_seeks hdistinct.names
      have hsought : ∀ name, node.Seeks name →
          Agrees (⟨body, body, body.selfPartner?⟩ :: outer) name name :=
        fun name hseeks => hagrees name (hused.of_node horigin hnode hseeks)
      apply Node.nodesAgree_self (hdistinct.attributes body .root node hmem)
        (hcomparable.values body .root node hmem)
      · exact fun name hname => hsought name (.input hname)
      intro graph hcarries
      have hbare := hcomparable.graphs body .root node hmem graph hcarries
      refine graphsAgree_iff.mpr ⟨rfl, graph.body.selfPartner?, ⟨hbare, hbare, ?_⟩, ?_⟩
      · exact fun index index' hpartner => selfPartner?_in_range hpartner
      · apply ih node hmem graph hcarries (hdistinct.of_carries hmem hcarries)
          (hcomparable.of_carries hmem hcarries)
        exact fun name hseeks hnone => hsought name (.captured hcarries hseeks hnone)

end Body

end OpGraph
