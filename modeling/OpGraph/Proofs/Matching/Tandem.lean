import OpGraph.Proofs.Matching.Agreement
import OpGraph.Proofs.Scoping.Seeking

/-!
Two bodies searched in step: from outputs at the same place to inputs at the same place of the nodes
behind them, and into graphs at the same place of attributes of the same name. Where the bodies
agree, whatever the left one seeks is met together with a name of the right one, and the two agree.
So which nodes are partners is no matter of choice. The search is the same from either side.
-/

namespace OpGraph

/-- The two nodes have the graphs at the same place, in attributes of the same name. -/
def Node.CarryTogether (left right : Node) (graph graph' : Graph) : Prop :=
  ∃ attr ∈ left.attributes, ∃ attr' ∈ right.attributes, attr.name = attr'.name ∧
    ∃ place : Nat, attr.value.subgraphs[place]? = some graph ∧
      attr'.value.subgraphs[place]? = some graph'

/-- The outputs of two bodies lead to two names in the same way. -/
inductive Body.SeekTogether : Body → Body → String → String → Prop where
  | output {left right : Body} {name name' : String} {place : Nat} :
      left.outputs[place]? = some name → right.outputs[place]? = some name' →
      SeekTogether left right name name'
  | input {left right : Body} {used used' name name' : String} {index index' slot slot' : Nat}
      {node node' : Node} {place : Nat} : SeekTogether left right used used' →
      left.origin? used = some (.output index slot) → left.nodes[index]? = some node →
      right.origin? used' = some (.output index' slot') → right.nodes[index']? = some node' →
      node.inputs[place]? = some name → node'.inputs[place]? = some name' →
      SeekTogether left right name name'
  | captured {left right : Body} {used used' name name' : String} {index index' slot slot' : Nat}
      {node node' : Node} {graph graph' : Graph} : SeekTogether left right used used' →
      left.origin? used = some (.output index slot) → left.nodes[index]? = some node →
      right.origin? used' = some (.output index' slot') → right.nodes[index']? = some node' →
      node.CarryTogether node' graph graph' → SeekTogether graph.body graph'.body name name' →
      graph.body.origin? name = none → graph'.body.origin? name' = none →
      SeekTogether left right name name'

section Agreeing

variable {rule : GraphRule} {layers outer : List Layer} {layer : Layer} {name name' : String}

/-- If the innermost layer has one of two names that agree, it has the other one at the matching
place. -/
theorem Agrees.exists_origin (hagrees : Agrees (layer :: outer) name name') {origin : Origin}
    (horigin : layer.left.origin? name = some origin) :
    ∃ origin', layer.right.origin? name' = some origin' ∧
      OriginsMatch layer.partner? origin origin' := by
  rcases hagrees with ⟨hleft, hright, hmatch⟩ | ⟨hnone, _, _⟩
  · rw [horigin, Option.some.injEq] at hleft
    subst hleft
    exact ⟨_, hright, hmatch⟩
  · rw [horigin] at hnone
    cases hnone

/-- If the innermost layer does not have one of two names that agree, they do so further out. -/
theorem Agrees.of_origin?_eq_none (hagrees : Agrees (layer :: outer) name name')
    (hnone : layer.left.origin? name = none) :
    layer.right.origin? name' = none ∧ Agrees outer name name' := by
  rcases hagrees with ⟨hleft, _, _⟩ | ⟨_, hright, houter⟩
  · rw [hnone] at hleft
    cases hleft
  · exact ⟨hright, houter⟩

/-- Of two names that agree, outputs of nodes are the same output of partners. -/
theorem Agrees.exists_partner (hagrees : Agrees (layer :: outer) name name') {index slot : Nat}
    (horigin : layer.left.origin? name = some (.output index slot)) :
    ∃ index', layer.right.origin? name' = some (.output index' slot) ∧
      layer.partner? index = some index' := by
  obtain ⟨origin', horigin', hmatch⟩ := hagrees.exists_origin horigin
  cases hmatch with
  | output slot hpartner => exact ⟨_, horigin', hpartner⟩

theorem exists_getElem?_of_forall₂ {α β : Type} {related : α → β → Prop} {lefts : List α}
    {rights : List β} (hrelated : List.Forall₂ related lefts rights) {place : Nat} {left : α}
    (hleft : lefts[place]? = some left) :
    ∃ right, rights[place]? = some right ∧ related left right := by
  obtain ⟨hplace, rfl⟩ := List.getElem?_eq_some_iff.mp hleft
  have hplace' : place < rights.length := hrelated.length_eq ▸ hplace
  exact ⟨_, List.getElem?_eq_getElem hplace', hrelated.get hplace hplace'⟩

theorem ValuesAgree.exists_subgraph {value value' : AttributeValue}
    (hagree : ValuesAgree rule layers value value') {place : Nat} {graph : Graph}
    (hgraph : value.subgraphs[place]? = some graph) :
    ∃ graph', value'.subgraphs[place]? = some graph' ∧ GraphsAgree rule layers graph graph' := by
  rcases hagree with hsame | hheld | ⟨hlength, hheld⟩
  · rw [hsame.subgraphs_eq_nil] at hgraph
    cases hgraph
  · obtain ⟨hplace, rfl⟩ := List.getElem?_eq_some_iff.mp hgraph
    obtain rfl : place = 0 := Nat.lt_one_iff.mp hplace
    exact ⟨_, rfl, hheld⟩
  · obtain ⟨hplace, _⟩ := List.getElem?_eq_some_iff.mp hgraph
    have hgraph' := List.getElem?_eq_getElem (hlength ▸ hplace)
    exact ⟨_, hgraph', hheld place _ _ hgraph hgraph'⟩

/-- Nodes that agree have, for each graph of the left one, a graph of the right one at its place. -/
theorem NodesAgree.exists_carryTogether {node node' : Node}
    (hagree : NodesAgree rule layers node node') {graph : Graph} (hcarries : node.Carries graph) :
    ∃ graph', node.CarryTogether node' graph graph' := by
  obtain ⟨attr, hattr, hgraph⟩ := hcarries
  obtain ⟨_, _, _, hnames, hvalues⟩ := hagree
  obtain ⟨attr', hattr', hname⟩ :=
    List.mem_map.mp ((hnames attr.name).mp (List.mem_map_of_mem hattr))
  obtain ⟨place, hplace⟩ := List.mem_iff_getElem?.mp hgraph
  obtain ⟨graph', hplace', _⟩ :=
    (hvalues attr hattr attr' hattr' hname.symm).exists_subgraph hplace
  exact ⟨graph', attr, hattr, attr', hattr', hname.symm, place, hplace, hplace'⟩

/-- Graphs that two nodes have at the same place agree if the nodes do. -/
theorem NodesAgree.graphsAgree {node node' : Node} (hagree : NodesAgree rule layers node node')
    {graph graph' : Graph} (hcarry : node.CarryTogether node' graph graph') :
    GraphsAgree rule layers graph graph' := by
  obtain ⟨attr, hattr, attr', hattr', hname, place, hplace, hplace'⟩ := hcarry
  obtain ⟨_, _, _, _, hvalues⟩ := hagree
  obtain ⟨found, hfound, hgraphs⟩ := (hvalues attr hattr attr' hattr' hname).exists_subgraph hplace
  rw [hplace', Option.some.injEq] at hfound
  exact hfound ▸ hgraphs

theorem NodesAgree.inputs {node node' : Node} (hagree : NodesAgree rule layers node node') :
    List.Forall₂ (Agrees layers) node.inputs node'.inputs := by
  obtain ⟨_, _, hinputs, _, _⟩ := hagree
  exact hinputs

end Agreeing

theorem Node.CarryTogether.symm {node node' : Node} {graph graph' : Graph}
    (hcarry : node.CarryTogether node' graph graph') : node'.CarryTogether node graph' graph := by
  obtain ⟨attr, hattr, attr', hattr', hname, place, hplace, hplace'⟩ := hcarry
  exact ⟨attr', hattr', attr, hattr, hname.symm, place, hplace', hplace⟩

theorem Node.CarryTogether.carries {node node' : Node} {graph graph' : Graph}
    (hcarry : node.CarryTogether node' graph graph') : node.Carries graph := by
  obtain ⟨attr, hattr, _, _, _, place, hplace, _⟩ := hcarry
  exact ⟨attr, hattr, List.mem_of_getElem? hplace⟩

namespace Body

variable {rule : GraphRule} {outer : List Layer} {left right : Body} {name name' : String}
  {partner? : Nat → Option Nat}

theorem SeekTogether.symm (htogether : SeekTogether left right name name') :
    SeekTogether right left name' name := by
  induction htogether with
  | output hname hname' => exact .output hname' hname
  | input _ horigin hnode horigin' hnode' hname hname' ih =>
      exact .input ih horigin' hnode' horigin hnode hname' hname
  | captured _ horigin hnode horigin' hnode' hcarry _ hnone hnone' ih ihGraph =>
      exact .captured ih horigin' hnode' horigin hnode hcarry.symm ihGraph hnone' hnone

/-- The left one of two names that are met together is sought. -/
theorem SeekTogether.seeks (htogether : SeekTogether left right name name') : left.Seeks name := by
  induction htogether with
  | output hname _ => exact .output (List.mem_of_getElem? hname)
  | input _ horigin hnode _ _ hname _ ih =>
      exact .input ih horigin hnode (List.mem_of_getElem? hname)
  | captured _ horigin hnode _ _ hcarry _ hnone _ ih ihGraph =>
      exact .captured ih horigin hnode hcarry.carries ihGraph hnone

/-- The nodes behind two names that are met together agree. -/
theorem nodesAgree_of_behind (hagree : BodiesAgree rule outer left right partner?)
    (hagrees : Agrees (⟨left, right, partner?⟩ :: outer) name name') {index index' slot slot' : Nat}
    {node node' : Node} (horigin : left.origin? name = some (.output index slot))
    (hnode : left.nodes[index]? = some node)
    (horigin' : right.origin? name' = some (.output index' slot'))
    (hnode' : right.nodes[index']? = some node') :
    NodesAgree rule (⟨left, right, partner?⟩ :: outer) node node' := by
  obtain ⟨found, hfound, hpartner⟩ := hagrees.exists_partner horigin
  rw [horigin', Option.some.injEq, Origin.output.injEq] at hfound
  obtain ⟨rfl, _⟩ := hfound
  exact hagree.nodes index index' node node' hpartner hnode hnode'

/-- Where two bodies agree, so do names that are met together. -/
theorem SeekTogether.agrees (htogether : SeekTogether left right name name')
    (hagree : BodiesAgree rule outer left right partner?) :
    Agrees (⟨left, right, partner?⟩ :: outer) name name' := by
  induction htogether generalizing outer partner? with
  | output hname hname' =>
      obtain ⟨found, hfound, hagrees⟩ := exists_getElem?_of_forall₂ hagree.outputs hname
      rw [hname', Option.some.injEq] at hfound
      exact hfound ▸ hagrees
  | input _ horigin hnode horigin' hnode' hname hname' ih =>
      have hnodes := nodesAgree_of_behind hagree (ih hagree) horigin hnode horigin' hnode'
      obtain ⟨found, hfound, hagrees⟩ := exists_getElem?_of_forall₂ hnodes.inputs hname
      rw [hname', Option.some.injEq] at hfound
      exact hfound ▸ hagrees
  | captured _ horigin hnode horigin' hnode' hcarry _ hnone _ ih ihGraph =>
      have hnodes := nodesAgree_of_behind hagree (ih hagree) horigin hnode horigin' hnode'
      obtain ⟨_, _, _, hinner⟩ := graphsAgree_iff.mp (hnodes.graphsAgree hcarry)
      exact ((ihGraph hinner).of_origin?_eq_none hnone).2

/-- Where two bodies agree, names that are met together are the same output of partners, if the left
one is an output of a node. -/
theorem SeekTogether.exists_partner (htogether : SeekTogether left right name name')
    (hagree : BodiesAgree rule outer left right partner?) {index slot : Nat}
    (horigin : left.origin? name = some (.output index slot)) :
    ∃ index', right.origin? name' = some (.output index' slot) ∧ partner? index = some index' :=
  (htogether.agrees hagree).exists_partner horigin

/-- Where two bodies agree, a node behind one of two names that are met together has a node that
agrees with it behind the other one. -/
theorem SeekTogether.exists_node (htogether : SeekTogether left right name name')
    (hagree : BodiesAgree rule outer left right partner?) {index slot : Nat} {node : Node}
    (horigin : left.origin? name = some (.output index slot))
    (hnode : left.nodes[index]? = some node) :
    ∃ index' node', right.origin? name' = some (.output index' slot) ∧
      right.nodes[index']? = some node' ∧
      NodesAgree rule (⟨left, right, partner?⟩ :: outer) node node' := by
  obtain ⟨index', horigin', hpartner⟩ := htogether.exists_partner hagree horigin
  obtain ⟨node', hnode'⟩ := getElem?_of_origin? horigin'
  exact ⟨index', node', horigin', hnode',
    hagree.nodes index index' node node' hpartner hnode hnode'⟩

/-- Where two bodies agree, each name that the left one seeks is met together with another one. -/
theorem Seeks.exists_together (hseeks : left.Seeks name)
    (hagree : BodiesAgree rule outer left right partner?) :
    ∃ name', SeekTogether left right name name' := by
  induction hseeks generalizing right outer partner? with
  | output houtput =>
      obtain ⟨place, hplace⟩ := List.mem_iff_getElem?.mp houtput
      obtain ⟨name', hplace', _⟩ := exists_getElem?_of_forall₂ hagree.outputs hplace
      exact ⟨name', .output hplace hplace'⟩
  | input _ horigin hnode hinput ih =>
      obtain ⟨used', htogether⟩ := ih hagree
      obtain ⟨_, _, horigin', hnode', hnodes⟩ := htogether.exists_node hagree horigin hnode
      obtain ⟨place, hplace⟩ := List.mem_iff_getElem?.mp hinput
      obtain ⟨name', hplace', _⟩ := exists_getElem?_of_forall₂ hnodes.inputs hplace
      exact ⟨name', .input htogether horigin hnode horigin' hnode' hplace hplace'⟩
  | captured _ horigin hnode hcarries _ hnone ih ihGraph =>
      obtain ⟨used', htogether⟩ := ih hagree
      obtain ⟨_, _, horigin', hnode', hnodes⟩ := htogether.exists_node hagree horigin hnode
      obtain ⟨graph', hcarry⟩ := hnodes.exists_carryTogether hcarries
      obtain ⟨_, _, _, hinner⟩ := graphsAgree_iff.mp (hnodes.graphsAgree hcarry)
      obtain ⟨name', hnested⟩ := ihGraph hinner
      obtain ⟨hnone', _⟩ := (hnested.agrees hinner).of_origin?_eq_none hnone
      exact ⟨name', .captured htogether horigin hnode horigin' hnode' hcarry hnested hnone hnone'⟩

/-- Where two bodies that stand by themselves agree, the left one has whatever it seeks. -/
theorem Seeks.exists_origin (hseeks : left.Seeks name)
    (hagree : BodiesAgree rule [] left right partner?) :
    ∃ origin, left.origin? name = some origin := by
  obtain ⟨name', htogether⟩ := hseeks.exists_together hagree
  cases horigin : left.origin? name with
  | some origin => exact ⟨origin, rfl⟩
  | none => cases ((htogether.agrees hagree).of_origin?_eq_none horigin).2

end Body

end OpGraph
