import OpGraph.Proofs.Matching.Symmetry

/-!
What agreeing bodies reach. The search of two bodies in step, begun with what the right one seeks:
where the bodies agree, each such name is met together with one of the left body. So where the
partners are those of the nodes that the left body reaches, they are the nodes that the right one
reaches.
-/

namespace OpGraph

section Agreeing

variable {rule : GraphRule} {layers outer : List Layer} {layer : Layer} {name name' : String}

/-- Of two names that agree, the right one is not found in the innermost layer unless the left one is.
-/
theorem Agrees.left_origin?_eq_none (hagrees : Agrees (layer :: outer) name name')
    (hnone' : layer.right.origin? name' = none) : layer.left.origin? name = none := by
  rcases hagrees with ⟨_, hright, _⟩ | ⟨hleft, _, _⟩
  · rw [hnone'] at hright
    cases hright
  · exact hleft

/-- Of two names that agree, the left one is the output of a node whose partner has the right one as
this output. -/
theorem Agrees.exists_left_partner (hagrees : Agrees (layer :: outer) name name')
    {index' slot : Nat} (horigin' : layer.right.origin? name' = some (.output index' slot)) :
    ∃ index, layer.left.origin? name = some (.output index slot) ∧
      layer.partner? index = some index' := by
  rcases hagrees with ⟨hleft, hright, hmatch⟩ | ⟨_, hnone', _⟩
  · rw [horigin', Option.some.injEq] at hright
    subst hright
    cases hmatch with
    | output slot hpartner => exact ⟨_, hleft, hpartner⟩
  · rw [horigin'] at hnone'
    cases hnone'

theorem exists_left_getElem?_of_forall₂ {α β : Type} {related : α → β → Prop} {lefts : List α}
    {rights : List β} (hrelated : List.Forall₂ related lefts rights) {place : Nat} {right : β}
    (hright : rights[place]? = some right) : ∃ left, lefts[place]? = some left ∧ related left right :=
  exists_getElem?_of_forall₂ (List.Forall₂.flip hrelated) hright

theorem ValuesAgree.exists_left_subgraph {value value' : AttributeValue}
    (hagree : ValuesAgree rule layers value value') {place : Nat} {graph' : Graph}
    (hgraph' : value'.subgraphs[place]? = some graph') :
    ∃ graph, value.subgraphs[place]? = some graph := by
  rcases hagree with hsame | _ | ⟨hlength, _⟩
  · rw [hsame.symm.subgraphs_eq_nil] at hgraph'
    cases hgraph'
  · obtain ⟨hplace, _⟩ := List.getElem?_eq_some_iff.mp hgraph'
    obtain rfl : place = 0 := Nat.lt_one_iff.mp hplace
    exact ⟨_, rfl⟩
  · exact exists_getElem?_of_length_eq hlength.symm hgraph'

/-- Nodes that agree have, for each graph of the right one, a graph of the left one at its place. -/
theorem NodesAgree.exists_left_carryTogether {node node' : Node}
    (hagree : NodesAgree rule layers node node') {graph' : Graph} (hcarries : node'.Carries graph') :
    ∃ graph, node.CarryTogether node' graph graph' := by
  obtain ⟨attr', hattr', hgraph'⟩ := hcarries
  obtain ⟨_, _, _, hnames, hvalues⟩ := hagree
  obtain ⟨attr, hattr, hname⟩ :=
    List.mem_map.mp ((hnames attr'.name).mpr (List.mem_map_of_mem hattr'))
  obtain ⟨place, hplace'⟩ := List.mem_iff_getElem?.mp hgraph'
  obtain ⟨graph, hplace⟩ := (hvalues attr hattr attr' hattr' hname).exists_left_subgraph hplace'
  exact ⟨graph, attr, hattr, attr', hattr', hname, place, hplace, hplace'⟩

end Agreeing

namespace Body

variable {rule : GraphRule} {outer : List Layer} {left right : Body} {name name' : String}
  {partner? : Nat → Option Nat}

/-- Where two bodies agree, a node behind the right one of two names that are met together is the
partner of a node behind the left one, and agrees with it. -/
theorem SeekTogether.exists_left_node (htogether : SeekTogether left right name name')
    (hagree : BodiesAgree rule outer left right partner?) {index' slot : Nat} {node' : Node}
    (horigin' : right.origin? name' = some (.output index' slot))
    (hnode' : right.nodes[index']? = some node') :
    ∃ index node, left.origin? name = some (.output index slot) ∧ left.nodes[index]? = some node ∧
      NodesAgree rule (⟨left, right, partner?⟩ :: outer) node node' := by
  obtain ⟨index, horigin, hpartner⟩ := (htogether.agrees hagree).exists_left_partner horigin'
  obtain ⟨node, hnode⟩ := getElem?_of_origin? horigin
  exact ⟨index, node, horigin, hnode, hagree.nodes index index' node node' hpartner hnode hnode'⟩

/-- Where two bodies agree, each name that the right one seeks is met together with another one. -/
theorem Seeks.exists_left_together (hseeks : right.Seeks name')
    (hagree : BodiesAgree rule outer left right partner?) :
    ∃ name, SeekTogether left right name name' := by
  induction hseeks generalizing left outer partner? with
  | output houtput =>
      obtain ⟨place, hplace'⟩ := List.mem_iff_getElem?.mp houtput
      obtain ⟨name, hplace, _⟩ := exists_left_getElem?_of_forall₂ hagree.outputs hplace'
      exact ⟨name, .output hplace hplace'⟩
  | input _ horigin' hnode' hinput ih =>
      obtain ⟨used, htogether⟩ := ih hagree
      obtain ⟨_, _, horigin, hnode, hnodes⟩ := htogether.exists_left_node hagree horigin' hnode'
      obtain ⟨place, hplace'⟩ := List.mem_iff_getElem?.mp hinput
      obtain ⟨name, hplace, _⟩ := exists_left_getElem?_of_forall₂ hnodes.inputs hplace'
      exact ⟨name, .input htogether horigin hnode horigin' hnode' hplace hplace'⟩
  | captured _ horigin' hnode' hcarries _ hnone' ih ihGraph =>
      obtain ⟨used, htogether⟩ := ih hagree
      obtain ⟨_, _, horigin, hnode, hnodes⟩ := htogether.exists_left_node hagree horigin' hnode'
      obtain ⟨graph, hcarry⟩ := hnodes.exists_left_carryTogether hcarries
      obtain ⟨_, _, _, hinner⟩ := graphsAgree_iff.mp (hnodes.graphsAgree hcarry)
      obtain ⟨name, hnested⟩ := ihGraph hinner
      have hnone := (hnested.agrees hinner).left_origin?_eq_none hnone'
      exact ⟨name, .captured htogether horigin hnode horigin' hnode' hcarry hnested hnone hnone'⟩

/-- Where two bodies agree and the left one reaches just the nodes that have partners, the right one
reaches just the partners. -/
theorem reaches_iff_exists_partner (hagree : BodiesAgree rule outer left right partner?)
    (hreached : ∀ index, (∃ index', partner? index = some index') ↔ left.Reaches index)
    (hleft : left.UniqueScopes) (hright : right.UniqueScopes) (index' : Nat) :
    (∃ index, partner? index = some index') ↔ right.Reaches index' := by
  constructor
  · rintro ⟨index, hpartner⟩
    obtain ⟨name, slot, hseeks, horigin⟩ :=
      ((hreached index).mp ⟨index', hpartner⟩).exists_seeks hleft
    obtain ⟨name', htogether⟩ := hseeks.exists_together hagree
    obtain ⟨found, horigin', hfound⟩ := htogether.exists_partner hagree horigin
    rw [hpartner, Option.some.injEq] at hfound
    exact htogether.symm.seeks.reaches (hfound ▸ horigin')
  · intro hreaches
    obtain ⟨name', slot, hseeks, horigin'⟩ := hreaches.exists_seeks hright
    obtain ⟨name, htogether⟩ := hseeks.exists_left_together hagree
    obtain ⟨index, _, hpartner⟩ := (htogether.agrees hagree).exists_left_partner horigin'
    exact ⟨index, hpartner⟩

end Body

end OpGraph
