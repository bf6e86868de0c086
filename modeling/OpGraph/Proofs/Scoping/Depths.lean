import OpGraph.Proofs.Scoping.Mentioned
import OpGraph.Proofs.Scoping.Seeking

/-!
How deep a search through nested bodies goes. A name leads to the node behind it, and from there
into the graphs that this node carries; a name that is captured leads out of a graph again, to a
node that may carry graphs as well. So the depth may exceed that of the nesting, unless what is
captured leads to no node that carries graphs. If no node depends on itself there is some bound.
-/

namespace OpGraph

/-- From the name, looked up in nested bodies of which the innermost comes first, the search enters
graphs at most so many levels deep. -/
inductive NestsWithin : Nat → List Body → String → Prop where
  | nowhere {levels : Nat} {name : String} : NestsWithin levels [] name
  | outward {levels : Nat} {body : Body} {outer : List Body} {name : String} :
      body.origin? name = none → NestsWithin levels outer name →
      NestsWithin levels (body :: outer) name
  | input {levels slot : Nat} {body : Body} {outer : List Body} {name : String} :
      body.origin? name = some (.input slot) → NestsWithin levels (body :: outer) name
  | plain {levels index slot : Nat} {body : Body} {outer : List Body} {name : String} {node : Node} :
      body.origin? name = some (.output index slot) → body.nodes[index]? = some node →
      (∀ graph, ¬ node.Carries graph) →
      (∀ used ∈ node.inputs, NestsWithin levels (body :: outer) used) →
      NestsWithin levels (body :: outer) name
  | carrying {levels index slot : Nat} {body : Body} {outer : List Body} {name : String}
      {node : Node} :
      body.origin? name = some (.output index slot) → body.nodes[index]? = some node →
      (∀ used ∈ node.inputs, NestsWithin (levels + 1) (body :: outer) used) →
      (∀ graph, node.Carries graph → ∀ used ∈ graph.outputs,
        NestsWithin levels (graph.body :: body :: outer) used) →
      NestsWithin (levels + 1) (body :: outer) name

/-- From the inputs of the node and from the graphs that it carries, the search enters graphs at most
so many levels deep, those graphs included. -/
structure Node.NestsWithin (levels : Nat) (bodies : List Body) (node : Node) : Prop where
  inputs : ∀ used ∈ node.inputs, OpGraph.NestsWithin levels bodies used
  graphs : ∀ graph, node.Carries graph → ∃ below, levels = below + 1 ∧
    ∀ used ∈ graph.outputs, OpGraph.NestsWithin below (graph.body :: bodies) used

namespace Body

/-- Graphs are nested inside each other at most so many levels deep. -/
def NestedAtMost : Nat → Body → Prop
  | 0, body => ∀ node ∈ body.nodes, ∀ graph, ¬ node.Carries graph
  | levels + 1, body => ∀ node ∈ body.nodes, ∀ graph, node.Carries graph →
      NestedAtMost levels graph.body

/-- The name leads to a node of the body that carries a graph. -/
inductive LeadsToGraph (body : Body) : String → Prop where
  | carried {index slot : Nat} {name : String} {node : Node} {graph : Graph} :
      body.origin? name = some (.output index slot) → body.nodes[index]? = some node →
      node.Carries graph → body.LeadsToGraph name
  | input {index slot : Nat} {name used : String} {node : Node} :
      body.origin? name = some (.output index slot) → body.nodes[index]? = some node →
      used ∈ node.inputs → body.LeadsToGraph used → body.LeadsToGraph name

/-- In every scope, what a nested graph captures leads to no node that carries a graph. -/
def PlainCaptures (root : Body) : Prop :=
  ∀ scope, root.HasScope scope → ∀ node ∈ scope.nodes, ∀ graph, node.Carries graph →
    ∀ name, graph.body.Seeks name → graph.body.origin? name = none → ¬ scope.LeadsToGraph name

end Body

section Nesting

variable {levels levels' index slot : Nat} {body : Body} {outer bodies : List Body} {name : String}
  {node : Node}

theorem NestsWithin.mono (hnests : NestsWithin levels bodies name) (hle : levels ≤ levels') :
    NestsWithin levels' bodies name := by
  induction hnests generalizing levels' with
  | nowhere => exact .nowhere
  | outward hnone _ ih => exact .outward hnone (ih hle)
  | input hinput => exact .input hinput
  | plain horigin hnode hplain _ ih =>
      exact .plain horigin hnode hplain fun used hused => ih used hused hle
  | carrying horigin hnode _ _ ihInputs ihGraphs =>
      obtain ⟨below, rfl⟩ := Nat.exists_eq_add_of_le' (Nat.le_trans (Nat.le_add_left 1 _) hle)
      refine .carrying horigin hnode (fun used hused => ihInputs used hused hle) ?_
      exact fun graph hcarries used hused => ihGraphs graph hcarries used hused (by omega)

/-- A name that the innermost body lacks is looked up further out. -/
theorem NestsWithin.of_outward (hnests : NestsWithin levels (body :: outer) name)
    (hnone : body.origin? name = none) : NestsWithin levels outer name := by
  cases hnests with
  | outward _ hrest => exact hrest
  | input horigin => simp [horigin] at hnone
  | plain horigin => simp [horigin] at hnone
  | carrying horigin => simp [horigin] at hnone

/-- Bodies that do not have a name are passed by. -/
theorem NestsWithin.of_skipped {skipped bodies : List Body}
    (hnests : NestsWithin levels (skipped ++ bodies) name)
    (hskipped : ∀ body ∈ skipped, body.origin? name = none) : NestsWithin levels bodies name := by
  induction skipped with
  | nil => exact hnests
  | cons body skipped ih =>
      have hrest := hnests.of_outward (hskipped body List.mem_cons_self)
      exact ih hrest fun other hother => hskipped other (List.mem_cons_of_mem _ hother)

/-- A name leads to the node behind it. -/
theorem NestsWithin.behind (hnests : NestsWithin levels (body :: outer) name)
    (horigin : body.origin? name = some (.output index slot))
    (hnode : body.nodes[index]? = some node) : node.NestsWithin levels (body :: outer) := by
  cases hnests with
  | outward hnone => simp [hnone] at horigin
  | input hinput => simp [hinput] at horigin
  | plain horigin' hnode' hplain hinputs =>
      obtain ⟨rfl, rfl⟩ : _ = index ∧ _ = slot := by simpa [horigin'] using horigin
      obtain rfl : _ = node := by simpa [hnode'] using hnode
      exact ⟨hinputs, fun graph hcarries => absurd hcarries (hplain graph)⟩
  | carrying horigin' hnode' hinputs hgraphs =>
      obtain ⟨rfl, rfl⟩ : _ = index ∧ _ = slot := by simpa [horigin'] using horigin
      obtain rfl : _ = node := by simpa [hnode'] using hnode
      exact ⟨hinputs, fun graph hcarries => ⟨_, rfl, hgraphs graph hcarries⟩⟩

/-- The search from an output of a node is that from the node. -/
theorem Node.NestsWithin.of_origin? (hnests : node.NestsWithin levels (body :: outer))
    (horigin : body.origin? name = some (.output index slot))
    (hnode : body.nodes[index]? = some node) :
    OpGraph.NestsWithin levels (body :: outer) name := by
  by_cases hcarried : ∃ graph, node.Carries graph
  · obtain ⟨graph, hcarries⟩ := hcarried
    obtain ⟨below, rfl, _⟩ := hnests.graphs graph hcarries
    refine .carrying horigin hnode hnests.inputs fun graph' hcarries' => ?_
    obtain ⟨below', heq, houtputs⟩ := hnests.graphs graph' hcarries'
    obtain rfl : below = below' := by omega
    exact houtputs
  · exact .plain horigin hnode (not_exists.mp hcarried) hnests.inputs

/-- What leads to no node that carries a graph never enters one. -/
theorem nestsWithin_zero (hacyclic : body.Acyclic)
    (houter : ∀ name, body.Seeks name → body.origin? name = none → NestsWithin 0 outer name)
    (hseeks : body.Seeks name) (hplain : ¬ body.LeadsToGraph name) :
    NestsWithin 0 (body :: outer) name := by
  revert hplain
  refine Body.seeks_induction hacyclic
    (motive := fun name => ¬ body.LeadsToGraph name → NestsWithin 0 (body :: outer) name)
    ?_ ?_ ?_ hseeks
  · intro name hseeks hnone _
    exact .outward hnone (houter name hseeks hnone)
  · intro name slot hinput _
    exact .input hinput
  · intro name index slot node _ horigin hnode ih hplain
    refine .plain horigin hnode ?_ ?_
    · exact fun graph hcarries => hplain (.carried horigin hnode hcarries)
    · exact fun used hused => ih used (.input hused) fun hleads =>
        hplain (.input horigin hnode hused hleads)

/-- If what is captured leads to no node that carries a graph, the search goes as deep as graphs are
nested. -/
theorem nestsWithin_of_nestedAtMost {root : Body} (hacyclic : root.AcyclicScopes)
    (hplain : root.PlainCaptures) (hscope : root.HasScope body) (hnested : body.NestedAtMost levels)
    (houter : ∀ name, body.Seeks name → body.origin? name = none → NestsWithin 0 outer name)
    (hseeks : body.Seeks name) : NestsWithin levels (body :: outer) name := by
  induction levels generalizing body outer name with
  | zero =>
      refine Body.seeks_induction (hacyclic body hscope) ?_ ?_ ?_ hseeks
      · exact fun name hseeks hnone => .outward hnone (houter name hseeks hnone)
      · exact fun name slot hinput => .input hinput
      · intro name index slot node _ horigin hnode ih
        exact .plain horigin hnode (hnested node (List.mem_of_getElem? hnode)) fun used hused =>
          ih used (.input hused)
  | succ levels ih =>
      refine Body.seeks_induction (hacyclic body hscope) ?_ ?_ ?_ hseeks
      · exact fun name hseeks hnone =>
          .outward hnone ((houter name hseeks hnone).mono (Nat.zero_le _))
      · exact fun name slot hinput => .input hinput
      · intro name index slot node hname horigin hnode ihNode
        have hmem := List.mem_of_getElem? hnode
        refine .carrying horigin hnode (fun used hused => ihNode used (.input hused)) ?_
        intro graph hcarries used hused
        refine ih (.nested hscope hmem hcarries) (hnested node hmem graph hcarries) ?_
          (.output hused)
        intro captured hcaptured hnone
        exact nestsWithin_zero (hacyclic body hscope) houter
          (.captured hname horigin hnode hcarries hcaptured hnone)
          (hplain body hscope node hmem graph hcarries captured hcaptured hnone)

/-- What holds of each item from some number on, holds of all items of a list from some number on.
-/
theorem exists_bound_of_forall {α : Type} {holds : Nat → α → Prop}
    (hmono : ∀ {bound bound' item}, bound ≤ bound' → holds bound item → holds bound' item)
    {items : List α} (hall : ∀ item ∈ items, ∃ bound, holds bound item) :
    ∃ bound, ∀ item ∈ items, holds bound item := by
  induction items with
  | nil => exact ⟨0, by simp⟩
  | cons head tail ih =>
      obtain ⟨bound, hhead⟩ := hall head List.mem_cons_self
      obtain ⟨bound', htail⟩ := ih fun item hitem => hall item (List.mem_cons_of_mem _ hitem)
      refine ⟨max bound bound', List.forall_mem_cons.mpr ⟨?_, fun item hitem => ?_⟩⟩
      · exact hmono (Nat.le_max_left _ _) hhead
      · exact hmono (Nat.le_max_right _ _) (htail item hitem)

/-- If the searches from a node all end, they do so within one bound. -/
theorem Node.exists_nestsWithin (node : Node) (bodies : List Body)
    (hinputs : ∀ used ∈ node.inputs, ∃ levels, OpGraph.NestsWithin levels bodies used)
    (hgraphs : ∀ graph, node.Carries graph → ∀ used ∈ graph.outputs,
      ∃ levels, OpGraph.NestsWithin levels (graph.body :: bodies) used) :
    ∃ levels, node.NestsWithin levels bodies := by
  obtain ⟨bound, hbound⟩ := exists_bound_of_forall (fun hle hnests => hnests.mono hle) hinputs
  have houtputs : ∀ graph ∈ node.attributes.flatMap fun attr => attr.value.subgraphs,
      ∃ levels, ∀ used ∈ graph.outputs, OpGraph.NestsWithin levels (graph.body :: bodies) used := by
    intro graph hgraph
    exact exists_bound_of_forall (fun hle hnests => hnests.mono hle)
      (hgraphs graph (List.mem_flatMap.mp hgraph))
  obtain ⟨below, hbelow⟩ := exists_bound_of_forall
    (fun hle hnests used hused => (hnests used hused).mono hle) houtputs
  refine ⟨max bound (below + 1), fun used hused => ?_, fun graph hcarries => ?_⟩
  · exact (hbound used hused).mono (Nat.le_max_left _ _)
  · refine ⟨max bound (below + 1) - 1, by omega, fun used hused => ?_⟩
    exact (hbelow graph (List.mem_flatMap.mpr hcarries) used hused).mono (by omega)

/-- If no node depends on itself in any scope, every search goes down to some depth only. -/
theorem exists_nestsWithin (body : Body) (hacyclic : body.AcyclicScopes)
    (houter : ∀ name, body.Seeks name → body.origin? name = none →
      ∃ levels, NestsWithin levels outer name) (hseeks : body.Seeks name) :
    ∃ levels, NestsWithin levels (body :: outer) name := by
  induction body using Body.nested_induction generalizing outer name with
  | hstep body ih =>
      refine Body.seeks_induction (hacyclic body .root)
        (motive := fun name => ∃ levels, NestsWithin levels (body :: outer) name) ?_ ?_ ?_ hseeks
      · intro name hseeks hnone
        obtain ⟨levels, hnests⟩ := houter name hseeks hnone
        exact ⟨levels, .outward hnone hnests⟩
      · exact fun name slot hinput => ⟨0, .input hinput⟩
      · intro name index slot node _ horigin hnode ihNode
        have hmem := List.mem_of_getElem? hnode
        have hnests : ∃ levels, node.NestsWithin levels (body :: outer) := by
          refine node.exists_nestsWithin _ (fun used hused => ihNode used (.input hused)) ?_
          intro graph hcarries used hused
          refine ih node hmem graph hcarries (hacyclic.of_carries hmem hcarries) ?_ (.output hused)
          exact fun captured hcaptured hnone => ihNode captured (.captured hcarries hcaptured hnone)
        obtain ⟨levels, hnests⟩ := hnests
        exact ⟨levels, hnests.of_origin? horigin hnode⟩

/-- The outputs of a body that stands by itself are searched down to some depth only. -/
theorem Body.exists_nestsWithin (hacyclic : body.AcyclicScopes) :
    ∃ levels, ∀ name ∈ body.outputs, NestsWithin levels [body] name :=
  exists_bound_of_forall (fun hle hnests => hnests.mono hle) fun _ houtput =>
    OpGraph.exists_nestsWithin body hacyclic (fun _ _ _ => ⟨0, .nowhere⟩) (.output houtput)

/-- Whether no node of the body mentions what a node that carries graphs computes. -/
def Body.keepsGraphsApart (body : Body) : Bool :=
  body.nodes.all fun node => node.attributes.all (·.value.subgraphs.isEmpty) ||
    body.nodes.all fun user => user.mentioned.all fun name => !node.outputs.contains name

/-- What a node mentions leads to no graph where nodes with graphs are kept apart. -/
theorem Body.not_leadsToGraph (hapart : body.keepsGraphsApart = true) (hnode : node ∈ body.nodes)
    (hmentions : node.Mentions name) : ¬ body.LeadsToGraph name := by
  intro hleads
  induction hleads generalizing node with
  | @carried index slot name used graph horigin hused hcarries =>
      obtain ⟨attr, hattr, hgraph⟩ := hcarries
      have houtput : name ∈ used.outputs := by
        rcases defines_of_origin?_eq_output horigin with _ | ⟨_, hused', hslot⟩
        rw [hused, Option.some.injEq] at hused'
        exact hused' ▸ List.mem_of_getElem? hslot
      rw [keepsGraphsApart, List.all_eq_true] at hapart
      rcases Bool.or_eq_true _ _ |>.mp (hapart used (List.mem_of_getElem? hused)) with
        hbare | hunused
      · have hempty := List.all_eq_true.mp hbare attr hattr
        rw [List.isEmpty_iff] at hempty
        simp [hempty] at hgraph
      · have hnames := List.all_eq_true.mp hunused node hnode
        have hname := List.all_eq_true.mp hnames name hmentions.mem_mentioned
        simp [houtput] at hname
  | input _ hused hinput _ ih => exact ih (List.mem_of_getElem? hused) (.input hinput)

/-- Where nodes with graphs are kept apart in all scopes, what is captured leads to none of them. -/
theorem Body.plainCaptures_of_scopes {root : Body}
    (hapart : root.scopes.all keepsGraphsApart = true) : root.PlainCaptures := by
  intro scope hscope node hnode graph hcarries name hseeks hnone
  have hcaptures : graph.body.Captures name :=
    ⟨hseeks.needs.uses, lacks_of_origin?_eq_none hnone⟩
  exact not_leadsToGraph (List.all_eq_true.mp hapart scope hscope.mem_scopes) hnode
    (hcaptures.mentions hcarries)

end Nesting

end OpGraph
