import OpGraph.Proofs.Scoping.Depths
import Mathlib.Data.Fintype.EquivFin

/-!
How high the recursion from a name is. It goes from a name to the node that a search finds behind
it, and from there to all inputs of the node and into all graphs that it carries. If no search comes
back to the node where it started, the recursion ends.
-/

namespace OpGraph

/-- The recursion from a name, looked up in bodies of which the first is the innermost, comes by at
most so many nodes on its way down. -/
inductive EndsWithin : Nat → List Body → String → Prop where
  | nowhere {height : Nat} {name : String} : EndsWithin height [] name
  | outward {height : Nat} {body : Body} {outer : List Body} {name : String} :
      body.origin? name = none → EndsWithin height outer name →
      EndsWithin height (body :: outer) name
  | input {height slot : Nat} {body : Body} {outer : List Body} {name : String} :
      body.origin? name = some (.input slot) → EndsWithin height (body :: outer) name
  | output {height index slot : Nat} {node : Node} {body : Body} {outer : List Body}
      {name : String} : body.origin? name = some (.output index slot) →
      body.nodes[index]? = some node →
      (∀ used ∈ node.inputs, EndsWithin height (body :: outer) used) →
      (∀ graph, node.Carries graph → ∀ used ∈ graph.outputs,
        EndsWithin height (graph.body :: body :: outer) used) →
      EndsWithin (height + 1) (body :: outer) name

/-- The recursion from a node of the first of the bodies comes by at most so many other nodes. -/
structure Node.EndsWithin (node : Node) (height : Nat) (bodies : List Body) : Prop where
  inputs : ∀ used ∈ node.inputs, OpGraph.EndsWithin height bodies used
  graphs : ∀ graph, node.Carries graph → ∀ used ∈ graph.outputs,
    OpGraph.EndsWithin height (graph.body :: bodies) used

namespace Body

/-- The search from a node of the body comes by another one. -/
def LeadsTo (body : Body) (index other : Nat) : Prop :=
  ∃ node name slot, body.nodes[index]? = some node ∧ node.Seeks name ∧
    body.origin? name = some (.output other slot)

/-- No search from a node of the body comes back to it. -/
def LoopFree (body : Body) : Prop := ∀ index, ¬ Relation.TransGen body.LeadsTo index index

/-- In no scope of the body a search comes back to the node where it started. -/
def LoopFreeScopes (body : Body) : Prop := ∀ scope, body.HasScope scope → scope.LoopFree

section Loops

variable {body : Body} {index other : Nat}

/-- What a search comes by is a dependency. -/
theorem LeadsTo.dependsOn (hleads : body.LeadsTo index other) : body.DependsOn index other := by
  obtain ⟨node, name, slot, hnode, hseeks, horigin⟩ := hleads
  exact ⟨node, name, slot, hnode, hseeks.needs.mentions, defines_of_origin?_eq_output horigin⟩

/-- Where the dependencies are acyclic, no search comes back. -/
theorem AcyclicScopes.loopFreeScopes (hacyclic : body.AcyclicScopes) : body.LoopFreeScopes :=
  fun scope hscope index hloop =>
    hacyclic scope hscope index (hloop.lift id fun _ _ hleads => hleads.dependsOn)

theorem LoopFreeScopes.of_carries (hfree : body.LoopFreeScopes) {node : Node} {graph : Graph}
    (hnode : node ∈ body.nodes) (hcarries : node.Carries graph) : graph.body.LoopFreeScopes :=
  fun scope hscope => hfree scope (.of_carries hnode hcarries hscope)

theorem LeadsTo.lt_length (hleads : body.LeadsTo index other) : other < body.nodes.length := by
  obtain ⟨_, _, _, _, _, horigin⟩ := hleads
  exact (defines_of_origin?_eq_output horigin).lt_length

/-- What holds of a node once it holds of all that it leads to, holds of all nodes, if no search
comes back. -/
theorem loopFree_induction (hfree : body.LoopFree) {motive : Nat → Prop}
    (hstep : ∀ index, (∀ other, body.LeadsTo index other → motive other) → motive index)
    (index : Nat) : motive index := by
  let below (other index : Fin body.nodes.length) : Prop :=
    Relation.TransGen body.LeadsTo index other
  have htrans : IsTrans _ below := ⟨fun _ _ _ hfirst hsecond => hsecond.trans hfirst⟩
  have hirrefl : Std.Irrefl below := ⟨fun place => hfree place⟩
  have hwf : WellFounded below := Finite.wellFounded_of_trans_of_irrefl below
  have hinside : ∀ place : Fin body.nodes.length, motive place := by
    intro place
    induction place using hwf.induction with
    | h place ih =>
        refine hstep place fun other hleads => ?_
        exact ih ⟨other, hleads.lt_length⟩ (Relation.TransGen.single hleads)
  exact hstep index fun other hleads => hinside ⟨other, hleads.lt_length⟩

end Loops

end Body

section Heights

variable {height height' index slot : Nat} {bodies outer : List Body} {body : Body} {name : String}
  {node : Node}

theorem EndsWithin.mono (hends : EndsWithin height bodies name) (hle : height ≤ height') :
    EndsWithin height' bodies name := by
  induction hends generalizing height' with
  | nowhere => exact .nowhere
  | outward hnone _ ih => exact .outward hnone (ih hle)
  | input hinput => exact .input hinput
  | output horigin hnode _ _ ihInputs ihGraphs =>
      obtain ⟨below, rfl⟩ := Nat.exists_eq_add_of_lt (Nat.lt_of_succ_le hle)
      refine .output horigin hnode ?_ ?_
      · exact fun used hused => ihInputs used hused (Nat.le_add_right _ _)
      · exact fun graph hcarries used hused =>
          ihGraphs graph hcarries used hused (Nat.le_add_right _ _)

/-- A recursion that ends has a height that no bound on it falls below. -/
theorem Node.EndsWithin.exists_lowest (hends : node.EndsWithin height bodies) :
    ∃ lowest ≤ height, node.EndsWithin lowest bodies ∧
      ∀ below < lowest, ¬ node.EndsWithin below bodies := by
  classical
  have hexists : ∃ height, node.EndsWithin height bodies := ⟨height, hends⟩
  exact ⟨Nat.find hexists, Nat.find_min' hexists hends, Nat.find_spec hexists,
    fun _ hbelow => Nat.find_min hexists hbelow⟩

theorem EndsWithin.of_outward (hends : EndsWithin height (body :: outer) name)
    (hnone : body.origin? name = none) : EndsWithin height outer name := by
  cases hends with
  | outward _ houter => exact houter
  | input hinput => simp [hnone] at hinput
  | output horigin _ _ _ => simp [hnone] at horigin

/-- Bodies that do not have a name are passed by. -/
theorem EndsWithin.of_skipped {skipped : List Body}
    (hends : EndsWithin height (skipped ++ bodies) name)
    (hskipped : ∀ body ∈ skipped, body.origin? name = none) : EndsWithin height bodies name := by
  induction skipped with
  | nil => exact hends
  | cons body skipped ih =>
      have hrest := hends.of_outward (hskipped body List.mem_cons_self)
      exact ih hrest fun other hother => hskipped other (List.mem_cons_of_mem _ hother)

/-- The recursion from an output of a node comes by this node. -/
theorem EndsWithin.of_output (hends : EndsWithin height (body :: outer) name)
    (horigin : body.origin? name = some (.output index slot))
    (hnode : body.nodes[index]? = some node) :
    ∃ below < height, node.EndsWithin below (body :: outer) := by
  cases hends with
  | outward hnone _ => simp [hnone] at horigin
  | input hinput => simp [hinput] at horigin
  | output horigin' hnode' hinputs hgraphs =>
      obtain ⟨rfl, rfl⟩ : _ = index ∧ _ = slot := by simpa [horigin'] using horigin
      obtain rfl : _ = node := by simpa [hnode'] using hnode
      exact ⟨_, Nat.lt_succ_self _, hinputs, hgraphs⟩

/-- If the recursions from what a node uses all end, they do so within one bound. -/
theorem Node.exists_endsWithin (node : Node) (bodies : List Body)
    (hinputs : ∀ used ∈ node.inputs, ∃ height, OpGraph.EndsWithin height bodies used)
    (hgraphs : ∀ graph, node.Carries graph → ∀ used ∈ graph.outputs,
      ∃ height, OpGraph.EndsWithin height (graph.body :: bodies) used) :
    ∃ height, node.EndsWithin height bodies := by
  obtain ⟨bound, hbound⟩ := exists_bound_of_forall (fun hle hends => hends.mono hle) hinputs
  have houtputs : ∀ graph ∈ node.attributes.flatMap fun attr => attr.value.subgraphs,
      ∃ height, ∀ used ∈ graph.outputs,
        OpGraph.EndsWithin height (graph.body :: bodies) used := by
    intro graph hgraph
    exact exists_bound_of_forall (fun hle hends => hends.mono hle)
      (hgraphs graph (List.mem_flatMap.mp hgraph))
  obtain ⟨below, hbelow⟩ := exists_bound_of_forall
    (fun hle hends used hused => (hends used hused).mono hle) houtputs
  refine ⟨max bound below, ?_, ?_⟩
  · exact fun used hused => (hbound used hused).mono (Nat.le_max_left _ _)
  · intro graph hcarries used hused
    exact (hbelow graph (List.mem_flatMap.mpr hcarries) used hused).mono (Nat.le_max_right _ _)

/-- If no search comes back to where it started, in no scope, every recursion ends. -/
theorem exists_endsWithin (body : Body) (hfree : body.LoopFreeScopes)
    (houter : ∀ name, body.Seeks name → body.origin? name = none →
      ∃ height, EndsWithin height outer name) (hseeks : body.Seeks name) :
    ∃ height, EndsWithin height (body :: outer) name := by
  induction body using Body.nested_induction generalizing outer name with
  | hstep body ih =>
      have houtput : ∀ index name slot, body.Seeks name →
          body.origin? name = some (.output index slot) →
          ∃ height, EndsWithin height (body :: outer) name := by
        intro index
        induction index using Body.loopFree_induction (hfree body .root) with
        | hstep index ihIndex =>
            intro name slot hseeks horigin
            obtain ⟨node, hnode⟩ := Body.getElem?_of_origin? horigin
            have hmem := List.mem_of_getElem? hnode
            have hused : ∀ used, node.Seeks used →
                ∃ height, EndsWithin height (body :: outer) used := by
              intro used hused
              have hseeksUsed := hseeks.of_node horigin hnode hused
              rcases husedOrigin : body.origin? used with _ | place | ⟨other, place⟩
              · obtain ⟨height, hends⟩ := houter used hseeksUsed husedOrigin
                exact ⟨height, .outward husedOrigin hends⟩
              · exact ⟨0, .input husedOrigin⟩
              · exact ihIndex other ⟨node, used, place, hnode, hused, husedOrigin⟩ used place
                  hseeksUsed husedOrigin
            obtain ⟨height, hends⟩ := node.exists_endsWithin (body :: outer)
              (fun used hinput => hused used (.input hinput)) fun graph hcarries used houtput =>
                ih node hmem graph hcarries (hfree.of_carries hmem hcarries)
                  (fun captured hcaptured hnone => hused captured (.captured hcarries hcaptured hnone))
                  (.output houtput)
            exact ⟨height + 1, .output horigin hnode hends.inputs hends.graphs⟩
      rcases horigin : body.origin? name with _ | slot | ⟨index, slot⟩
      · obtain ⟨height, hends⟩ := houter name hseeks horigin
        exact ⟨height, .outward horigin hends⟩
      · exact ⟨0, .input horigin⟩
      · exact houtput index name slot hseeks horigin

/-- In a body that stands by itself the recursions from the outputs end within one bound. -/
theorem Body.exists_endsWithin (hfree : body.LoopFreeScopes) :
    ∃ height, ∀ name ∈ body.outputs, EndsWithin height [body] name :=
  exists_bound_of_forall (fun hle hends => hends.mono hle) fun _ houtput =>
    OpGraph.exists_endsWithin body hfree (fun _ _ _ => ⟨0, .nowhere⟩) (.output houtput)

end Heights

end OpGraph
