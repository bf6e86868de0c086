import OpGraph.Proofs.Descent.Guarantees
import OpGraph.Proofs.Meaning.Evaluation
import Mathlib.Data.Set.List

/-!
Graphs that match compute the same, whatever the operations mean. Partners may be shared, so there
need not be a node on the right for each one on the left; it is enough that names that correspond
have the same values. In one scope this goes by induction on the rank of the node behind the left
name, and into the graphs that a node carries by induction on the nesting.
-/

namespace OpGraph

universe u

/-- In every scope names and attributes are in order, each input has a name, and no dependencies are
cyclic. -/
structure Body.Orderly (root : Body) : Prop where
  distinct : root.Distinct
  named : root.NamedInputs
  acyclic : root.AcyclicScopes

theorem Body.Orderly.of_hasScope {root scope : Body} (hroot : root.Orderly)
    (hscope : root.HasScope scope) : scope.Orderly where
  distinct :=
    ⟨fun inner hinner => hroot.distinct.names inner (hscope.trans hinner),
      fun inner hinner => hroot.distinct.attributes inner (hscope.trans hinner)⟩
  named inner hinner := hroot.named inner (hscope.trans hinner)
  acyclic inner hinner := hroot.acyclic inner (hscope.trans hinner)

section Preservation

variable {V : Type u} {meaning : Interpretation V} {layers : List Layer} {env env' : Environment V}

/-- Names that correspond, the left one of which is used, have the same value. -/
def AgreeOn (layers : List Layer) (used : String → Prop) (env env' : Environment V) : Prop :=
  ∀ ⦃left right : String⦄, Corresponds layers left right → used left → env left = env' right

/-- The node computes the same as every node that it matches. -/
def Node.Preserved (meaning : Interpretation V) (node : Node) : Prop :=
  ∀ ⦃layers : List Layer⦄ ⦃body body' : Body⦄ ⦃node' : Node⦄ ⦃env env' : Environment V⦄,
    body.Orderly → body'.Orderly → node ∈ body.nodes → node' ∈ body'.nodes →
    NodesMatch comparedRule layers node node' → AgreeOn layers node.Mentions env env' →
    node.denote meaning env = node'.denote meaning env'

theorem map_eq_of_forall₂ {α β γ : Type*} {related : α → β → Prop} {first : α → γ} {second : β → γ}
    {lefts : List α} {rights : List β} (hrelated : List.Forall₂ related lefts rights)
    (heq : ∀ left ∈ lefts, ∀ right, related left right → first left = second right) :
    lefts.map first = rights.map second := by
  induction hrelated with
  | nil => rfl
  | cons hhead _ ih =>
      rw [List.map_cons, List.map_cons, heq _ List.mem_cons_self _ hhead,
        ih fun left hleft => heq left (List.mem_cons_of_mem _ hleft)]

/-- In two bodies that match, names that correspond have the same values; by induction on the rank
of the node behind the left one. -/
theorem values_eq_of_rank_lt {left right : Body} {partner? : Nat → Option Nat} {args : List V}
    (hpreserved : ∀ node ∈ left.nodes, node.Preserved meaning) (hleft : left.Orderly)
    (hright : right.Orderly) (hmatch : BodiesMatch comparedRule layers left right partner?)
    (hagree : AgreeOn layers left.Captures env env') (bound : Nat) :
    AgreeOn (⟨left, right, partner?⟩ :: layers)
      (fun name => left.Uses name ∧
        ∀ index slot, left.Defines name (.output index slot) → left.rank index < bound)
      (left.values meaning env args) (right.values meaning env' args) := by
  induction bound using Nat.strongRecOn with
  | ind bound ih =>
      intro name name' hcorr hused
      obtain ⟨huses, hrank⟩ := hused
      cases hcorr with
      | outward hlacks hlacks' houter =>
          rw [Body.values_of_lacks (hleft.named _ .root) hlacks,
            Body.values_of_lacks (hright.named _ .root) hlacks']
          exact hagree houter ⟨huses, hlacks⟩
      | here hdefines hdefines' horigins =>
          cases horigins with
          | input slot =>
              rw [Body.values_of_input (hleft.distinct.names _ .root) hdefines,
                Body.values_of_input (hright.distinct.names _ .root) hdefines']
          | @output index index' slot hpartner =>
              obtain ⟨node, hnode⟩ := hdefines.exists_node
              obtain ⟨node', hnode'⟩ := hdefines'.exists_node
              have hmem := List.mem_of_getElem? hnode
              have hinputs : AgreeOn (⟨left, right, partner?⟩ :: layers) node.Mentions
                  (left.values meaning env args) (right.values meaning env' args) := by
                intro used used' hcorr hmentions
                refine ih (left.rank index) (hrank index slot hdefines) hcorr
                  ⟨Or.inr ⟨node, hmem, hmentions⟩, fun other otherSlot hother => ?_⟩
                have hdepends : left.DependsOn index other :=
                  ⟨node, used, otherSlot, hnode, hmentions, hother⟩
                exact hdepends.rank_lt (hleft.acyclic _ .root)
              rw [Body.values_of_output (hleft.distinct.names _ .root) (hleft.acyclic _ .root)
                  hdefines hnode,
                Body.values_of_output (hright.distinct.names _ .root) (hright.acyclic _ .root)
                  hdefines' hnode',
                hpreserved node hmem hleft hright hmem (List.mem_of_getElem? hnode')
                  (hmatch.nodes index index' node node' hpartner hnode hnode') hinputs]

/-- Graphs that match mean the same function, if they capture the same values. -/
theorem denote_eq_of_graphsMatch {left right : Graph}
    (hpreserved : ∀ node ∈ left.nodes, node.Preserved meaning) (hleft : left.body.Orderly)
    (hright : right.body.Orderly) (hmatch : GraphsMatch comparedRule layers left right)
    (hagree : AgreeOn layers left.body.Captures env env') :
    left.denote meaning env = right.denote meaning env' := by
  obtain ⟨_, partner?, _, hbodies⟩ := graphsMatch_iff.mp hmatch
  funext args
  rw [Graph.denote_eq, Graph.denote_eq]
  refine map_eq_of_forall₂ hbodies.outputs fun name hname name' hcorr => ?_
  refine values_eq_of_rank_lt hpreserved hleft hright hbodies hagree left.nodes.length hcorr
    ⟨Or.inl hname, fun index slot hdefines => ?_⟩
  exact Body.rank_lt_length (hleft.acyclic _ .root) hdefines.lt_length

/-- Values of attributes that match mean the same, if the graphs in them do. -/
theorem same_of_valuesMatch {left right : AttributeValue}
    (hgraphs : ∀ graph ∈ left.subgraphs, ∀ graph' ∈ right.subgraphs,
      GraphsMatch comparedRule layers graph graph' →
      graph.denote meaning env = graph'.denote meaning env')
    (hmatch : ValuesMatch comparedRule layers left right) :
    AttributeMeaning.Same (denoteValue meaning left env) (denoteValue meaning right env') := by
  cases hmatch with
  | plain hsame =>
      have hplain : denoteValue meaning left env = .plain left := by
        cases left with
        | graph _ => cases right <;> exact hsame.elim
        | graphs _ => cases right <;> exact hsame.elim
        | _ => rfl
      have hplain' : denoteValue meaning right env' = .plain right := by
        cases right with
        | graph _ => cases left <;> exact hsame.elim
        | graphs _ => cases left <;> exact hsame.elim
        | _ => rfl
      rw [hplain, hplain']
      exact .plain hsame
  | graph hgraph =>
      rw [denoteValue, denoteValue, hgraphs _ List.mem_cons_self _ List.mem_cons_self hgraph]
      exact .refl _
  | @graphs _ lefts rights hlength hall =>
      have hmaps : (lefts.map fun graph => graph.denote meaning env) =
          rights.map fun graph => graph.denote meaning env' := by
        refine List.ext_getElem (by simpa using hlength) fun place hplace hplace' => ?_
        rw [List.length_map] at hplace hplace'
        rw [List.getElem_map, List.getElem_map]
        exact hgraphs _ (List.getElem_mem hplace) _ (List.getElem_mem hplace')
          (hall place _ _ (List.getElem?_eq_getElem hplace) (List.getElem?_eq_getElem hplace'))
      rw [denoteValue, denoteValue, denoteGraphs_eq, denoteGraphs_eq, hmaps]
      exact .refl _

theorem Node.preserved_all (meaning : Interpretation V) (node : Node) : node.Preserved meaning := by
  induction node using Node.carried_induction with
  | hstep node ih =>
      intro layers body body' node' env env' hbody hbody' hmem hmem' hmatch hagree
      rcases hmatch with ⟨htype, hdomain, hinputs, hnames, hvalues⟩
      have hnodup := hbody.distinct.attributes _ .root _ hmem
      have hnodup' := hbody'.distinct.attributes _ .root _ hmem'
      have hargs : node.inputs.map env = node'.inputs.map env' := by
        refine map_eq_of_forall₂ hinputs fun name hname name' hmatch => ?_
        rcases hmatch with hcorr | ⟨hnone, _⟩
        · exact hagree hcorr (.input hname)
        · exact hnone.elim
      have hattributes : ∀ name, Option.Rel AttributeMeaning.Same
          (denoteAttributes meaning node.attributes env name)
          (denoteAttributes meaning node'.attributes env' name) := by
        intro name
        by_cases hname : name ∈ node.attributes.map Attribute.name
        · obtain ⟨attr, hattr, rfl⟩ := List.mem_map.mp hname
          obtain ⟨attr', hattr', hsame⟩ := List.mem_map.mp ((hnames attr.name).mp hname)
          rw [denoteAttributes_of_mem hnodup hattr, ← hsame,
            denoteAttributes_of_mem hnodup' hattr']
          refine .some (same_of_valuesMatch ?_ (hvalues attr hattr attr' hattr' hsame.symm))
          intro graph hgraph graph' hgraph' hgraphs
          have hcarries : node.Carries graph := ⟨attr, hattr, hgraph⟩
          have hcarries' : node'.Carries graph' := ⟨attr', hattr', hgraph'⟩
          exact denote_eq_of_graphsMatch (ih graph hcarries)
            (hbody.of_hasScope (.nested .root hmem hcarries))
            (hbody'.of_hasScope (.nested .root hmem' hcarries')) hgraphs
            fun _ _ hcorr hcaptures => hagree hcorr (hcaptures.mentions hcarries)
        · rw [denoteAttributes_of_notMem hname,
            denoteAttributes_of_notMem fun hname' => hname ((hnames name).mpr hname')]
          exact .none
      funext slot
      rw [denote, denote, htype, hdomain, hargs]
      exact meaning.respects _ _ _ _ _ _ hattributes

/-- The outputs of a graph that stands by itself have values, if its inputs have. -/
theorem Graph.exists_results (meaning : Interpretation V) {graph : Graph}
    (hcheck : graph.checkWellFormed = .ok ()) (hacyclic : graph.body.AcyclicScopes) {args : List V}
    (hlength : args.length = graph.inputs.length) :
    ∃ results : List V, graph.evaluate meaning args = results.map some := by
  have hunique := (Graph.distinct_of_checkWellFormed hcheck).names _ .root
  have hdefined : ∀ value ∈ graph.evaluate meaning args, value ∈ Set.range some := by
    intro value hvalue
    rw [evaluate, denote_eq] at hvalue
    obtain ⟨name, hname, rfl⟩ := List.mem_map.mp hvalue
    obtain ⟨origin, hdefines⟩ := Graph.exists_defines_of_checkWellFormed hcheck hname
    rcases origin with slot | ⟨index, slot⟩
    · rw [Body.values_of_input hunique hdefines]
      rcases hdefines with ⟨_, hslot⟩
      have hlt := (List.getElem?_eq_some_iff.mp hslot).1
      rw [List.getElem?_eq_getElem (hlength ▸ hlt)]
      exact Set.mem_range_self _
    · obtain ⟨node, hnode⟩ := hdefines.exists_node
      rw [Body.values_of_output hunique (hacyclic _ .root) hdefines hnode]
      exact Set.mem_range_self _
  have hrange : graph.evaluate meaning args ∈ Set.range (List.map some) := by
    rw [Set.range_list_map]
    exact hdefined
  obtain ⟨results, hresults⟩ := hrange
  exact ⟨results, hresults.symm⟩

/-- Graphs that are found equivalent compute the same outputs from the same inputs, whatever the
operations mean, also if several nodes share a partner. -/
theorem Graph.evaluate_eq_of_compare (meaning : Interpretation V) {left right : Graph}
    {options : CompareOptions} {pairing : Pairing} (hleft : left.checkWellFormed = .ok ())
    (hright : right.checkWellFormed = .ok ()) (hnamed : left.body.NamedInputs)
    (hnamed' : right.body.NamedInputs) (hacyclic : left.body.AcyclicScopes)
    (hacyclic' : right.body.AcyclicScopes)
    (hcompare : left.compare options right = .ok (.equivalent pairing)) :
    left.inputs.length = right.inputs.length ∧ left.outputs.length = right.outputs.length ∧
      (∀ args : List V, left.evaluate meaning args = right.evaluate meaning args) ∧
      ∀ args : List V, args.length = left.inputs.length → ∃ results : List V,
        left.evaluate meaning args = results.map some ∧
          right.evaluate meaning args = results.map some := by
  obtain ⟨hmatch, hbodies⟩ := Graph.bodiesMatch_of_compare hleft hright hnamed hnamed' hacyclic
    hcompare
  have heq : ∀ args : List V, left.evaluate meaning args = right.evaluate meaning args := by
    intro args
    have hagree : AgreeOn [] left.body.Captures (fun _ => none : Environment V) fun _ => none := by
      intro _ _ hcorr _
      cases hcorr
    have hdenote := denote_eq_of_graphsMatch (fun node _ => Node.preserved_all meaning node)
      ⟨Graph.distinct_of_checkWellFormed hleft, hnamed, hacyclic⟩
      ⟨Graph.distinct_of_checkWellFormed hright, hnamed', hacyclic'⟩ hmatch hagree
    exact congrFun hdenote args
  refine ⟨(graphsMatch_iff.mp hmatch).1, hbodies.outputs.length_eq, heq, fun args hlength => ?_⟩
  obtain ⟨results, hresults⟩ := Graph.exists_results meaning hleft hacyclic hlength
  exact ⟨results, hresults, (heq args).symm.trans hresults⟩

end Preservation

/-- The first output of the graph in an attribute, if there is one. -/
def firstOutput : Option (AttributeMeaning Int) → List Int → Int
  | some (.graph function), args => ((function args).head?.bind id).getD 0
  | _, _ => 0

theorem firstOutput_congr {left right : Option (AttributeMeaning Int)}
    (hsame : Option.Rel AttributeMeaning.Same left right) : firstOutput left = firstOutput right := by
  rcases hsame with hmeanings | _
  · rcases hmeanings with _ | _
    · rfl
    · rfl
  · rfl

/-- Operations on integers: a maximum, a sum, and the application of a graph. -/
def arithmetic : Interpretation Int where
  result opType _ attributes args _ :=
    match opType, args with
    | "Relu", [some value] => max 0 value
    | "Add", [some value, some value'] => value + value'
    | "Apply", args => firstOutput (attributes "body") args.reduceOption
    | _, _ => 0
  respects opType _ left right args _ hsame := by
    simp only [firstOutput_congr (hsame "body")]

/-- A function of two values that are computed twice. -/
def Graph.applyTwoRelus : Graph where
  nodes := [
    { opType := "Relu", inputs := ["x"], outputs := ["a"] },
    { opType := "Relu", inputs := ["x"], outputs := ["b"] },
    { opType := "Apply", inputs := ["x"], outputs := ["y"]
      attributes := [⟨"body", .graph
        { nodes := [
            { opType := "Add", inputs := ["a", "i"], outputs := ["s"] },
            { opType := "Add", inputs := ["b", "s"], outputs := ["t"] }]
          inputs := ["i"], outputs := ["t"] }⟩] }]
  inputs := ["x"]
  outputs := ["y"]

/-- The same function, where the value is computed once. -/
def Graph.applyOneRelu : Graph where
  nodes := [
    { opType := "Relu", inputs := ["v"], outputs := ["r"] },
    { opType := "Apply", inputs := ["v"], outputs := ["w"]
      attributes := [⟨"body", .graph
        { nodes := [
            { opType := "Add", inputs := ["r", "k"], outputs := ["p"] },
            { opType := "Add", inputs := ["r", "p"], outputs := ["q"] }]
          inputs := ["k"], outputs := ["q"] }⟩] }]
  inputs := ["v"]
  outputs := ["w"]

/-- Both graphs compute the same from every input, as 15 from 5. -/
theorem Graph.evaluate_eq_of_compare_relus : ∃ pairing : Pairing,
    Graph.applyTwoRelus.compare {} Graph.applyOneRelu = .ok (.equivalent pairing) ∧
      pairing.partner? 0 = some 0 ∧ pairing.partner? 1 = some 0 ∧
      (∀ args : List Int, Graph.applyTwoRelus.evaluate arithmetic args =
        Graph.applyOneRelu.evaluate arithmetic args) ∧
      Graph.applyTwoRelus.evaluate arithmetic [5] = [some 15] := by
  have hcompare : Graph.applyTwoRelus.compare {} Graph.applyOneRelu =
      .ok (.equivalent ⟨[(1, 0), (0, 0), (2, 1)], by decide⟩) := rfl
  have hleft : Graph.applyTwoRelus.checkWellFormed = .ok () := rfl
  have hright : Graph.applyOneRelu.checkWellFormed = .ok () := rfl
  obtain ⟨_, _, heq, _⟩ := Graph.evaluate_eq_of_compare arithmetic hleft hright
    (Body.namedInputs_of_scopes rfl) (Body.namedInputs_of_scopes rfl)
    (Body.acyclicScopes_of_inOrder rfl) (Body.acyclicScopes_of_inOrder rfl) hcompare
  exact ⟨_, hcompare, rfl, rfl, heq, rfl⟩

end OpGraph
