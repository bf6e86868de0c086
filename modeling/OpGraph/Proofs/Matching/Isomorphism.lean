import OpGraph.Proofs.Matching.Agreement
import OpGraph.Proofs.Scoping.Mentioned

/-!
Isomorphisms of bodies: in each scope the nodes are mapped one to one, and partners agree in all that
makes up a node. A comparison can confirm one only if the attributes can be found equal at all: some
payloads are never compared, and a NaN differs from itself.
-/

namespace OpGraph

/-- What an isomorphism preserves: values that are no graphs, inputs also if they are omitted, and
all nodes of graphs, one to one. -/
def isomorphismRule : MatchRule where
  values left right := left.SamePlain right ∨ left = right ∧ left.subgraphs = []
  omissions := True
  graphs left right partner? := NodeBijection partner? left.nodes.length right.nodes.length

/-- The maps of the root scope of an isomorphism. -/
structure Body.Isomorphism (left right : Body) (partner? : Nat → Option Nat) : Prop where
  bijection : NodeBijection partner? left.nodes.length right.nodes.length
  bodies : BodiesMatch isomorphismRule [] left right partner?

/-- The value is a NaN or holds one. -/
def AttributeValue.holdsNaN : AttributeValue → Bool
  | .float value => value.isNaN
  | .floats values => values.any Binary.isNaN
  | _ => false

/-- What a comparison needs of every scope: no input of a node is omitted, no attribute holds what is
never equal to itself, and no nested graph has initializers. -/
structure Body.Comparable (root : Body) : Prop where
  inputs : ∀ scope, root.HasScope scope → ∀ node ∈ scope.nodes, "" ∉ node.inputs
  values : ∀ scope, root.HasScope scope → ∀ node ∈ scope.nodes, ∀ attr ∈ node.attributes,
    attr.value.isOpaque = false ∧ attr.value.holdsNaN = false
  graphs : ∀ scope, root.HasScope scope → ∀ node ∈ scope.nodes, ∀ graph, node.Carries graph →
    graph.Bare

/-- Whether a comparison can confirm a node to be the same as itself. -/
def Node.isComparable (node : Node) : Bool :=
  !node.inputs.contains "" && node.attributes.all fun attr =>
    !attr.value.isOpaque && !attr.value.holdsNaN && attr.value.subgraphs.all fun graph =>
      graph.initializers.isEmpty && graph.sparseInitializers.isEmpty

/-- What a comparison needs of every scope, checked node by node. -/
theorem Body.comparable_of_scopes {root : Body}
    (hall : (root.scopes.all fun scope => scope.nodes.all Node.isComparable) = true) :
    root.Comparable := by
  have hnode : ∀ scope, root.HasScope scope → ∀ node ∈ scope.nodes,
      node.isComparable = true := by
    intro scope hscope node hmem
    exact List.all_eq_true.mp (List.all_eq_true.mp hall scope hscope.mem_scopes) node hmem
  simp only [Node.isComparable, Bool.and_eq_true, Bool.not_eq_true', List.all_eq_true,
    List.isEmpty_iff] at hnode
  constructor
  · intro scope hscope node hmem
    simpa using (hnode scope hscope node hmem).1
  · intro scope hscope node hmem attr hattr
    exact ((hnode scope hscope node hmem).2 attr hattr).1
  · rintro scope hscope node hmem graph ⟨attr, hattr, hgraph⟩
    exact ((hnode scope hscope node hmem).2 attr hattr).2 graph hgraph

section Values

theorem Binary.numericEq_self {format : BinaryFormat} {value : Binary format}
    (hvalue : value.isNaN = false) : value.numericEq value = true := by
  cases value with
  | nan => cases hvalue
  | ranked negative rank => simp [numericEq]

/-- A value that holds neither graphs nor opaque payloads nor a NaN is the same as itself. -/
theorem AttributeValue.samePlain_self {value : AttributeValue} (hcompared : value.isOpaque = false)
    (hnan : value.holdsNaN = false) (hgraph : ∀ graph, value ≠ .graph graph)
    (hgraphs : ∀ graphs, value ≠ .graphs graphs) : value.SamePlain value := by
  cases value with
  | graph graph => exact absurd rfl (hgraph graph)
  | graphs graphs => exact absurd rfl (hgraphs graphs)
  | float value => exact Binary.numericEq_self hnan
  | floats values =>
      refine List.forall₂_same.mpr fun value hvalue => Binary.numericEq_self ?_
      rw [holdsNaN, List.any_eq_false] at hnan
      simpa using hnan value hvalue
  | reference target kind => exact ⟨rfl, rfl⟩
  | int value => exact rfl
  | string value => exact rfl
  | ints values => exact rfl
  | strings values => exact rfl
  | tensor tensor => cases hcompared
  | tensors tensors => cases hcompared
  | sparseTensor tensor => cases hcompared
  | sparseTensors tensors => cases hcompared
  | typeProto type => cases hcompared
  | typeProtos types => cases hcompared

/-- A value without opaque payloads and NaNs agrees with itself if its graphs do. -/
theorem valuesAgree_self {rule : GraphRule} {layers : List Layer} {value : AttributeValue}
    (hcompared : value.isOpaque = false ∧ value.holdsNaN = false)
    (hgraphs : ∀ graph ∈ value.subgraphs, GraphsAgree rule layers graph graph) :
    ValuesAgree rule layers value value := by
  cases value with
  | graph graph => exact .graph (hgraphs graph List.mem_cons_self)
  | graphs graphs =>
      refine .graphs rfl fun place graph graph' hplace hplace' => ?_
      rw [hplace, Option.some.injEq] at hplace'
      exact hplace' ▸ hgraphs graph (List.mem_of_getElem? hplace)
  | _ => exact .plain (AttributeValue.samePlain_self hcompared.1 hcompared.2
      (fun _ hgraph => by cases hgraph) (fun _ hgraph => by cases hgraph))

end Values

section Confirming

variable {layers : List Layer}

theorem Corresponds.names_ne_empty {left right : String} (hcorr : Corresponds layers left right) :
    left ≠ "" ∧ right ≠ "" := by
  induction hcorr with
  | here hdefines hdefines' _ => exact ⟨hdefines.name_ne_empty, hdefines'.name_ne_empty⟩
  | outward _ _ _ ih => exact ih

/-- Where no name is defined twice, names that correspond agree. -/
theorem Corresponds.agrees {left right : String}
    (hunique : ∀ layer ∈ layers, layer.left.UniqueNames ∧ layer.right.UniqueNames)
    (hcorr : Corresponds layers left right) : Agrees layers left right := by
  induction hcorr with
  | here hdefines hdefines' hmatch =>
      obtain ⟨hlayer, hlayer'⟩ := hunique _ List.mem_cons_self
      exact .here (hdefines.origin? hlayer) (hdefines'.origin? hlayer') hmatch
  | outward hlacks hlacks' hrest ih =>
      obtain ⟨hname, hname'⟩ := hrest.names_ne_empty
      exact .outward (hlacks.origin?_eq_none fun hempty => absurd hempty hname)
        (hlacks'.origin?_eq_none fun hempty => absurd hempty hname')
        (ih fun layer hlayer => hunique layer (List.mem_cons_of_mem _ hlayer))

/-- A body of which a comparison can confirm an isomorphism. -/
structure Body.Confirmable (body : Body) : Prop where
  unique : body.UniqueScopes
  comparable : body.Comparable

theorem Body.Confirmable.of_carries {body : Body} {node : Node} {graph : Graph}
    (hbody : body.Confirmable) (hnode : node ∈ body.nodes) (hcarries : node.Carries graph) :
    graph.body.Confirmable where
  unique := hbody.unique.of_carries hnode hcarries
  comparable :=
    ⟨fun scope hscope => hbody.comparable.inputs scope (.of_carries hnode hcarries hscope),
      fun scope hscope => hbody.comparable.values scope (.of_carries hnode hcarries hscope),
      fun scope hscope => hbody.comparable.graphs scope (.of_carries hnode hcarries hscope)⟩

/-- Where no input is omitted, the inputs of nodes that match agree. -/
theorem agrees_of_inputsMatch {rule : MatchRule} {lefts rights : List String}
    (hunique : ∀ layer ∈ layers, layer.left.UniqueNames ∧ layer.right.UniqueNames)
    (hnamed : "" ∉ lefts) (hinputs : List.Forall₂ (InputsMatch rule layers) lefts rights) :
    List.Forall₂ (Agrees layers) lefts rights := by
  induction hinputs with
  | nil => exact .nil
  | cons hhead _ ih =>
      rw [List.mem_cons, not_or] at hnamed
      rcases hhead with hcorr | ⟨_, hempty, _⟩
      · exact .cons (hcorr.agrees hunique) (ih hnamed.2)
      · exact absurd hempty.symm hnamed.1

mutual

theorem GraphsMatch.graphsAgree {layers : List Layer} {left right : Graph}
    (hunique : ∀ layer ∈ layers, layer.left.UniqueNames ∧ layer.right.UniqueNames)
    (hleft : left.Bare ∧ left.body.Confirmable) (hright : right.Bare ∧ right.body.Confirmable) :
    GraphsMatch isomorphismRule layers left right → GraphsAgree ConfirmableGraphs layers left right
  | .intro partner? hinputs hbijection houtputs hnodes => by
      have hinner : ∀ layer ∈ (⟨left.body, right.body, partner?⟩ : Layer) :: layers,
          layer.left.UniqueNames ∧ layer.right.UniqueNames :=
        List.forall_mem_cons.mpr ⟨⟨hleft.2.unique _ .root, hright.2.unique _ .root⟩, hunique⟩
      refine .intro partner? hinputs ⟨hleft.1, hright.1, hbijection.in_range⟩
        (houtputs.imp fun _ _ => Corresponds.agrees hinner) ?_
      intro index index' node node' hpartner hnode hnode'
      exact NodesMatch.nodesAgree hinner hleft.2 hright.2 (List.mem_of_getElem? hnode)
        (List.mem_of_getElem? hnode') (hnodes index index' node node' hpartner hnode hnode')

/-- Nodes that match under an isomorphism agree, if a comparison can confirm it. -/
theorem NodesMatch.nodesAgree {layers : List Layer} {body body' : Body} {left right : Node}
    (hunique : ∀ layer ∈ layers, layer.left.UniqueNames ∧ layer.right.UniqueNames)
    (hbody : body.Confirmable) (hbody' : body'.Confirmable) (hleft : left ∈ body.nodes)
    (hright : right ∈ body'.nodes) :
    NodesMatch isomorphismRule layers left right → NodesAgree ConfirmableGraphs layers left right
  | .intro htype hdomain hinputs hnames hvalues => by
      have hnamed := hbody.comparable.inputs body .root left hleft
      refine .intro htype hdomain (agrees_of_inputsMatch hunique hnamed hinputs) hnames ?_
      intro attr hattr attr' hattr' hname
      refine ValuesMatch.valuesAgree hunique
        (hbody.comparable.values body .root left hleft attr hattr) ?_ ?_
        (hvalues attr hattr attr' hattr' hname)
      · intro graph hgraph
        have hcarries : left.Carries graph := ⟨attr, hattr, hgraph⟩
        exact ⟨hbody.comparable.graphs body .root left hleft graph hcarries,
          hbody.of_carries hleft hcarries⟩
      · intro graph hgraph
        have hcarries : right.Carries graph := ⟨attr', hattr', hgraph⟩
        exact ⟨hbody'.comparable.graphs body' .root right hright graph hcarries,
          hbody'.of_carries hright hcarries⟩

theorem ValuesMatch.valuesAgree {layers : List Layer} {left right : AttributeValue}
    (hunique : ∀ layer ∈ layers, layer.left.UniqueNames ∧ layer.right.UniqueNames)
    (hcompared : left.isOpaque = false ∧ left.holdsNaN = false)
    (hleft : ∀ graph ∈ left.subgraphs, graph.Bare ∧ graph.body.Confirmable)
    (hright : ∀ graph ∈ right.subgraphs, graph.Bare ∧ graph.body.Confirmable) :
    ValuesMatch isomorphismRule layers left right → ValuesAgree ConfirmableGraphs layers left right
  | .plain hvalues => by
      rcases hvalues with hsame | ⟨rfl, hempty⟩
      · exact .plain hsame
      · exact valuesAgree_self hcompared (by simp [hempty])
  | .graph hgraph => .graph (GraphsMatch.graphsAgree hunique (hleft _ List.mem_cons_self)
      (hright _ List.mem_cons_self) hgraph)
  | .graphs hlength hgraphs => .graphs hlength fun place left right hplace hplace' =>
      GraphsMatch.graphsAgree hunique (hleft left (List.mem_of_getElem? hplace))
        (hright right (List.mem_of_getElem? hplace')) (hgraphs place left right hplace hplace')

end

/-- Two bodies between which there is an isomorphism agree, if a comparison can confirm it. -/
theorem Body.Isomorphism.bodiesAgree {left right : Body} {partner? : Nat → Option Nat}
    (hleft : left.Confirmable) (hright : right.Confirmable)
    (hiso : left.Isomorphism right partner?) :
    BodiesAgree ConfirmableGraphs [] left right partner? := by
  have hunique : ∀ layer ∈ [(⟨left, right, partner?⟩ : Layer)],
      layer.left.UniqueNames ∧ layer.right.UniqueNames :=
    List.forall_mem_singleton.mpr ⟨hleft.unique _ .root, hright.unique _ .root⟩
  refine ⟨hiso.bodies.outputs.imp fun _ _ => Corresponds.agrees hunique, ?_⟩
  intro index index' node node' hpartner hnode hnode'
  exact NodesMatch.nodesAgree hunique hleft hright (List.mem_of_getElem? hnode)
    (List.mem_of_getElem? hnode')
    (hiso.bodies.nodes index index' node node' hpartner hnode hnode')

end Confirming

end OpGraph
