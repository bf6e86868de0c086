import OpGraph.Proofs.Matching.Relation

/-!
When two graphs are the same as a search sees them. This is the same relation as that of graphs
that match, but for the empty name: where an input of a scope has it, a search finds this input.
Where each input has a name, graphs that agree match.
-/

namespace OpGraph

/-- Two names agree in nested layers, the innermost of which comes first: the first layer in which
one of them is found has both, at places that match. -/
inductive Agrees : List Layer → String → String → Prop where
  | here {layer : Layer} {outer : List Layer} {left right : String} {origin origin' : Origin} :
      layer.left.origin? left = some origin → layer.right.origin? right = some origin' →
      OriginsMatch layer.partner? origin origin' → Agrees (layer :: outer) left right
  | outward {layer : Layer} {outer : List Layer} {left right : String} :
      layer.left.origin? left = none → layer.right.origin? right = none → Agrees outer left right →
      Agrees (layer :: outer) left right

/-- What is asked of two graphs with the partners of the left nodes, beside the agreement of names.
-/
abbrev GraphRule : Type := Graph → Graph → (Nat → Option Nat) → Prop

mutual

/-- Two graphs agree inside of the given layers. -/
inductive GraphsAgree (rule : GraphRule) : List Layer → Graph → Graph → Prop where
  | intro {outer : List Layer} {left right : Graph} (partner? : Nat → Option Nat) :
      left.inputs.length = right.inputs.length → rule left right partner? →
      List.Forall₂ (Agrees (⟨left.body, right.body, partner?⟩ :: outer))
        left.outputs right.outputs →
      (∀ (index index' : Nat) (node node' : Node), partner? index = some index' →
        left.nodes[index]? = some node → right.nodes[index']? = some node' →
          NodesAgree rule (⟨left.body, right.body, partner?⟩ :: outer) node node') →
      GraphsAgree rule outer left right

/-- Two nodes agree: operation, domain, inputs, and the attributes by name. -/
inductive NodesAgree (rule : GraphRule) : List Layer → Node → Node → Prop where
  | intro {layers : List Layer} {left right : Node} :
      left.opType = right.opType → left.domain = right.domain →
      List.Forall₂ (Agrees layers) left.inputs right.inputs →
      (∀ name, name ∈ left.attributes.map Attribute.name ↔
        name ∈ right.attributes.map Attribute.name) →
      (∀ attr ∈ left.attributes, ∀ attr' ∈ right.attributes, attr.name = attr'.name →
        ValuesAgree rule layers attr.value attr'.value) →
      NodesAgree rule layers left right

/-- Two values of attributes agree; graphs one by one. -/
inductive ValuesAgree (rule : GraphRule) :
    List Layer → AttributeValue → AttributeValue → Prop where
  | plain {layers : List Layer} {left right : AttributeValue} : left.SamePlain right →
      ValuesAgree rule layers left right
  | graph {layers : List Layer} {left right : Graph} : GraphsAgree rule layers left right →
      ValuesAgree rule layers (.graph left) (.graph right)
  | graphs {layers : List Layer} {lefts rights : List Graph} : lefts.length = rights.length →
      (∀ (place : Nat) (left right : Graph), lefts[place]? = some left →
        rights[place]? = some right →
        GraphsAgree rule layers left right) →
      ValuesAgree rule layers (.graphs lefts) (.graphs rights)

end

/-- The outputs of two bodies agree, and so do partners. -/
structure BodiesAgree (rule : GraphRule) (outer : List Layer) (left right : Body)
    (partner? : Nat → Option Nat) : Prop where
  outputs : List.Forall₂ (Agrees (⟨left, right, partner?⟩ :: outer)) left.outputs right.outputs
  nodes : ∀ (index index' : Nat) (node node' : Node), partner? index = some index' →
    left.nodes[index]? = some node → right.nodes[index']? = some node' →
      NodesAgree rule (⟨left, right, partner?⟩ :: outer) node node'

/-- What a comparison asks of two graphs to confirm that they agree: they have no initializers, and
partners are nodes that are there. -/
structure ConfirmableGraphs (left right : Graph) (partner? : Nat → Option Nat) : Prop where
  left_bare : left.Bare
  right_bare : right.Bare
  in_range : ∀ index index', partner? index = some index' →
    index < left.nodes.length ∧ index' < right.nodes.length

section Agreement

variable {rule rule' : GraphRule} {layers layers' : List Layer} {left right : String}

theorem graphsAgree_iff {outer : List Layer} {left right : Graph} :
    GraphsAgree rule outer left right ↔
      left.inputs.length = right.inputs.length ∧ ∃ partner?, rule left right partner? ∧
        BodiesAgree rule outer left.body right.body partner? := by
  constructor
  · rintro ⟨partner?, hinputs, hgraphs, houtputs, hnodes⟩
    exact ⟨hinputs, partner?, hgraphs, houtputs, hnodes⟩
  · rintro ⟨hinputs, partner?, hgraphs, houtputs, hnodes⟩
    exact .intro partner? hinputs hgraphs houtputs hnodes

/-- Names that agree go on to do so when partners are added. -/
theorem Agrees.mono (hextends : List.Forall₂ Layer.Extends layers layers')
    (hagrees : Agrees layers left right) : Agrees layers' left right := by
  induction hagrees generalizing layers' with
  | here hleft hright hmatch =>
      cases hextends with
      | cons hlayer _ =>
          exact .here (hlayer.left ▸ hleft) (hlayer.right ▸ hright) (hmatch.mono hlayer.partner)
  | outward hleft hright _ ih =>
      cases hextends with
      | cons hlayer houter =>
          exact .outward (hlayer.left ▸ hleft) (hlayer.right ▸ hright) (ih houter)

mutual

theorem GraphsAgree.weaken {layers layers' : List Layer} {left right : Graph}
    (hrule : ∀ left right partner?, rule left right partner? → rule' left right partner?)
    (hextends : List.Forall₂ Layer.Extends layers layers') :
    GraphsAgree rule layers left right → GraphsAgree rule' layers' left right
  | .intro partner? hinputs hgraphs houtputs hnodes => by
      have hinner :=
        List.Forall₂.cons (Layer.Extends.refl ⟨left.body, right.body, partner?⟩) hextends
      refine .intro partner? hinputs (hrule _ _ _ hgraphs)
        (houtputs.imp fun _ _ => Agrees.mono hinner) ?_
      intro index index' node node' hpartner hnode hnode'
      exact NodesAgree.weaken hrule hinner (hnodes index index' node node' hpartner hnode hnode')

/-- Nodes that agree go on to do so when less is asked of the graphs in them and partners are added
around them. -/
theorem NodesAgree.weaken {layers layers' : List Layer} {left right : Node}
    (hrule : ∀ left right partner?, rule left right partner? → rule' left right partner?)
    (hextends : List.Forall₂ Layer.Extends layers layers') :
    NodesAgree rule layers left right → NodesAgree rule' layers' left right
  | .intro htype hdomain hinputs hnames hvalues => by
      refine .intro htype hdomain (hinputs.imp fun _ _ => Agrees.mono hextends) hnames ?_
      intro attr hattr attr' hattr' hname
      exact ValuesAgree.weaken hrule hextends (hvalues attr hattr attr' hattr' hname)

theorem ValuesAgree.weaken {layers layers' : List Layer} {left right : AttributeValue}
    (hrule : ∀ left right partner?, rule left right partner? → rule' left right partner?)
    (hextends : List.Forall₂ Layer.Extends layers layers') :
    ValuesAgree rule layers left right → ValuesAgree rule' layers' left right
  | .plain hvalues => .plain hvalues
  | .graph hgraph => .graph (GraphsAgree.weaken hrule hextends hgraph)
  | .graphs hlength hgraphs => .graphs hlength fun place left right hleft hright =>
      GraphsAgree.weaken hrule hextends (hgraphs place left right hleft hright)

end

theorem GraphsAgree.mono {left right : Graph} (hextends : List.Forall₂ Layer.Extends layers layers')
    (hagree : GraphsAgree rule layers left right) : GraphsAgree rule layers' left right :=
  hagree.weaken (fun _ _ _ => id) hextends

theorem NodesAgree.mono {left right : Node} (hextends : List.Forall₂ Layer.Extends layers layers')
    (hagree : NodesAgree rule layers left right) : NodesAgree rule layers' left right :=
  hagree.weaken (fun _ _ _ => id) hextends

theorem BodiesAgree.weaken {outer : List Layer} {left right : Body} {partner? : Nat → Option Nat}
    (hrule : ∀ left right partner?, rule left right partner? → rule' left right partner?)
    (hagree : BodiesAgree rule outer left right partner?) :
    BodiesAgree rule' outer left right partner? where
  outputs := hagree.outputs
  nodes index index' node node' hpartner hnode hnode' :=
    (hagree.nodes index index' node node' hpartner hnode hnode').weaken hrule
      (List.forall₂_same.mpr fun layer _ => Layer.Extends.refl layer)

end Agreement

section Named

variable {rule : MatchRule} {layers : List Layer}

/-- No input of the two bodies lacks a name. -/
def Layer.Named (layer : Layer) : Prop := "" ∉ layer.left.inputs ∧ "" ∉ layer.right.inputs

/-- Where no input is unnamed, what the search gives is defined. -/
theorem Body.defines_of_named {body : Body} {name : String} {origin : Origin}
    (hnamed : "" ∉ body.inputs) (horigin : body.origin? name = some origin) :
    body.Defines name origin := by
  cases origin with
  | output index slot => exact defines_of_origin?_eq_output horigin
  | input slot =>
      rcases mem_definitions.mp (mem_definitions_of_origin? horigin) with
        ⟨slot', heq, hslot⟩ | ⟨_, _, _, heq, _⟩
      · cases heq
        refine .input ?_ hslot
        rintro rfl
        exact hnamed (List.mem_of_getElem? hslot)
      · cases heq

theorem Agrees.corresponds {left right : String} (hnamed : ∀ layer ∈ layers, layer.Named)
    (hagrees : Agrees layers left right) : Corresponds layers left right := by
  induction hagrees with
  | here hleft hright hmatch =>
      obtain ⟨hlayer, hlayer'⟩ := hnamed _ List.mem_cons_self
      exact .here (Body.defines_of_named hlayer hleft) (Body.defines_of_named hlayer' hright) hmatch
  | outward hleft hright _ ih =>
      exact .outward (Body.lacks_of_origin?_eq_none hleft) (Body.lacks_of_origin?_eq_none hright)
        (ih fun layer hlayer => hnamed layer (List.mem_cons_of_mem _ hlayer))

mutual

theorem GraphsAgree.graphsMatch {layers : List Layer} {left right : Graph}
    (hrule : ∀ left right, AttributeValue.SamePlain left right → rule.values left right)
    (hnamed : ∀ layer ∈ layers, layer.Named) (hleft : left.body.NamedInputs)
    (hright : right.body.NamedInputs) :
    GraphsAgree rule.graphs layers left right → GraphsMatch rule layers left right
  | .intro partner? hinputs hgraphs houtputs hnodes => by
      have hinner : ∀ layer ∈ (⟨left.body, right.body, partner?⟩ : Layer) :: layers, layer.Named :=
        List.forall_mem_cons.mpr ⟨⟨hleft _ .root, hright _ .root⟩, hnamed⟩
      refine .intro partner? hinputs hgraphs (houtputs.imp fun _ _ => Agrees.corresponds hinner) ?_
      intro index index' node node' hpartner hnode hnode'
      refine NodesAgree.nodesMatch hrule hinner ?_ ?_
        (hnodes index index' node node' hpartner hnode hnode')
      · exact fun graph => hleft.of_carries (List.mem_of_getElem? hnode)
      · exact fun graph => hright.of_carries (List.mem_of_getElem? hnode')

/-- Where each input has a name, nodes that agree match. -/
theorem NodesAgree.nodesMatch {layers : List Layer} {left right : Node}
    (hrule : ∀ left right, AttributeValue.SamePlain left right → rule.values left right)
    (hnamed : ∀ layer ∈ layers, layer.Named)
    (hleft : ∀ graph, left.Carries graph → graph.body.NamedInputs)
    (hright : ∀ graph, right.Carries graph → graph.body.NamedInputs) :
    NodesAgree rule.graphs layers left right → NodesMatch rule layers left right
  | .intro htype hdomain hinputs hnames hvalues => by
      refine .intro htype hdomain
        (hinputs.imp fun _ _ hagrees => Or.inl (hagrees.corresponds hnamed)) hnames ?_
      intro attr hattr attr' hattr' hname
      exact ValuesAgree.valuesMatch hrule hnamed
        (fun graph hgraph => hleft graph ⟨attr, hattr, hgraph⟩)
        (fun graph hgraph => hright graph ⟨attr', hattr', hgraph⟩)
        (hvalues attr hattr attr' hattr' hname)

theorem ValuesAgree.valuesMatch {layers : List Layer} {left right : AttributeValue}
    (hrule : ∀ left right, AttributeValue.SamePlain left right → rule.values left right)
    (hnamed : ∀ layer ∈ layers, layer.Named)
    (hleft : ∀ graph ∈ left.subgraphs, graph.body.NamedInputs)
    (hright : ∀ graph ∈ right.subgraphs, graph.body.NamedInputs) :
    ValuesAgree rule.graphs layers left right → ValuesMatch rule layers left right
  | .plain hvalues => .plain (hrule left right hvalues)
  | .graph hgraph => .graph (GraphsAgree.graphsMatch hrule hnamed (hleft _ List.mem_cons_self)
      (hright _ List.mem_cons_self) hgraph)
  | .graphs hlength hgraphs => .graphs hlength fun place left right hplace hplace' =>
      GraphsAgree.graphsMatch hrule hnamed (hleft left (List.mem_of_getElem? hplace))
        (hright right (List.mem_of_getElem? hplace')) (hgraphs place left right hplace hplace')

end

/-- Where each input has a name, bodies that agree match. -/
theorem BodiesAgree.bodiesMatch {left right : Body} {partner? : Nat → Option Nat}
    (hrule : ∀ left right, AttributeValue.SamePlain left right → rule.values left right)
    (hleft : left.NamedInputs) (hright : right.NamedInputs)
    (hagree : BodiesAgree rule.graphs [] left right partner?) :
    BodiesMatch rule [] left right partner? := by
  have hnamed : ∀ layer ∈ [(⟨left, right, partner?⟩ : Layer)], layer.Named :=
    List.forall_mem_singleton.mpr ⟨hleft _ .root, hright _ .root⟩
  refine ⟨hagree.outputs.imp fun _ _ => Agrees.corresponds hnamed, ?_⟩
  intro index index' node node' hpartner hnode hnode'
  refine (hagree.nodes index index' node node' hpartner hnode hnode').nodesMatch hrule hnamed ?_ ?_
  · exact fun graph => hleft.of_carries (List.mem_of_getElem? hnode)
  · exact fun graph => hright.of_carries (List.mem_of_getElem? hnode')

end Named

end OpGraph
