import OpGraph.Proofs.Scoping.Nesting
import Mathlib.Data.List.Forall2

/-!
When two graphs are the same up to the names of values and the order of nodes. In each scope some
nodes of the left body have partners in the right one. Two names correspond if they are defined at
the same level, as the same input or as the same output of partners; partners agree in all that
makes up a node, and the graphs that they carry match in turn, inside of the scopes around them.
-/

namespace OpGraph

/-- One level of nesting: two bodies, and the partners of left nodes among the right ones. -/
structure Layer where
  left : Body
  right : Body
  partner? : Nat → Option Nat

/-- Two places are the same input, or the same output of partners. -/
inductive OriginsMatch (partner? : Nat → Option Nat) : Origin → Origin → Prop where
  | input (slot : Nat) : OriginsMatch partner? (.input slot) (.input slot)
  | output {index index' : Nat} (slot : Nat) : partner? index = some index' →
      OriginsMatch partner? (.output index slot) (.output index' slot)

/-- Two names correspond in nested layers, the innermost of which comes first: the first layer that
defines one of them defines both, at places that match. -/
inductive Corresponds : List Layer → String → String → Prop where
  | here {layer : Layer} {outer : List Layer} {left right : String} {origin origin' : Origin} :
      layer.left.Defines left origin → layer.right.Defines right origin' →
      OriginsMatch layer.partner? origin origin' → Corresponds (layer :: outer) left right
  | outward {layer : Layer} {outer : List Layer} {left right : String} :
      layer.left.Lacks left → layer.right.Lacks right → Corresponds outer left right →
      Corresponds (layer :: outer) left right

/-- What counts as the same beside the correspondence of names. -/
structure MatchRule where
  /-- For values of attributes that are no graphs. -/
  values : AttributeValue → AttributeValue → Prop
  /-- Whether an omitted input matches an omitted one. -/
  omissions : Prop
  /-- For two graphs with the partners of the left nodes. -/
  graphs : Graph → Graph → (Nat → Option Nat) → Prop

/-- Two inputs correspond, or both are omitted and this is allowed. -/
def InputsMatch (rule : MatchRule) (layers : List Layer) (left right : String) : Prop :=
  Corresponds layers left right ∨ rule.omissions ∧ left = "" ∧ right = ""

mutual

/-- Two graphs match inside of the given layers. -/
inductive GraphsMatch (rule : MatchRule) : List Layer → Graph → Graph → Prop where
  | intro {outer : List Layer} {left right : Graph} (partner? : Nat → Option Nat) :
      left.inputs.length = right.inputs.length → rule.graphs left right partner? →
      List.Forall₂ (Corresponds (⟨left.body, right.body, partner?⟩ :: outer))
        left.outputs right.outputs →
      (∀ (index index' : Nat) (node node' : Node), partner? index = some index' →
        left.nodes[index]? = some node → right.nodes[index']? = some node' →
          NodesMatch rule (⟨left.body, right.body, partner?⟩ :: outer) node node') →
      GraphsMatch rule outer left right

/-- Two nodes match: operation, domain, inputs, and the attributes by name. -/
inductive NodesMatch (rule : MatchRule) : List Layer → Node → Node → Prop where
  | intro {layers : List Layer} {left right : Node} :
      left.opType = right.opType → left.domain = right.domain →
      List.Forall₂ (InputsMatch rule layers) left.inputs right.inputs →
      (∀ name, name ∈ left.attributes.map Attribute.name ↔
        name ∈ right.attributes.map Attribute.name) →
      (∀ attr ∈ left.attributes, ∀ attr' ∈ right.attributes, attr.name = attr'.name →
        ValuesMatch rule layers attr.value attr'.value) →
      NodesMatch rule layers left right

/-- Two values of attributes match; graphs one by one. -/
inductive ValuesMatch (rule : MatchRule) :
    List Layer → AttributeValue → AttributeValue → Prop where
  | plain {layers : List Layer} {left right : AttributeValue} : rule.values left right →
      ValuesMatch rule layers left right
  | graph {layers : List Layer} {left right : Graph} : GraphsMatch rule layers left right →
      ValuesMatch rule layers (.graph left) (.graph right)
  | graphs {layers : List Layer} {lefts rights : List Graph} : lefts.length = rights.length →
      (∀ (place : Nat) (left right : Graph), lefts[place]? = some left →
        rights[place]? = some right →
        GraphsMatch rule layers left right) →
      ValuesMatch rule layers (.graphs lefts) (.graphs rights)

end

/-- The outputs of two bodies correspond, and partners match. -/
structure BodiesMatch (rule : MatchRule) (outer : List Layer) (left right : Body)
    (partner? : Nat → Option Nat) : Prop where
  outputs : List.Forall₂ (Corresponds (⟨left, right, partner?⟩ :: outer)) left.outputs right.outputs
  nodes : ∀ (index index' : Nat) (node node' : Node), partner? index = some index' →
    left.nodes[index]? = some node → right.nodes[index']? = some node' →
      NodesMatch rule (⟨left, right, partner?⟩ :: outer) node node'

theorem graphsMatch_iff {rule : MatchRule} {outer : List Layer} {left right : Graph} :
    GraphsMatch rule outer left right ↔
      left.inputs.length = right.inputs.length ∧ ∃ partner?, rule.graphs left right partner? ∧
        BodiesMatch rule outer left.body right.body partner? := by
  constructor
  · rintro ⟨partner?, hinputs, hgraphs, houtputs, hnodes⟩
    exact ⟨hinputs, partner?, hgraphs, houtputs, hnodes⟩
  · rintro ⟨hinputs, partner?, hgraphs, houtputs, hnodes⟩
    exact .intro partner? hinputs hgraphs houtputs hnodes

/-- Of two lists of the same length, the second has a place if the first has it. -/
theorem exists_getElem?_of_length_eq {α β : Type} {lefts : List α} {rights : List β} {place : Nat}
    {left : α} (hlength : lefts.length = rights.length) (hleft : lefts[place]? = some left) :
    ∃ right, rights[place]? = some right := by
  obtain ⟨hlt, _⟩ := List.getElem?_eq_some_iff.mp hleft
  exact ⟨rights.get ⟨place, hlength ▸ hlt⟩, List.getElem?_eq_getElem _⟩

/-- Two lists correspond one by one exactly if they do so at each place. -/
theorem forall₂_iff_getElem? {α β : Type} {same : α → β → Prop} {lefts : List α}
    {rights : List β} :
    List.Forall₂ same lefts rights ↔ lefts.length = rights.length ∧
      ∀ (place : Nat) (left : α) (right : β), lefts[place]? = some left →
        rights[place]? = some right → same left right := by
  rw [List.forall₂_iff_get]
  refine and_congr_right fun hlength => ⟨fun hget place left right hleft hright => ?_,
    fun hsame place hplace hplace' => ?_⟩
  · obtain ⟨hplace, rfl⟩ := List.getElem?_eq_some_iff.mp hleft
    obtain ⟨hplace', rfl⟩ := List.getElem?_eq_some_iff.mp hright
    exact hget place hplace hplace'
  · exact hsame place _ _ (List.getElem?_eq_getElem hplace) (List.getElem?_eq_getElem hplace')

/-- A map between the nodes of two bodies that takes part of all of them, one to one. -/
structure NodeBijection (partner? : Nat → Option Nat) (leftCount rightCount : Nat) : Prop where
  in_range : ∀ left right, partner? left = some right → left < leftCount ∧ right < rightCount
  total : ∀ left < leftCount, ∃ right, partner? left = some right
  injective : ∀ left left' right, partner? left = some right → partner? left' = some right →
    left = left'
  onto : ∀ right < rightCount, ∃ left, partner? left = some right

/-- The graph has no initializers, dense or sparse. -/
def Graph.Bare (graph : Graph) : Prop := graph.initializers = [] ∧ graph.sparseInitializers = []

theorem Binary.numericEq_symm {format : BinaryFormat} {value value' : Binary format}
    (hequal : value.numericEq value' = true) : value'.numericEq value = true := by
  cases value with
  | nan => cases hequal
  | ranked negative rank =>
      cases value' with
      | nan => cases hequal
      | ranked negative' rank' =>
          simp only [numericEq, Bool.and_eq_true, Bool.or_eq_true, beq_iff_eq] at hequal ⊢
          obtain ⟨rfl, hsign⟩ := hequal
          exact ⟨rfl, hsign.imp_left Eq.symm⟩

namespace AttributeValue

/-- Two values of the same kind, without graphs or opaque payloads, are equal. Floats are compared
as numbers. -/
def SamePlain : AttributeValue → AttributeValue → Prop
  | .reference target kind, .reference target' kind' => target = target' ∧ kind = kind'
  | .int value, .int value' => value = value'
  | .float value, .float value' => value.numericEq value'
  | .string value, .string value' => value = value'
  | .ints values, .ints values' => values = values'
  | .floats values, .floats values' => List.Forall₂ (fun value value' => value.numericEq value')
      values values'
  | .strings values, .strings values' => values = values'
  | _, _ => False

theorem SamePlain.subgraphs_eq_nil {value value' : AttributeValue}
    (hsame : value.SamePlain value') : value.subgraphs = [] := by
  cases value with
  | graph graph => cases value' <;> exact hsame.elim
  | graphs graphs => cases value' <;> exact hsame.elim
  | _ => rfl

theorem SamePlain.symm {value value' : AttributeValue} (hsame : value.SamePlain value') :
    value'.SamePlain value := by
  cases value <;> cases value' <;> try exact hsame.elim
  case float.float => exact Binary.numericEq_symm hsame
  case floats.floats =>
      exact List.Forall₂.flip (hsame.imp fun _ _ hequal => Binary.numericEq_symm hequal)
  case reference.reference => exact ⟨hsame.1.symm, hsame.2.symm⟩
  all_goals exact Eq.symm hsame

end AttributeValue

section Layers

/-- The same bodies with more partners. -/
structure Layer.Extends (layer layer' : Layer) : Prop where
  left : layer'.left = layer.left
  right : layer'.right = layer.right
  partner : ∀ index index', layer.partner? index = some index' →
    layer'.partner? index = some index'

theorem Layer.Extends.refl (layer : Layer) : layer.Extends layer :=
  ⟨rfl, rfl, fun _ _ hpartner => hpartner⟩

theorem OriginsMatch.mono {partner? partner?' : Nat → Option Nat} {origin origin' : Origin}
    (hpartner : ∀ index index', partner? index = some index' → partner?' index = some index')
    (hmatch : OriginsMatch partner? origin origin') : OriginsMatch partner?' origin origin' := by
  cases hmatch with
  | input slot => exact .input slot
  | output slot hindex => exact .output slot (hpartner _ _ hindex)

variable {left right : String}

/-- Names that the search finds in the innermost layer, at places that match, correspond. -/
theorem Corresponds.of_origins {layer : Layer} {outer : List Layer} {origin origin' : Origin}
    (hnames : left ≠ "" ∧ right ≠ "") (hleft : layer.left.origin? left = some origin)
    (hright : layer.right.origin? right = some origin')
    (hmatch : OriginsMatch layer.partner? origin origin') :
    Corresponds (layer :: outer) left right :=
  .here (Body.defines_of_origin? hnames.1 hleft) (Body.defines_of_origin? hnames.2 hright) hmatch

/-- Names that the search finds in none of two bodies correspond if they do further out. -/
theorem Corresponds.of_outer {layer : Layer} {outer : List Layer}
    (hleft : layer.left.origin? left = none) (hright : layer.right.origin? right = none)
    (hcorr : Corresponds outer left right) : Corresponds (layer :: outer) left right :=
  .outward (Body.lacks_of_origin?_eq_none hleft) (Body.lacks_of_origin?_eq_none hright) hcorr

end Layers

end OpGraph
