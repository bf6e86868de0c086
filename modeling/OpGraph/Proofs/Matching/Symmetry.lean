import OpGraph.Proofs.Matching.Tandem

/-!
Agreement from the other side. Two graphs that agree under partners that are one to one, here and
in all graphs nested in them, agree the other way round too, under the inverse. Conversely, where
bodies agree both ways, each side's partners are the inverse of the other's: a search of both in step
meets the same names.
-/

namespace OpGraph

/-- No two left nodes have the same partner. -/
def InjectivePartners (partner? : Nat → Option Nat) : Prop :=
  ∀ left left' right, partner? left = some right → partner? left' = some right → left = left'

open Classical in
/-- The node whose partner this is; if there are several, some one of them. -/
noncomputable def inverse? (partner? : Nat → Option Nat) (right : Nat) : Option Nat :=
  if hpartner : ∃ left, partner? left = some right then some hpartner.choose else none

theorem inverse?_eq_some_iff {partner? : Nat → Option Nat} (hinjective : InjectivePartners partner?)
    {left right : Nat} : inverse? partner? right = some left ↔ partner? left = some right := by
  rw [inverse?]
  constructor
  · intro hinverse
    split at hinverse
    next hpartner =>
      obtain rfl := Option.some.inj hinverse
      exact hpartner.choose_spec
    next => cases hinverse
  · intro hpartner
    have hexists : ∃ left, partner? left = some right := ⟨left, hpartner⟩
    rw [dif_pos hexists, Option.some.injEq]
    exact hinjective _ _ _ hexists.choose_spec hpartner

/-- The partners of one side are the inverse of those of the other one. -/
def InversePartners (partner? partner?' : Nat → Option Nat) : Prop :=
  ∀ left right, partner? left = some right ↔ partner?' right = some left

theorem InversePartners.injective {partner? partner?' : Nat → Option Nat}
    (hinverse : InversePartners partner? partner?') : InjectivePartners partner? := by
  intro left left' right hpartner hpartner'
  have hleft := (hinverse left right).mp hpartner
  rw [(hinverse left' right).mp hpartner'] at hleft
  exact (Option.some.inj hleft).symm

section Swap

/-- The layer with its two sides exchanged. -/
noncomputable def Layer.swap (layer : Layer) : Layer :=
  ⟨layer.right, layer.left, inverse? layer.partner?⟩

variable {rule rule' : GraphRule} {layers : List Layer}

theorem OriginsMatch.swap {partner? : Nat → Option Nat} {origin origin' : Origin}
    (hinjective : InjectivePartners partner?) (hmatch : OriginsMatch partner? origin origin') :
    OriginsMatch (inverse? partner?) origin' origin := by
  cases hmatch with
  | input slot => exact .input slot
  | output slot hpartner => exact .output slot ((inverse?_eq_some_iff hinjective).mpr hpartner)

theorem Agrees.swap {left right : String} (hagrees : Agrees layers left right)
    (hinjective : ∀ layer ∈ layers, InjectivePartners layer.partner?) :
    Agrees (layers.map Layer.swap) right left := by
  induction hagrees with
  | here hleft hright hmatch =>
      exact .here hright hleft (hmatch.swap (hinjective _ List.mem_cons_self))
  | outward hleft hright _ ih =>
      exact .outward hright hleft (ih fun layer hlayer => hinjective layer (.tail _ hlayer))

theorem Agrees.swap_all {lefts rights : List String}
    (hagrees : List.Forall₂ (Agrees layers) lefts rights)
    (hinjective : ∀ layer ∈ layers, InjectivePartners layer.partner?) :
    List.Forall₂ (Agrees (layers.map Layer.swap)) rights lefts :=
  List.Forall₂.flip (hagrees.imp fun _ _ hboth => hboth.swap hinjective)

/-- A rule that asks for partners that are one to one, and what it grants from the other side. -/
def GraphRule.Reverses (rule rule' : GraphRule) : Prop :=
  ∀ left right partner?, rule left right partner? →
    InjectivePartners partner? ∧ rule' right left (inverse? partner?)

mutual

theorem GraphsAgree.swap {layers : List Layer} {left right : Graph} (hrule : rule.Reverses rule')
    (hinjective : ∀ layer ∈ layers, InjectivePartners layer.partner?) :
    GraphsAgree rule layers left right → GraphsAgree rule' (layers.map Layer.swap) right left
  | .intro partner? hinputs hgraphs houtputs hnodes => by
      obtain ⟨hpartners, hgraphs'⟩ := hrule left right partner? hgraphs
      have hinner : ∀ layer ∈ (⟨left.body, right.body, partner?⟩ : Layer) :: layers,
          InjectivePartners layer.partner? := List.forall_mem_cons.mpr ⟨hpartners, hinjective⟩
      refine .intro (inverse? partner?) hinputs.symm hgraphs' (Agrees.swap_all houtputs hinner) ?_
      intro index' index node' node hinverse hnode' hnode
      have hpartner := (inverse?_eq_some_iff hpartners).mp hinverse
      exact NodesAgree.swap hrule hinner (hnodes index index' node node' hpartner hnode hnode')

/-- Nodes that agree under partners that are one to one agree from the other side. -/
theorem NodesAgree.swap {layers : List Layer} {left right : Node} (hrule : rule.Reverses rule')
    (hinjective : ∀ layer ∈ layers, InjectivePartners layer.partner?) :
    NodesAgree rule layers left right → NodesAgree rule' (layers.map Layer.swap) right left
  | .intro htype hdomain hinputs hnames hvalues => by
      refine .intro htype.symm hdomain.symm (Agrees.swap_all hinputs hinjective)
        (fun name => (hnames name).symm) ?_
      intro attr' hattr' attr hattr hname
      exact ValuesAgree.swap hrule hinjective (hvalues attr hattr attr' hattr' hname.symm)

theorem ValuesAgree.swap {layers : List Layer} {left right : AttributeValue}
    (hrule : rule.Reverses rule')
    (hinjective : ∀ layer ∈ layers, InjectivePartners layer.partner?) :
    ValuesAgree rule layers left right → ValuesAgree rule' (layers.map Layer.swap) right left
  | .plain hvalues => .plain hvalues.symm
  | .graph hgraph => .graph (GraphsAgree.swap hrule hinjective hgraph)
  | .graphs hlength hgraphs => .graphs hlength.symm fun place right left hright hleft =>
      GraphsAgree.swap hrule hinjective (hgraphs place left right hleft hright)

end

end Swap

section BothWays

variable {rule rule' : GraphRule} {layers outer outer' : List Layer} {left right : Body}
  {partner? partner?' : Nat → Option Nat}

/-- Where bodies agree both ways, what the left one reaches is the partner of its partner. -/
theorem partner?_of_agree_both (hagree : BodiesAgree rule outer left right partner?)
    (hagree' : BodiesAgree rule outer' right left partner?') (hunique : left.UniqueScopes)
    {index index' : Nat} (hreaches : left.Reaches index)
    (hpartner : partner? index = some index') : partner?' index' = some index := by
  obtain ⟨name, slot, hseeks, horigin⟩ := hreaches.exists_seeks hunique
  obtain ⟨name', htogether⟩ := hseeks.exists_together hagree
  obtain ⟨found, horigin', hfound⟩ := htogether.exists_partner hagree horigin
  rw [hpartner, Option.some.injEq] at hfound
  subst hfound
  obtain ⟨other, hother, hback⟩ := htogether.symm.exists_partner hagree' horigin'
  rw [horigin, Option.some.injEq, Origin.output.injEq] at hother
  exact hother.1 ▸ hback

theorem ValuesAgree.imp {value value' : AttributeValue}
    (himp : ∀ (place : Nat) (graph graph' : Graph), value.subgraphs[place]? = some graph →
      value'.subgraphs[place]? = some graph' → GraphsAgree rule layers graph graph' →
      GraphsAgree rule' layers graph graph')
    (hagree : ValuesAgree rule layers value value') : ValuesAgree rule' layers value value' := by
  cases hagree with
  | plain hsame => exact .plain hsame
  | graph hgraph => exact .graph (himp 0 _ _ rfl rfl hgraph)
  | graphs hlength hgraphs =>
      refine .graphs hlength fun place graph graph' hplace hplace' => ?_
      exact himp place graph graph' hplace hplace' (hgraphs place graph graph' hplace hplace')

/-- Nodes that agree by one rule for the graphs in them agree by another one that is granted for
these graphs. -/
theorem NodesAgree.imp {node node' : Node}
    (himp : ∀ graph graph', node.CarryTogether node' graph graph' →
      GraphsAgree rule layers graph graph' → GraphsAgree rule' layers graph graph')
    (hagree : NodesAgree rule layers node node') : NodesAgree rule' layers node node' := by
  obtain ⟨htype, hdomain, hinputs, hnames, hvalues⟩ := hagree
  refine .intro htype hdomain hinputs hnames fun attr hattr attr' hattr' hname => ?_
  apply ValuesAgree.imp _ (hvalues attr hattr attr' hattr' hname)
  intro place graph graph' hplace hplace'
  exact himp graph graph' ⟨attr, hattr, attr', hattr', hname, place, hplace, hplace'⟩

end BothWays

end OpGraph
