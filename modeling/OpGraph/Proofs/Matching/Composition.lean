import OpGraph.Proofs.Matching.ReachedNodes

/-!
Agreement step by step. If a first body agrees with a second one, and this with a third one, the first
agrees with the third under the partners of partners, here and in all graphs nested in them. None of
the first partners lacks one in turn: they are nodes that the second body reaches.
-/

namespace OpGraph

/-- The partners of partners. -/
def composed (first? second? : Nat → Option Nat) (index : Nat) : Option Nat :=
  (first? index).bind second?

theorem composed_eq_some_iff {first? second? : Nat → Option Nat} {index index' : Nat} :
    composed first? second? index = some index' ↔
      ∃ middle, first? index = some middle ∧ second? middle = some index' :=
  Option.bind_eq_some_iff

section Values

theorem Binary.numericEq_trans {format : BinaryFormat} {first second third : Binary format}
    (hequal : first.numericEq second = true) (hequal' : second.numericEq third = true) :
    first.numericEq third = true := by
  cases first with
  | nan => cases hequal
  | ranked negative rank =>
      cases second with
      | nan => cases hequal
      | ranked negative' rank' =>
          cases third with
          | nan => cases hequal'
          | ranked negative'' rank'' =>
              simp only [numericEq, Bool.and_eq_true, Bool.or_eq_true, beq_iff_eq] at *
              obtain ⟨rfl, hsign⟩ := hequal
              obtain ⟨rfl, hsign'⟩ := hequal'
              refine ⟨rfl, ?_⟩
              rcases hsign with rfl | hzero
              · exact hsign'
              · exact Or.inr hzero

theorem forall₂_comp {α β γ : Type} {first : α → β → Prop} {second : β → γ → Prop}
    {both : α → γ → Prop} (hboth : ∀ left middle right, first left middle → second middle right →
      both left right) {lefts : List α} {middles : List β} {rights : List γ}
    (hfirst : List.Forall₂ first lefts middles) (hsecond : List.Forall₂ second middles rights) :
    List.Forall₂ both lefts rights := by
  induction hfirst generalizing rights with
  | nil =>
      cases hsecond
      exact .nil
  | cons hhead _ ih =>
      cases hsecond with
      | cons hhead' htail' => exact .cons (hboth _ _ _ hhead hhead') (ih htail')

theorem AttributeValue.SamePlain.trans {first second third : AttributeValue}
    (hsame : first.SamePlain second) (hsame' : second.SamePlain third) : first.SamePlain third := by
  cases first <;> cases second <;> try exact hsame.elim
  all_goals cases third <;> try exact hsame'.elim
  case float.float.float => exact Binary.numericEq_trans hsame hsame'
  case floats.floats.floats =>
      exact forall₂_comp (fun _ _ _ => Binary.numericEq_trans) hsame hsame'
  case reference.reference.reference => exact ⟨hsame.1.trans hsame'.1, hsame.2.trans hsame'.2⟩
  all_goals exact Eq.trans hsame hsame'

end Values

section Layers

/-- Two layers one after the other: the body in the middle is left out. -/
def Layer.comp (first second : Layer) : Layer :=
  ⟨first.left, second.right, composed first.partner? second.partner?⟩

/-- The second layer goes on where the first one ends. -/
def Layer.Meets (first second : Layer) : Prop := first.right = second.left

variable {layers layers' : List Layer}

theorem OriginsMatch.trans {first? second? : Nat → Option Nat} {left middle right : Origin}
    (hfirst : OriginsMatch first? left middle) (hsecond : OriginsMatch second? middle right) :
    OriginsMatch (composed first? second?) left right := by
  cases hfirst with
  | input slot =>
      cases hsecond with
      | input => exact .input slot
  | output slot hpartner =>
      cases hsecond with
      | output _ hpartner' =>
          exact .output slot (composed_eq_some_iff.mpr ⟨_, hpartner, hpartner'⟩)

theorem Agrees.trans {left middle right : String} (hmeets : List.Forall₂ Layer.Meets layers layers')
    (hfirst : Agrees layers left middle) (hsecond : Agrees layers' middle right) :
    Agrees (List.zipWith Layer.comp layers layers') left right := by
  induction hfirst generalizing layers' with
  | here hleft hmiddle hmatch =>
      rcases hmeets with _ | ⟨hmeet, _⟩
      rw [hmeet] at hmiddle
      rcases hsecond with ⟨hmiddle', hright, hmatch'⟩ | ⟨hnone, _, _⟩
      · rw [hmiddle, Option.some.injEq] at hmiddle'
        subst hmiddle'
        exact .here hleft hright (hmatch.trans hmatch')
      · rw [hmiddle] at hnone
        cases hnone
  | outward hleft hmiddle _ ih =>
      rcases hmeets with _ | ⟨hmeet, houter⟩
      rw [hmeet] at hmiddle
      rcases hsecond with ⟨hmiddle', _, _⟩ | ⟨_, hright, hrest⟩
      · rw [hmiddle] at hmiddle'
        cases hmiddle'
      · exact .outward hleft hright (ih houter hrest)

theorem Agrees.trans_all {lefts middles rights : List String}
    (hmeets : List.Forall₂ Layer.Meets layers layers')
    (hfirst : List.Forall₂ (Agrees layers) lefts middles)
    (hsecond : List.Forall₂ (Agrees layers') middles rights) :
    List.Forall₂ (Agrees (List.zipWith Layer.comp layers layers')) lefts rights :=
  forall₂_comp (fun _ _ _ hboth => hboth.trans hmeets) hfirst hsecond

end Layers

/-- A rule for graphs with partners of the nodes that the left one reaches, which is kept from
partners to partners of partners. -/
structure GraphRule.Composes (rule : GraphRule) : Prop where
  reached : ∀ left right partner?, rule left right partner? →
    ∀ index, (∃ index', partner? index = some index') ↔ left.body.Reaches index
  compose : ∀ left middle right first? second?, rule left middle first? →
    rule middle right second? →
    (∀ index index', first? index = some index' → ∃ other, second? index' = some other) →
    rule left right (composed first? second?)

section Graphs

variable {rule : GraphRule}

/-- Where three bodies agree in turn, the partner of a node has a partner itself. -/
theorem BodiesAgree.exists_next {outer : List Layer} {left middle : Body}
    {first? second? : Nat → Option Nat} (hagree : BodiesAgree rule outer left middle first?)
    (hleft : left.UniqueScopes) (hmiddle : middle.UniqueScopes)
    (hreached : ∀ index, (∃ index', first? index = some index') ↔ left.Reaches index)
    (hreached' : ∀ index, (∃ index', second? index = some index') ↔ middle.Reaches index)
    {index index' : Nat} (hpartner : first? index = some index') :
    ∃ other, second? index' = some other :=
  (hreached' index').mpr
    ((Body.reaches_iff_exists_partner hagree hreached hleft hmiddle index').mp ⟨index, hpartner⟩)

mutual

theorem GraphsAgree.trans {layers layers' : List Layer} {left middle right : Graph}
    (hrule : rule.Composes) (hmeets : List.Forall₂ Layer.Meets layers layers')
    (hleft : left.body.UniqueScopes) (hmiddle : middle.body.UniqueScopes) :
    GraphsAgree rule layers left middle → GraphsAgree rule layers' middle right →
      GraphsAgree rule (List.zipWith Layer.comp layers layers') left right
  | .intro first? hinputs hgraphs houtputs hnodes,
    .intro second? hinputs' hgraphs' houtputs' hnodes' => by
      have hinner : List.Forall₂ Layer.Meets (⟨left.body, middle.body, first?⟩ :: layers)
          (⟨middle.body, right.body, second?⟩ :: layers') := .cons rfl hmeets
      have hagree : BodiesAgree rule layers left.body middle.body first? := ⟨houtputs, hnodes⟩
      have hreached' := hrule.reached _ _ _ hgraphs'
      refine .intro (composed first? second?) (hinputs.trans hinputs')
        (hrule.compose _ _ _ _ _ hgraphs hgraphs' fun index index' => ?_)
        (Agrees.trans_all hinner houtputs houtputs') ?_
      · exact hagree.exists_next hleft hmiddle (hrule.reached _ _ _ hgraphs) hreached'
      intro index index'' node node'' hcomposed hnode hnode''
      obtain ⟨index', hpartner, hpartner'⟩ := composed_eq_some_iff.mp hcomposed
      obtain ⟨_, _, _, hdefines⟩ := (hreached' index').mp ⟨index'', hpartner'⟩
      obtain ⟨node', hnode'⟩ := hdefines.exists_node
      refine NodesAgree.trans hrule hinner ?_ ?_ (hnodes index index' node node' hpartner hnode hnode')
        (hnodes' index' index'' node' node'' hpartner' hnode' hnode'')
      · exact fun graph => hleft.of_carries (List.mem_of_getElem? hnode)
      · exact fun graph => hmiddle.of_carries (List.mem_of_getElem? hnode')

/-- Nodes that agree in turn agree under the partners of partners. -/
theorem NodesAgree.trans {layers layers' : List Layer} {left middle right : Node}
    (hrule : rule.Composes) (hmeets : List.Forall₂ Layer.Meets layers layers')
    (hleft : ∀ graph, left.Carries graph → graph.body.UniqueScopes)
    (hmiddle : ∀ graph, middle.Carries graph → graph.body.UniqueScopes) :
    NodesAgree rule layers left middle → NodesAgree rule layers' middle right →
      NodesAgree rule (List.zipWith Layer.comp layers layers') left right
  | .intro htype hdomain hinputs hnames hvalues,
    .intro htype' hdomain' hinputs' hnames' hvalues' => by
      refine .intro (htype.trans htype') (hdomain.trans hdomain')
        (Agrees.trans_all hmeets hinputs hinputs')
        (fun name => (hnames name).trans (hnames' name)) ?_
      intro attr hattr attr'' hattr'' hname
      obtain ⟨attr', hattr', hname'⟩ :=
        List.mem_map.mp ((hnames attr.name).mp (List.mem_map_of_mem hattr))
      refine ValuesAgree.trans hrule hmeets ?_ ?_ (hvalues attr hattr attr' hattr' hname'.symm)
        (hvalues' attr' hattr' attr'' hattr'' (hname'.trans hname))
      · exact fun graph hgraph => hleft graph ⟨attr, hattr, hgraph⟩
      · exact fun graph hgraph => hmiddle graph ⟨attr', hattr', hgraph⟩

theorem ValuesAgree.trans {layers layers' : List Layer} {left middle right : AttributeValue}
    (hrule : rule.Composes) (hmeets : List.Forall₂ Layer.Meets layers layers')
    (hleft : ∀ graph ∈ left.subgraphs, graph.body.UniqueScopes)
    (hmiddle : ∀ graph ∈ middle.subgraphs, graph.body.UniqueScopes) :
    ValuesAgree rule layers left middle → ValuesAgree rule layers' middle right →
      ValuesAgree rule (List.zipWith Layer.comp layers layers') left right
  | .plain hsame, .plain hsame' => .plain (hsame.trans hsame')
  | .plain hsame, .graph _ => by cases left <;> exact hsame.elim
  | .plain hsame, .graphs _ _ => by cases left <;> exact hsame.elim
  | .graph _, .plain hsame' => by cases right <;> exact hsame'.elim
  | .graphs _ _, .plain hsame' => by cases right <;> exact hsame'.elim
  | .graph hgraph, .graph hgraph' =>
      .graph (GraphsAgree.trans hrule hmeets (hleft _ List.mem_cons_self)
        (hmiddle _ List.mem_cons_self) hgraph hgraph')
  | .graphs hlength hgraphs, .graphs hlength' hgraphs' => by
      refine .graphs (hlength.trans hlength') fun place left right hplace hplace'' => ?_
      obtain ⟨middle, hplace'⟩ := exists_getElem?_of_length_eq hlength hplace
      exact GraphsAgree.trans hrule hmeets (hleft left (List.mem_of_getElem? hplace))
        (hmiddle middle (List.mem_of_getElem? hplace'))
        (hgraphs place left middle hplace hplace') (hgraphs' place middle right hplace' hplace'')

end

/-- Bodies that agree in turn agree under the partners of partners. -/
theorem BodiesAgree.trans {left middle right : Body} {first? second? : Nat → Option Nat}
    (hrule : rule.Composes) (hleft : left.UniqueScopes) (hmiddle : middle.UniqueScopes)
    (hreached : ∀ index, (∃ index', second? index = some index') ↔ middle.Reaches index)
    (hfirst : BodiesAgree rule [] left middle first?)
    (hsecond : BodiesAgree rule [] middle right second?) :
    BodiesAgree rule [] left right (composed first? second?) := by
  have hmeets : List.Forall₂ Layer.Meets [⟨left, middle, first?⟩] [⟨middle, right, second?⟩] :=
    .cons rfl .nil
  refine ⟨Agrees.trans_all hmeets hfirst.outputs hsecond.outputs, ?_⟩
  intro index index'' node node'' hcomposed hnode hnode''
  obtain ⟨index', hpartner, hpartner'⟩ := composed_eq_some_iff.mp hcomposed
  obtain ⟨_, _, _, hdefines⟩ := (hreached index').mp ⟨index'', hpartner'⟩
  obtain ⟨node', hnode'⟩ := hdefines.exists_node
  refine NodesAgree.trans hrule hmeets ?_ ?_
    (hfirst.nodes index index' node node' hpartner hnode hnode')
    (hsecond.nodes index' index'' node' node'' hpartner' hnode' hnode'')
  · exact fun graph => hleft.of_carries (List.mem_of_getElem? hnode)
  · exact fun graph => hmiddle.of_carries (List.mem_of_getElem? hnode')

end Graphs

end OpGraph
