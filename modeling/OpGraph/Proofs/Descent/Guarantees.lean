import OpGraph.Proofs.Descent.Coverage
import OpGraph.Proofs.Descent.Soundness

/-!
What a verdict of equivalence guarantees. The pairs that come with it are of nodes that match,
through all scopes and all graphs nested in them; for functions they are a bijection.
-/

namespace OpGraph

open CompareM

section Roots

variable {options : CompareOptions} {left right : Body} {final : CompareState}

theorem proper_initial (left right : Body) :
    (CompareState.initial left right).stack.Proper left right :=
  ScopeStack.proper_ofBodies left right

/-- At the root there is one layer only. -/
theorem layersAt_root (hextends : (CompareState.initial left right).stack.Extends final.stack) :
    final.stack.layersAt 0 = [⟨left, right, final.stack.root.pairing.partner?⟩] := by
  obtain ⟨hscope, hleft, hright⟩ := root_eq_of_extends hextends
  have hproper := (proper_initial left right).of_extends hextends
  have hparent : final.stack.root.parent = none := by
    cases hparent : final.stack.root.parent with
    | none => rfl
    | some parent =>
        have hlt := hproper.parent_lt hscope hparent
        omega
  rw [ScopeStack.layersAt, ScopeStack.layers_eq hproper hscope, hleft, hright, hparent]
  congr 1

theorem scope?_initial {level : Nat} {scope : Scope}
    (hscope : (CompareState.initial left right).stack.scope? level = some scope) :
    scope = { parent := none, left, right } :=
  List.mem_singleton.mp (List.mem_of_getElem? hscope)

/-- At the root only what the operand defines is found. -/
theorem findsLeft_initial {name : String} {level found : Nat} {origin : Origin}
    (hfinds : (CompareState.initial left right).stack.FindsLeft name level found origin) :
    left.Defines name origin := by
  cases hfinds with
  | here hscope hdefines =>
      rw [scope?_initial hscope] at hdefines
      exact hdefines
  | outward hscope _ hparent _ =>
      rw [scope?_initial hscope] at hparent
      cases hparent

theorem partner?_initial (left right : Body) (level index : Nat) :
    (CompareState.initial left right).stack.partner? level index = none := by
  cases hscope : (CompareState.initial left right).stack.scope? level with
  | none => rw [ScopeStack.partner?, hscope, Option.bind_none]
  | some scope =>
      rw [ScopeStack.partner?_of_scope? hscope, scope?_initial hscope]
      rfl

/-- A comparison of outputs that ends well has paired all nodes that the left operand reaches. -/
theorem exists_partner_of_reaches (hleft : left.Distinct) (hright : right.Distinct)
    (hrun : OutputsRun options (NestedRun options options.depthLimit) 0 left.outputs right.outputs
      (.initial left right) (.ok true) final) {index : Nat} (hreached : left.Reaches index) :
    ∃ index', final.stack.root.pairing.partner? index = some index' := by
  have hgrows := nestedRun_grows options options.depthLimit
  obtain ⟨hscope, _⟩ := root_eq_of_extends (hrun.grows hgrows)
  have hpaired := hrun.paired_of_reaches hleft hright
    (nestedRun_fills options hleft hright options.depthLimit) hgrows (proper_initial left right)
    ⟨_, rfl, rfl, rfl⟩ (fun index hpaired => hpaired (partner?_initial left right 0 index)) hreached
  rw [ScopeStack.Paired, ScopeStack.partner?_of_scope? hscope] at hpaired
  exact Option.ne_none_iff_exists'.mp hpaired

/-- The outputs of two operands are compared well only if the operands agree as the options ask. -/
theorem agreement_of_outputsRun (hoperands : OrderlyOperands left right)
    (hrun : OutputsRun options (NestedRun options options.depthLimit) 0 left.outputs right.outputs
      (.initial left right) (.ok true) final) :
    BodiesAgree options.agreementRule [] left right final.stack.root.pairing.partner? := by
  have hgrows := nestedRun_grows options options.depthLimit
  have hextends := hrun.grows hgrows
  obtain ⟨hscope, hleft, hright⟩ := root_eq_of_extends hextends
  obtain ⟨houtputs, hpairs⟩ := hrun.sound hoperands
    (nestedRun_findsAgreement options hoperands options.depthLimit)
    (nestedRun_reachesOnly options left right options.depthLimit) hgrows
    (proper_initial left right)
  rw [layersAt_root hextends] at houtputs
  refine ⟨houtputs, ?_⟩
  intro index index' node node' hpartner hnode hnode'
  rw [← layersAt_root hextends]
  rw [← ScopeStack.partner?_of_scope? hscope] at hpartner
  exact hpairs hpartner (partner?_initial left right 0 index) hscope (hleft ▸ hnode)
    (hright ▸ hnode')

/-- A comparison of outputs pairs no other nodes at the root than the left operand reaches. -/
theorem reaches_of_partner?
    (hrun : OutputsRun options (NestedRun options options.depthLimit) 0 left.outputs right.outputs
      (.initial left right) (.ok true) final) {index index' : Nat}
    (hpartner : final.stack.root.pairing.partner? index = some index') : left.Reaches index := by
  have hgrows := nestedRun_grows options options.depthLimit
  obtain ⟨hscope, _⟩ := root_eq_of_extends (hrun.grows hgrows)
  have hwithin : ScopeStack.PairsWithin (fun _ index => left.Reaches index)
      (CompareState.initial left right).stack final.stack := by
    refine hrun.pairsWithin (nestedRun_reachesOnly options left right options.depthLimit) hgrows
      (proper_initial left right) ?_ ?_
    · intro level index found other slot scope node name hreached hscope' hnode hneeds hfinds
      rw [scope?_initial hscope'] at hnode
      obtain ⟨used, usedSlot, hused, hdefines⟩ := hreached
      exact ⟨name, slot, hused.of_node hdefines hnode hneeds, findsLeft_initial hfinds⟩
    · intro name hname found other slot hfinds
      exact ⟨name, slot, .output hname, findsLeft_initial hfinds⟩
  rw [← ScopeStack.partner?_of_scope? hscope] at hpartner
  exact hwithin hpartner (partner?_initial left right 0 index)

/-- The pairs that a comparison of outputs makes at the root are those of the nodes that the left
operand reaches. -/
theorem CompareM.OrderlyOperands.reachedPartners (hoperands : OrderlyOperands left right)
    (hrun : OutputsRun options (NestedRun options options.depthLimit) 0 left.outputs right.outputs
      (.initial left right) (.ok true) final) :
    ReachedPartners left right final.stack.root.pairing.partner? := by
  have hgrows := nestedRun_grows options options.depthLimit
  obtain ⟨hscope, hleft, hright⟩ := root_eq_of_extends (hrun.grows hgrows)
  constructor
  · intro index index' hpartner
    rw [← hleft, ← hright]
    exact hrun.inRangeAt (initial_inRangeAt left right 0) _ hscope index index' hpartner
  · intro index
    constructor
    · rintro ⟨index', hpartner⟩
      exact reaches_of_partner? hrun hpartner
    · exact exists_partner_of_reaches hoperands.left_distinct hoperands.right_distinct hrun

end Roots

section Operands

variable {options : CompareOptions} {pairing : Pairing}

theorem signatureDifference?_eq_none_iff {left right : Function} :
    signatureDifference? left right = none ↔
      left.inputs.length = right.inputs.length ∧
        sameNames left.parameters right.parameters = true ∧
        sameImports left.opsetImports right.opsetImports = true ∧
        left.nodes.length = right.nodes.length := by
  unfold signatureDifference?
  by_cases hinputs : left.inputs.length = right.inputs.length
  · cases hnames : sameNames left.parameters right.parameters with
    | false => simp [hinputs]
    | true => cases himports : sameImports left.opsetImports right.opsetImports <;> simp [hinputs]
  · simp [hinputs]

/-- Two bodies agree as the options ask, under partners of the nodes that the left one reaches. -/
structure Body.Agreement (options : CompareOptions) (left right : Body)
    (partner? : Nat → Option Nat) : Prop where
  partners : ReachedPartners left right partner?
  agree : BodiesAgree options.agreementRule [] left right partner?

theorem Body.Agreement.bodiesAgree {left right : Body} {partner? : Nat → Option Nat}
    (hagree : left.Agreement options right partner?) :
    BodiesAgree comparedRule.graphs [] left right partner? :=
  hagree.agree.weaken fun _ _ _ => And.left

/-- Two operands agree as the options ask. -/
structure Operands.Agreement (options : CompareOptions) (operands : Operands)
    (partner? : Nat → Option Nat) : Prop where
  opening : operands.openingRule? = none
  bodies : operands.left.Agreement options operands.right partner?
  cover : operands.pairsAllNodes options = true →
    NodeCover partner? operands.left.nodes.length operands.right.nodes.length

/-- Operands that are found equivalent agree under the pairs of their nodes. -/
theorem Operands.agreement_of_compare {operands : Operands} (hwell : operands.WellFormed)
    (hacyclic : operands.left.AcyclicScopes)
    (hcompare : operands.compare options = .ok (.equivalent pairing)) :
    operands.Agreement options pairing.partner? := by
  obtain ⟨hopening, final, houtputs, rfl, _⟩ := Operands.outputs_of_compare hcompare
  have hoperands : OrderlyOperands operands.left operands.right :=
    ⟨hwell.left_distinct, hwell.right_distinct, hacyclic⟩
  exact ⟨hopening,
    ⟨hoperands.reachedPartners houtputs, agreement_of_outputsRun hoperands houtputs⟩,
    fun hall => Operands.cover_of_compare hall hcompare⟩

/-- The pairs of two functions that are found equivalent are of nodes that match, and take part of
all nodes one to one. -/
theorem Function.compare_sound {left right : Function} (hleft : left.checkWellFormed = .ok ())
    (hright : right.checkWellFormed = .ok ()) (hnamed : left.body.NamedInputs)
    (hnamed' : right.body.NamedInputs) (hacyclic : left.body.AcyclicScopes)
    (hcompare : left.compare options right = .ok (.equivalent pairing)) :
    NodeBijection pairing.partner? left.nodes.length right.nodes.length ∧
      BodiesMatch comparedRule [] left.body right.body pairing.partner? := by
  obtain ⟨hsignature, hbodies, hcover⟩ :=
    @Operands.agreement_of_compare _ _ (.functions left right) ⟨hleft, hright⟩ hacyclic hcompare
  obtain ⟨_, _, _, hnodes⟩ := signatureDifference?_eq_none_iff.mp hsignature
  exact ⟨(Pairing.bijection_iff_of_cover (hcover rfl)).mpr hnodes,
    hbodies.bodiesAgree.bodiesMatch (fun _ _ => id) hnamed hnamed'⟩

/-- A choice between two graphs that use a value computed outside of them. -/
def Function.choice : Function where
  inputs := ["c", "x"]
  outputs := ["y"]
  nodes := [
    { opType := "Relu", inputs := ["x"], outputs := ["a"] },
    { opType := "If", inputs := ["c"], outputs := ["y"]
      attributes := [
        ⟨"then_branch", .graph
          { nodes := [{ opType := "Add", inputs := ["a", "x"], outputs := ["t"] }]
            outputs := ["t"] }⟩,
        ⟨"else_branch", .graph
          { nodes := [{ opType := "Neg", inputs := ["a"], outputs := ["e"] }]
            outputs := ["e"] }⟩] }]

/-- The same choice with other names, and with nodes and attributes in another order. -/
def Function.renamedChoice : Function where
  inputs := ["p", "v"]
  outputs := ["out"]
  nodes := [
    { opType := "If", inputs := ["p"], outputs := ["out"]
      attributes := [
        ⟨"else_branch", .graph
          { nodes := [{ opType := "Neg", inputs := ["r"], outputs := ["a"] }]
            outputs := ["a"] }⟩,
        ⟨"then_branch", .graph
          { nodes := [{ opType := "Add", inputs := ["r", "v"], outputs := ["a"] }]
            outputs := ["a"] }⟩] },
    { opType := "Relu", inputs := ["v"], outputs := ["r"] }]

/-- The two choices match, though a nested comparison is the first to pair the nodes around it. -/
theorem Function.compare_sound_choice : ∃ pairing : Pairing,
    Function.choice.compare {} Function.renamedChoice = .ok (.equivalent pairing) ∧
      pairing.partner? 0 = some 1 ∧ pairing.partner? 1 = some 0 ∧
      NodeBijection pairing.partner? 2 2 ∧
      BodiesMatch comparedRule [] Function.choice.body Function.renamedChoice.body
        pairing.partner? := by
  have hcompare : Function.choice.compare {} Function.renamedChoice =
      .ok (.equivalent ⟨[(0, 1), (1, 0)], by decide⟩) := rfl
  have hleft : Function.choice.checkWellFormed = .ok () := rfl
  have hright : Function.renamedChoice.checkWellFormed = .ok () := rfl
  exact ⟨_, hcompare, rfl, rfl, Function.compare_sound hleft hright
    (Body.namedInputs_of_scopes rfl) (Body.namedInputs_of_scopes rfl)
    (Body.acyclicScopes_of_inOrder rfl) hcompare⟩

/-- Two graphs that are found equivalent agree under the pairs of their nodes, and these are of the
nodes that the left one reaches. -/
theorem Graph.agree_of_compare {left right : Graph} (hleft : left.checkWellFormed = .ok ())
    (hright : right.checkWellFormed = .ok ()) (hacyclic : left.body.AcyclicScopes)
    (hcompare : left.compare options right = .ok (.equivalent pairing)) :
    left.inputs.length = right.inputs.length ∧
      comparedRule.graphs left right pairing.partner? ∧
      BodiesAgree comparedRule.graphs [] left.body right.body pairing.partner? := by
  obtain ⟨hheader, hbodies, _⟩ :=
    @Operands.agreement_of_compare _ _ (.graphs left right) ⟨hleft, hright⟩ hacyclic hcompare
  obtain ⟨hinputs, hbare, hbare'⟩ := headerDifference?_eq_none_iff.mp hheader
  exact ⟨hinputs, ⟨hbare, hbare', hbodies.partners⟩, hbodies.bodiesAgree⟩

/-- The pairs of two graphs that are found equivalent are of nodes that match, and take part of the
nodes that the left one reaches. -/
theorem Graph.bodiesMatch_of_compare {left right : Graph} (hleft : left.checkWellFormed = .ok ())
    (hright : right.checkWellFormed = .ok ()) (hnamed : left.body.NamedInputs)
    (hnamed' : right.body.NamedInputs) (hacyclic : left.body.AcyclicScopes)
    (hcompare : left.compare options right = .ok (.equivalent pairing)) :
    GraphsMatch comparedRule [] left right ∧
      BodiesMatch comparedRule [] left.body right.body pairing.partner? := by
  obtain ⟨hinputs, hrule, hagree⟩ := Graph.agree_of_compare hleft hright hacyclic hcompare
  have hmatch := hagree.bodiesMatch (fun _ _ => id) hnamed hnamed'
  exact ⟨graphsMatch_iff.mpr ⟨hinputs, _, hrule, hmatch⟩, hmatch⟩

end Operands

end OpGraph
