import OpGraph.Proofs.Descent.Confirmation
import OpGraph.Proofs.Descent.Depth
import OpGraph.Proofs.Matching.Reflexivity
import OpGraph.Proofs.Matching.Tandem

/-!
When a function is found equivalent to itself. The check of well-formedness passes over inputs that
are omitted, but the search for values does not: it looks for a definition of the empty name. So a
function differs from itself if its outputs lead to an omitted input.
-/

namespace OpGraph

open CompareM

section Functions

variable {options : CompareOptions} {pairing : Pairing}

/-- The left one of two functions that are found equivalent has an input without a name, if its
outputs lead to an omitted value. -/
theorem Function.empty_mem_inputs_of_compare {left right : Function}
    (hleft : left.checkWellFormed = .ok ()) (hright : right.checkWellFormed = .ok ())
    (hacyclic : left.body.AcyclicScopes)
    (hcompare : left.compare options right = .ok (.equivalent pairing))
    (hseeks : left.body.Seeks "") : "" ∈ left.inputs := by
  have hagree := (@Operands.agreement_of_compare _ _ (.functions left right) ⟨hleft, hright⟩
    hacyclic hcompare).bodies.bodiesAgree
  obtain ⟨origin, horigin⟩ := hseeks.exists_origin hagree
  by_contra hinput
  have hnone : left.body.origin? "" = none := Body.origin?_empty_eq_none_iff.mpr hinput
  rw [horigin] at hnone
  cases hnone

variable {function : Function}

/-- A well-formed function has all that its outputs lead to, omitted values apart. -/
theorem Function.origin?_ne_none (hcheck : function.checkWellFormed = .ok ())
    (hempty : function.body.Seeks "" → "" ∈ function.inputs) {name : String}
    (hseeks : function.body.Seeks name) : function.body.origin? name ≠ none := by
  intro hnone
  by_cases hname : name = ""
  · subst hname
    exact Body.origin?_empty_eq_none_iff.mp hnone (hempty hseeks)
  · obtain ⟨origin, hdefines⟩ := Function.exists_defines_of_uses hcheck hseeks.needs.uses hname
    exact Body.lacks_of_origin?_eq_none hnone origin hdefines

/-- A function that leads to no omitted value is found equivalent to itself, if there is a verdict,
and each node is its own partner. -/
theorem Function.eq_equivalent_self {verdict : Verdict} (hcheck : function.checkWellFormed = .ok ())
    (hall : options.pairAllNodes = false)
    (hreached : ∀ index < function.nodes.length, function.body.Reaches index)
    (hattributes : function.body.ComparableAttributes)
    (hempty : function.body.Seeks "" → "" ∈ function.inputs)
    (hcompare : function.compare options function = .ok verdict) :
    ∃ pairing, verdict = .equivalent pairing ∧ ∀ index, pairing.partner? index =
      if index < function.nodes.length then some index else none := by
  have hself : ∀ index, function.body.selfPartner? index =
      if index < function.nodes.length then some index else none := by
    intro index
    split
    next hindex => exact Body.selfPartner?_eq_some_iff.mpr ⟨hreached index hindex, rfl⟩
    next hindex =>
      rw [Option.eq_none_iff_forall_ne_some]
      exact fun index' hpartner => hindex (Body.selfPartner?_in_range hpartner).1
  have hcover : NodeCover function.body.selfPartner? function.nodes.length
      function.nodes.length := by
    refine ⟨fun _ _ => Body.selfPartner?_in_range, fun index hindex => ⟨index, ?_⟩,
      fun index hindex => ⟨index, ?_⟩⟩
    · rw [hself, if_pos hindex]
    · rw [hself, if_pos hindex]
  have hsame : function.SameSignature function := ⟨rfl, fun _ => Iff.rfl, fun _ => Iff.rfl⟩
  have hagree : BodiesAgree ConfirmableGraphs [] function.body function.body
      function.body.selfPartner? := by
    apply Body.bodiesAgree_self (Function.distinct_of_checkWellFormed hcheck) hattributes
    intro name hseeks hnone
    exact absurd hnone (Function.origin?_ne_none hcheck hempty hseeks)
  have hpartners : ∀ index index', function.body.selfPartner? index = some index' →
      function.body.Reaches index :=
    fun index _ hpartner => hreached index (hcover.in_range _ _ hpartner).1
  obtain ⟨pairing, hequivalent, hpairs⟩ := @Operands.eq_equivalent_of_bodiesAgree _ _ _ _
    (.functions function function) ⟨hcheck, hcheck⟩ (confirmableGraphs_confirmedBy hall)
    (hsame.difference?_eq_none hcheck hcheck rfl) hcover.in_range
    (fun _ => ⟨hcover, hpartners⟩) hagree hcompare
  exact ⟨pairing, hequivalent, fun index => (hpairs hpartners index).trans (hself index)⟩

/-- A function all nodes of which are reached, whose attributes can be found equal, is found
equivalent to itself, each node being its own partner, whenever enough nesting is allowed: exactly if
its outputs lead to no omitted value, or an input without a name stands for it. -/
theorem Function.compare_self_iff (hcheck : function.checkWellFormed = .ok ())
    (hacyclic : function.body.AcyclicScopes)
    (hreached : ∀ index < function.nodes.length, function.body.Reaches index)
    (hattributes : function.body.ComparableAttributes) :
    (∃ bound, ∀ options : CompareOptions, options.pairAllNodes = false →
      bound ≤ options.depthLimit →
      ∃ pairing : Pairing, function.compare options function = .ok (.equivalent pairing) ∧
        ∀ index, pairing.partner? index =
          if index < function.nodes.length then some index else none) ↔
      (function.body.Seeks "" → "" ∈ function.inputs) := by
  constructor
  · rintro ⟨bound, hcompares⟩ hseeks
    obtain ⟨pairing, hcompare, _⟩ := hcompares { depthLimit := bound } rfl (Nat.le_refl bound)
    exact Function.empty_mem_inputs_of_compare hcheck hcheck hacyclic hcompare hseeks
  · intro hempty
    obtain ⟨bound, hbound⟩ := Body.exists_nestsWithin hacyclic
    refine ⟨bound, fun options hall hlimit => ?_⟩
    have hwell : (Operands.functions function function).WellFormed := ⟨hcheck, hcheck⟩
    obtain ⟨verdict, hcompare⟩ : ∃ verdict, function.compare options function = .ok verdict :=
      Operands.exists_verdict hwell.check hacyclic fun name hname =>
        (hbound name hname).mono hlimit
    obtain ⟨pairing, rfl, hpairs⟩ :=
      Function.eq_equivalent_self hcheck hall hreached hattributes hempty hcompare
    exact ⟨pairing, hcompare, hpairs⟩

/-- The loop seeks no empty name, and is found equivalent to itself. -/
theorem Function.compare_self_iff_loop : ∃ bound, ∀ options : CompareOptions,
    options.pairAllNodes = false → bound ≤ options.depthLimit →
    ∃ pairing : Pairing,
      Function.loop.compare options Function.loop = .ok (.equivalent pairing) ∧
        ∀ index, pairing.partner? index = if index < 2 then some index else none := by
  have hempty : ¬ Function.loop.body.Seeks "" := by
    intro hseeks
    rcases hseeks.needs.uses with houtput | ⟨node, hnode, hmentions⟩
    · revert houtput
      decide
    · have hmentioned : "" ∈ mentionedByNodes Function.loop.nodes := by
        rw [mentionedByNodes_eq]
        exact List.mem_flatMap.mpr ⟨node, hnode, hmentions.mem_mentioned⟩
      revert hmentioned
      decide
  exact (Function.compare_self_iff rfl (Body.acyclicScopes_of_inOrder rfl) reaches_loop
    (Body.comparable_of_scopes rfl).attributes).mpr fun hseeks => absurd hseeks hempty

/-- A node with an omitted input. -/
def Function.dropout : Function where
  inputs := ["x"]
  outputs := ["y"]
  nodes := [{ opType := "Dropout", inputs := ["x", ""], outputs := ["y"] }]

/-- A well-formed function with an omitted input differs from itself, however much nesting is
allowed. -/
theorem Function.compare_dropout_self :
    Function.dropout.checkWellFormed = .ok () ∧ Function.dropout.body.AcyclicScopes ∧
      (∀ index < Function.dropout.nodes.length, Function.dropout.body.Reaches index) ∧
      Function.dropout.body.ComparableAttributes ∧
      Function.dropout.compare {} Function.dropout = .ok (.different none) ∧
      ∀ options pairing,
        Function.dropout.compare options Function.dropout ≠ .ok (.equivalent pairing) := by
  have hacyclic : Function.dropout.body.AcyclicScopes := Body.acyclicScopes_of_inOrder rfl
  have horigin : Function.dropout.body.origin? "y" = some (.output 0 0) := rfl
  have hempty : Function.dropout.body.Seeks "" :=
    .input (.output List.mem_cons_self) horigin rfl (List.mem_cons_of_mem _ List.mem_cons_self)
  have hplain : ∀ scope, Function.dropout.body.HasScope scope → ∀ node ∈ scope.nodes,
      node.attributes = [] := by
    intro scope hscope node hnode
    obtain rfl := List.mem_singleton.mp hscope.mem_scopes
    obtain rfl := List.mem_singleton.mp hnode
    rfl
  refine ⟨rfl, hacyclic, ?_, ⟨?_, ?_⟩, rfl, ?_⟩
  · intro index hindex
    obtain rfl : index = 0 := Nat.lt_one_iff.mp hindex
    exact ⟨"y", 0, .output List.mem_cons_self, Body.defines_of_origin?_eq_output horigin⟩
  · intro scope hscope node hnode attr hattr
    rw [hplain scope hscope node hnode] at hattr
    cases hattr
  · rintro scope hscope node hnode graph ⟨attr, hattr, _⟩
    rw [hplain scope hscope node hnode] at hattr
    cases hattr
  · intro options pairing hcompare
    have hinput := Function.empty_mem_inputs_of_compare rfl rfl hacyclic hcompare hempty
    revert hinput
    decide

end Functions

end OpGraph
