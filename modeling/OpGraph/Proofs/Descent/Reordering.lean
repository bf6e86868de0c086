import OpGraph.Proofs.Descent.Characterization
import OpGraph.Proofs.Matching.Reordering

/-!
The order in which a comparison goes through its operands does not decide its verdict. The attributes
of nodes, at any depth, may stand in any order, and the outputs of both operands in any common one:
well-formed operands without cyclic dependencies are found equivalent under the same pairs, or are
found to differ, as before. What is met first, and so which difference is recorded and how deep the
comparison goes, may change.
-/

namespace OpGraph

open CompareM

/-- Both comparisons find the operands equivalent under the same pairs, or both find that they
differ. -/
inductive SameAnswer : Except NoVerdict Verdict → Except NoVerdict Verdict → Prop where
  | equivalent {pairing pairing' : Pairing} :
      (∀ index, pairing'.partner? index = pairing.partner? index) →
      SameAnswer (.ok (.equivalent pairing)) (.ok (.equivalent pairing'))
  | different {difference difference' : Option Difference} :
      SameAnswer (.ok (.different difference)) (.ok (.different difference'))

/-- Two comparisons that come to a verdict have the same answer if either one's equivalence is shared by
the other. -/
theorem SameAnswer.of_equivalent {result result' : Except NoVerdict Verdict}
    (hends : ∃ verdict, result = .ok verdict) (hends' : ∃ verdict', result' = .ok verdict')
    (hforth : ∀ pairing, result = .ok (.equivalent pairing) →
      ∃ pairing', result' = .ok (.equivalent pairing') ∧
        ∀ index, pairing'.partner? index = pairing.partner? index)
    (hback : ∀ pairing', result' = .ok (.equivalent pairing') →
      ∃ pairing, result = .ok (.equivalent pairing) ∧
        ∀ index, pairing.partner? index = pairing'.partner? index) :
    SameAnswer result result' := by
  obtain ⟨verdict, rfl⟩ := hends
  obtain ⟨verdict', rfl⟩ := hends'
  cases verdict with
  | equivalent pairing =>
      obtain ⟨pairing', hresult, hpairs⟩ := hforth pairing rfl
      cases hresult
      exact .equivalent hpairs
  | different difference =>
      cases verdict' with
      | equivalent pairing' =>
          obtain ⟨_, hresult, _⟩ := hback pairing' rfl
          cases hresult
      | different difference' => exact .different

section Orders

variable {options : CompareOptions} {order : Equiv.Perm Nat} {partner? : Nat → Option Nat}

theorem ReachedPartners.reordered {left left' right right' : Body}
    (hpartners : ReachedPartners left right partner?) (hleft : left.Reordered left')
    (hright : right.Reordered right') : ReachedPartners left' right' partner? where
  in_range index index' hpartner := by
    rw [← hleft.nodes.length_eq, ← hright.nodes.length_eq]
    exact hpartners.in_range index index' hpartner
  reached index := (hpartners.reached index).trans hleft.reaches_iff

theorem Graph.Bare.reordered {graph graph' : Graph} (hbare : graph.Bare)
    (hgraph : GraphReordered graph graph') : graph'.Bare := by
  rw [(graphReordered_iff.mp hgraph).1]
  exact hbare

theorem CompareOptions.agreementRule_unordered (options : CompareOptions) :
    options.agreementRule.Unordered := by
  rintro left left' right right' partner? hleft hright ⟨⟨hbare, hbare', hpartners⟩, hcover⟩
  refine ⟨⟨hbare.reordered hleft, hbare'.reordered hright,
    hpartners.reordered hleft.body hright.body⟩, fun hall => ?_⟩
  rw [← (graphReordered_iff.mp hleft).2.length_eq, ← (graphReordered_iff.mp hright).2.length_eq]
  exact hcover hall

namespace Operands

/-- Two operands whose attributes are put into another order, and the outputs of both into one other
order. -/
inductive ReorderedBy (order : Equiv.Perm Nat) : Operands → Operands → Prop where
  | functions {left left' right right' : Function} : left.ReorderedBy order left' →
      right.ReorderedBy order right' →
      ReorderedBy order (.functions left right) (.functions left' right')
  | graphs {left left' right right' : Graph} : left.ReorderedBy order left' →
      right.ReorderedBy order right' → ReorderedBy order (.graphs left right) (.graphs left' right')

variable {operands operands' : Operands}

namespace ReorderedBy

theorem symm (hreordered : operands.ReorderedBy order operands') :
    operands'.ReorderedBy order.symm operands := by
  cases hreordered with
  | functions hleft hright => exact .functions hleft.symm hright.symm
  | graphs hleft hright => exact .graphs hleft.symm hright.symm

theorem wellFormed (hreordered : operands.ReorderedBy order operands')
    (hwell : operands.WellFormed) : operands'.WellFormed := by
  cases hreordered with
  | functions hleft hright =>
      exact ⟨hleft.checkWellFormed hwell.1, hright.checkWellFormed hwell.2⟩
  | graphs hleft hright =>
      exact ⟨hleft.checkWellFormed hwell.1, hright.checkWellFormed hwell.2⟩

theorem left (hreordered : operands.ReorderedBy order operands') :
    operands.left.Reordered operands'.left := by
  cases hreordered with
  | functions hleft _ => exact hleft.body
  | graphs hleft _ => exact hleft.body

theorem right (hreordered : operands.ReorderedBy order operands') :
    operands.right.Reordered operands'.right := by
  cases hreordered with
  | functions _ hright => exact hright.body
  | graphs _ hright => exact hright.body

theorem outputs (hreordered : operands.ReorderedBy order operands') (place : Nat) :
    operands'.left.outputs[place]? = operands.left.outputs[order place]? ∧
      operands'.right.outputs[place]? = operands.right.outputs[order place]? := by
  cases hreordered with
  | functions hleft hright => exact ⟨hleft.outputs place, hright.outputs place⟩
  | graphs hleft hright => exact ⟨hleft.outputs place, hright.outputs place⟩

theorem pairsAllNodes_eq (hreordered : operands.ReorderedBy order operands') :
    operands'.pairsAllNodes options = operands.pairsAllNodes options := by
  cases hreordered <;> rfl

theorem openingRule?_eq_none (hreordered : operands.ReorderedBy order operands')
    (hopening : operands.openingRule? = none) : operands'.openingRule? = none := by
  cases hreordered with
  | functions hleft hright =>
      obtain ⟨hinputs, hnames, himports, hnodes⟩ := signatureDifference?_eq_none_iff.mp hopening
      rw [hleft.nodes.length_eq, hright.nodes.length_eq] at hnodes
      apply signatureDifference?_eq_none_iff.mpr
      rw [hleft.rest, hright.rest]
      exact ⟨hinputs, hnames, himports, hnodes⟩
  | graphs hleft hright =>
      apply headerDifference?_eq_none_iff.mpr
      rw [hleft.rest, hright.rest]
      exact headerDifference?_eq_none_iff.mp hopening

end ReorderedBy

theorem Agreement.reordered (hagree : operands.Agreement options partner?)
    (hreordered : operands.ReorderedBy order operands') :
    operands'.Agreement options partner? where
  opening := hreordered.openingRule?_eq_none hagree.opening
  bodies :=
    ⟨hagree.bodies.partners.reordered hreordered.left hreordered.right,
      hagree.bodies.agree.reordered options.agreementRule_unordered hreordered.left
        hreordered.right (fun place => (hreordered.outputs place).1)
        fun place => (hreordered.outputs place).2⟩
  cover hall := by
    rw [← hreordered.left.nodes.length_eq, ← hreordered.right.nodes.length_eq]
    exact hagree.cover (hreordered.pairsAllNodes_eq ▸ hall)

/-- Operands that are found equivalent are found so in another order, under the same pairs, unless the
comparison is given up. -/
theorem ReorderedBy.equivalent {pairing : Pairing}
    (hreordered : operands.ReorderedBy order operands') (hwell : operands.WellFormed)
    (hacyclic : operands.left.AcyclicScopes)
    (hdepth : operands'.compare options ≠
      .error (.unfinished (.depthLimitExceeded options.depthLimit)))
    (hcompare : operands.compare options = .ok (.equivalent pairing)) :
    ∃ pairing', operands'.compare options = .ok (.equivalent pairing') ∧
      ∀ index, pairing'.partner? index = pairing.partner? index :=
  ((agreement_of_compare hwell hacyclic hcompare).reordered hreordered).compare
    (hreordered.wellFormed hwell) (hreordered.left.acyclicScopes hacyclic) hdepth

/-- Operands get the same answer in another order, unless one of the comparisons is given up. -/
theorem ReorderedBy.sameAnswer (hreordered : operands.ReorderedBy order operands')
    (hwell : operands.WellFormed) (hacyclic : operands.left.AcyclicScopes)
    (hdepth : operands.compare options ≠
      .error (.unfinished (.depthLimitExceeded options.depthLimit)))
    (hdepth' : operands'.compare options ≠
      .error (.unfinished (.depthLimitExceeded options.depthLimit))) :
    SameAnswer (operands.compare options) (operands'.compare options) := by
  have hwell' := hreordered.wellFormed hwell
  have hacyclic' := hreordered.left.acyclicScopes hacyclic
  refine .of_equivalent ((compare_ends_of_acyclic hwell.check hacyclic).resolve_right hdepth)
    ((compare_ends_of_acyclic hwell'.check hacyclic').resolve_right hdepth') ?_ ?_
  · exact fun _ => hreordered.equivalent hwell hacyclic hdepth'
  · exact fun _ => hreordered.symm.equivalent hwell' hacyclic' hdepth

end Operands

/-- Unless one of the comparisons is given up for its depth, well-formed operands without cyclic
dependencies get the same answer when attributes are put into another order, at any depth, and the
outputs of both into one other order. -/
theorem compare_independent_of_order (options : CompareOptions) (order : Equiv.Perm Nat) :
    (∀ left left' right right' : Graph, left.checkWellFormed = .ok () →
        right.checkWellFormed = .ok () → left.body.AcyclicScopes →
        left.ReorderedBy order left' → right.ReorderedBy order right' →
        left.compare options right ≠
          .error (.unfinished (.depthLimitExceeded options.depthLimit)) →
        left'.compare options right' ≠
          .error (.unfinished (.depthLimitExceeded options.depthLimit)) →
        SameAnswer (left.compare options right) (left'.compare options right')) ∧
      ∀ left left' right right' : Function, left.checkWellFormed = .ok () →
        right.checkWellFormed = .ok () → left.body.AcyclicScopes →
        left.ReorderedBy order left' → right.ReorderedBy order right' →
        left.compare options right ≠
          .error (.unfinished (.depthLimitExceeded options.depthLimit)) →
        left'.compare options right' ≠
          .error (.unfinished (.depthLimitExceeded options.depthLimit)) →
        SameAnswer (left.compare options right) (left'.compare options right') := by
  constructor
  · intro left left' right right' hwell hwell' hacyclic hleft hright
    exact (Operands.ReorderedBy.graphs hleft hright).sameAnswer ⟨hwell, hwell'⟩ hacyclic
  · intro left left' right right' hwell hwell' hacyclic hleft hright
    exact (Operands.ReorderedBy.functions hleft hright).sameAnswer ⟨hwell, hwell'⟩ hacyclic

end Orders

section Swaps

/-- Two nodes that do the same, with the outputs the other way round. -/
def Graph.reluTwiceSwapped : Graph := { Graph.reluTwice with outputs := ["b", "a"] }

/-- The choice with its branches the other way round. -/
def Function.choiceSwapped : Function :=
  { Function.choice with
    nodes := Function.choice.nodes.map fun node =>
      { node with attributes := node.attributes.reverse } }

theorem getElem?_pair_swap {α : Type} (first second : α) (place : Nat) :
    [second, first][place]? = [first, second][Equiv.swap 0 1 place]? := by
  match place with
  | 0 => rfl
  | 1 => rfl
  | place + 2 => rw [Equiv.swap_apply_of_ne_of_ne (by omega) (by omega)]; rfl

theorem Graph.reorderedBy_reluTwiceSwapped :
    Graph.reluTwice.ReorderedBy (Equiv.swap 0 1) Graph.reluTwiceSwapped where
  rest := rfl
  nodes := List.forall₂_same.mpr fun node _ => .refl node
  outputs := getElem?_pair_swap "a" "b"

theorem Graph.reorderedBy_reluOnce :
    Graph.reluOnce.ReorderedBy (Equiv.swap 0 1) Graph.reluOnce where
  rest := rfl
  nodes := List.forall₂_same.mpr fun node _ => .refl node
  outputs := getElem?_pair_swap "c" "c"

theorem Function.reorderedBy_choiceSwapped :
    Function.choice.ReorderedBy 1 Function.choiceSwapped where
  rest := rfl
  nodes := by
    rw [choiceSwapped, List.forall₂_map_right_iff]
    exact List.forall₂_same.mpr fun node _ => .of_perm node (List.reverse_perm _).symm
  outputs _ := rfl

theorem Function.reorderedBy_one (function : Function) : function.ReorderedBy 1 function where
  rest := rfl
  nodes := List.forall₂_same.mpr fun node _ => .refl node
  outputs _ := rfl

/-- The two nodes and the single one, with the outputs of both the other way round; and the choice
with its branches the other way round. -/
theorem compare_independent_of_order_swapped :
    SameAnswer (Graph.reluTwice.compare {} Graph.reluOnce)
        (Graph.reluTwiceSwapped.compare {} Graph.reluOnce) ∧
      SameAnswer (Function.choice.compare {} Function.renamedChoice)
        (Function.choiceSwapped.compare {} Function.renamedChoice) := by
  constructor
  · exact (compare_independent_of_order {} (Equiv.swap 0 1)).1 Graph.reluTwice
      Graph.reluTwiceSwapped Graph.reluOnce Graph.reluOnce rfl rfl
      (Body.acyclicScopes_of_inOrder rfl) Graph.reorderedBy_reluTwiceSwapped
      Graph.reorderedBy_reluOnce (by rintro ⟨⟩) (by rintro ⟨⟩)
  · exact (compare_independent_of_order {} 1).2 Function.choice Function.choiceSwapped
      Function.renamedChoice Function.renamedChoice rfl rfl (Body.acyclicScopes_of_inOrder rfl)
      Function.reorderedBy_choiceSwapped Function.renamedChoice.reorderedBy_one (by rintro ⟨⟩)
      (by rintro ⟨⟩)

end Swaps

end OpGraph
