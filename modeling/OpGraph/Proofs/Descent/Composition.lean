import OpGraph.Proofs.Descent.Characterization
import OpGraph.Proofs.Matching.Composition

/-!
Equivalence is transitive. If a first operand is found equivalent to a second one, and this to a
third one, the first is found equivalent to the third, unless the comparison is given up for its
depth; its pairs are then those of the first two comparisons put together.
-/

namespace OpGraph

open CompareM

/-- The pairs lead to the partners of partners, and to nothing else. -/
structure Pairing.ComposedOf (pairing first second : Pairing) : Prop where
  mapped : ∀ index middle, first.partner? index = some middle →
    ∃ index', second.partner? middle = some index' ∧ pairing.partner? index = some index'
  only : ∀ index, first.partner? index = none → pairing.partner? index = none

theorem NodeCover.composed {first? second? : Nat → Option Nat} {leftCount middleCount rightCount : Nat}
    (hfirst : NodeCover first? leftCount middleCount)
    (hsecond : NodeCover second? middleCount rightCount) :
    NodeCover (composed first? second?) leftCount rightCount where
  in_range left right hcomposed := by
    obtain ⟨middle, hpartner, hpartner'⟩ := composed_eq_some_iff.mp hcomposed
    exact ⟨(hfirst.in_range _ _ hpartner).1, (hsecond.in_range _ _ hpartner').2⟩
  total left hleft := by
    obtain ⟨middle, hpartner⟩ := hfirst.total left hleft
    obtain ⟨right, hpartner'⟩ := hsecond.total middle (hfirst.in_range _ _ hpartner).2
    exact ⟨right, composed_eq_some_iff.mpr ⟨middle, hpartner, hpartner'⟩⟩
  onto right hright := by
    obtain ⟨middle, hpartner'⟩ := hsecond.onto right hright
    obtain ⟨left, hpartner⟩ := hfirst.onto middle (hsecond.in_range _ _ hpartner').1
    exact ⟨left, composed_eq_some_iff.mpr ⟨middle, hpartner, hpartner'⟩⟩

theorem ReachedPartners.composed {left middle right : Body} {first? second? : Nat → Option Nat}
    (hfirst : ReachedPartners left middle first?) (hsecond : ReachedPartners middle right second?)
    (hnext : ∀ index index', first? index = some index' → ∃ other, second? index' = some other) :
    ReachedPartners left right (composed first? second?) where
  in_range index index' hcomposed := by
    obtain ⟨middle, hpartner, hpartner'⟩ := composed_eq_some_iff.mp hcomposed
    exact ⟨(hfirst.in_range _ _ hpartner).1, (hsecond.in_range _ _ hpartner').2⟩
  reached index := by
    rw [← hfirst.reached index]
    constructor
    · rintro ⟨index', hcomposed⟩
      obtain ⟨middle, hpartner, _⟩ := composed_eq_some_iff.mp hcomposed
      exact ⟨middle, hpartner⟩
    · rintro ⟨middle, hpartner⟩
      obtain ⟨index', hpartner'⟩ := hnext index middle hpartner
      exact ⟨index', composed_eq_some_iff.mpr ⟨middle, hpartner, hpartner'⟩⟩

theorem CompareOptions.agreementRule_composes (options : CompareOptions) :
    options.agreementRule.Composes where
  reached := by
    rintro left right partner? ⟨⟨_, _, hpartners⟩, _⟩
    exact hpartners.reached
  compose := by
    rintro left middle right first? second? ⟨⟨hbare, _, hpartners⟩, hcover⟩
      ⟨⟨_, hbare', hpartners'⟩, hcover'⟩ hnext
    exact ⟨⟨hbare, hbare', hpartners.composed hpartners' hnext⟩,
      fun hall => (hcover hall).composed (hcover' hall)⟩

section Signatures

variable {firsts seconds thirds : List OpsetImport} {domain : String}

theorem importedVersion?_eq_none (hdomain : ∀ opset ∈ firsts, opset.domain ≠ domain) :
    importedVersion? firsts domain = none := by
  rw [importedVersion?, Option.map_eq_none_iff, List.find?_eq_none]
  intro opset hopset
  simpa using hdomain opset (List.mem_reverse.mp hopset)

/-- Two lists import the same if each domain has the same version in both. -/
theorem sameImports_eq_true_iff :
    sameImports firsts seconds = true ↔
      ∀ domain, importedVersion? firsts domain = importedVersion? seconds domain := by
  rw [sameImports, List.all_eq_true]
  simp only [beq_iff_eq]
  constructor
  · intro hsame domain
    by_cases hdomain : ∃ opset ∈ firsts ++ seconds, opset.domain = domain
    · obtain ⟨opset, hopset, rfl⟩ := hdomain
      exact hsame opset hopset
    · have hnone : ∀ opset ∈ firsts ++ seconds, opset.domain ≠ domain :=
        fun opset hopset heq => hdomain ⟨opset, hopset, heq⟩
      rw [importedVersion?_eq_none fun opset hopset => hnone opset (List.mem_append_left _ hopset),
        importedVersion?_eq_none fun opset hopset => hnone opset (List.mem_append_right _ hopset)]
  · exact fun hsame opset _ => hsame opset.domain

theorem signatureDifference?_trans {first second third : Function}
    (hfirst : signatureDifference? first second = none)
    (hsecond : signatureDifference? second third = none) :
    signatureDifference? first third = none := by
  obtain ⟨hinputs, hnames, himports, hnodes⟩ := signatureDifference?_eq_none_iff.mp hfirst
  obtain ⟨hinputs', hnames', himports', hnodes'⟩ := signatureDifference?_eq_none_iff.mp hsecond
  rw [sameNames_eq_true_iff] at hnames hnames'
  rw [sameImports_eq_true_iff] at himports himports'
  refine signatureDifference?_eq_none_iff.mpr ⟨hinputs.trans hinputs', ?_, ?_, hnodes.trans hnodes'⟩
  · exact sameNames_eq_true_iff.mpr fun name => (hnames name).trans (hnames' name)
  · exact sameImports_eq_true_iff.mpr fun domain => (himports domain).trans (himports' domain)

theorem headerDifference?_trans {first second third : Graph}
    (hfirst : headerDifference? first second = none)
    (hsecond : headerDifference? second third = none) : headerDifference? first third = none := by
  obtain ⟨hinputs, hbare, _⟩ := headerDifference?_eq_none_iff.mp hfirst
  obtain ⟨hinputs', _, hbare'⟩ := headerDifference?_eq_none_iff.mp hsecond
  exact headerDifference?_eq_none_iff.mpr ⟨hinputs.trans hinputs', hbare, hbare'⟩

end Signatures

section Operands

variable {options : CompareOptions} {first? second? : Nat → Option Nat}

theorem Body.Agreement.exists_next {first second third : Body}
    (hfirst : first.Agreement options second first?)
    (hsecond : second.Agreement options third second?) (hdistinct : first.Distinct)
    (hdistinct' : second.Distinct) {index middle : Nat} (hpartner : first? index = some middle) :
    ∃ index', second? middle = some index' :=
  hfirst.agree.exists_next hdistinct.names hdistinct'.names hfirst.partners.reached
    hsecond.partners.reached hpartner

theorem Body.Agreement.trans {first second third : Body}
    (hfirst : first.Agreement options second first?)
    (hsecond : second.Agreement options third second?) (hdistinct : first.Distinct)
    (hdistinct' : second.Distinct) :
    first.Agreement options third (composed first? second?) where
  partners := hfirst.partners.composed hsecond.partners fun _ _ =>
    hfirst.exists_next hsecond hdistinct hdistinct'
  agree := hfirst.agree.trans options.agreementRule_composes hdistinct.names hdistinct'.names
    hsecond.partners.reached hsecond.agree

/-- Two pairs of operands with one in common, and the pair of the other two. -/
inductive Operands.Composed : Operands → Operands → Operands → Prop where
  | functions (first second third : Function) :
      Composed (.functions first second) (.functions second third) (.functions first third)
  | graphs (first second third : Graph) :
      Composed (.graphs first second) (.graphs second third) (.graphs first third)

theorem Operands.Agreement.trans {first second both : Operands}
    (hcomposed : Composed first second both) (hfirst : first.Agreement options first?)
    (hsecond : second.Agreement options second?) (hwell : first.WellFormed) :
    both.Agreement options (composed first? second?) := by
  have hdistinct := hwell.left_distinct
  have hdistinct' := hwell.right_distinct
  cases hcomposed with
  | functions first second third =>
      exact ⟨signatureDifference?_trans hfirst.opening hsecond.opening,
        hfirst.bodies.trans hsecond.bodies hdistinct hdistinct',
        fun hall => (hfirst.cover hall).composed (hsecond.cover hall)⟩
  | graphs first second third =>
      exact ⟨headerDifference?_trans hfirst.opening hsecond.opening,
        hfirst.bodies.trans hsecond.bodies hdistinct hdistinct',
        fun hall => (hfirst.cover hall).composed (hsecond.cover hall)⟩

/-- Pairs that are the partners of partners are composed, if no partner lacks one in turn. -/
theorem Pairing.composedOf {pairing first second : Pairing}
    (hpairs : ∀ index, pairing.partner? index = composed first.partner? second.partner? index)
    (hnext : ∀ index middle, first.partner? index = some middle →
      ∃ index', second.partner? middle = some index') : pairing.ComposedOf first second where
  mapped index middle hpartner := by
    obtain ⟨index', hpartner'⟩ := hnext index middle hpartner
    exact ⟨index', hpartner',
      (hpairs index).trans (composed_eq_some_iff.mpr ⟨middle, hpartner, hpartner'⟩)⟩
  only index hnone := by
    rw [hpairs, composed, hnone, Option.bind_none]

/-- What is found equivalent in two steps is found equivalent at once, under the pairs put together,
unless the comparison is given up. -/
theorem Operands.Composed.equivalent {first second both : Operands} {pairing pairing' : Pairing}
    (hcomposed : Composed first second both) (hfirst : first.WellFormed)
    (hsecond : second.WellFormed) (hboth : both.WellFormed)
    (hacyclic : first.left.AcyclicScopes) (hacyclic' : second.left.AcyclicScopes)
    (hcompare : first.compare options = .ok (.equivalent pairing))
    (hcompare' : second.compare options = .ok (.equivalent pairing'))
    (hdepth : both.compare options ≠
      .error (.unfinished (.depthLimitExceeded options.depthLimit))) :
    ∃ together, both.compare options = .ok (.equivalent together) ∧
      together.ComposedOf pairing pairing' := by
  have hagree := Operands.agreement_of_compare hfirst hacyclic hcompare
  have hagree' := Operands.agreement_of_compare hsecond hacyclic' hcompare'
  have hnext : ∀ index middle, pairing.partner? index = some middle →
      ∃ index', pairing'.partner? middle = some index' := by
    intro index middle hpartner
    have hdistinct := hfirst.left_distinct
    have hdistinct' := hfirst.right_distinct
    cases hcomposed with
    | functions | graphs =>
        exact hagree.bodies.exists_next hagree'.bodies hdistinct hdistinct' hpartner
  have hleft : both.left = first.left := by cases hcomposed <;> rfl
  obtain ⟨together, hequivalent, hpairs⟩ :=
    (hagree.trans hcomposed hagree' hfirst).compare hboth (hleft ▸ hacyclic) hdepth
  exact ⟨together, hequivalent, Pairing.composedOf hpairs hnext⟩

/-- If a first graph or function is found equivalent to a second one, and this to a third one, then
the first is found equivalent to the third under the pairs put together, unless their comparison is
given up for its depth. -/
theorem compare_trans (options : CompareOptions) :
    (∀ (first second third : Graph) (pairing pairing' : Pairing), first.checkWellFormed = .ok () →
        second.checkWellFormed = .ok () → third.checkWellFormed = .ok () →
        first.body.AcyclicScopes → second.body.AcyclicScopes →
        first.compare options second = .ok (.equivalent pairing) →
        second.compare options third = .ok (.equivalent pairing') →
        first.compare options third ≠
          .error (.unfinished (.depthLimitExceeded options.depthLimit)) →
        ∃ both, first.compare options third = .ok (.equivalent both) ∧
          both.ComposedOf pairing pairing') ∧
      ∀ (first second third : Function) (pairing pairing' : Pairing),
        first.checkWellFormed = .ok () → second.checkWellFormed = .ok () →
        third.checkWellFormed = .ok () → first.body.AcyclicScopes → second.body.AcyclicScopes →
        first.compare options second = .ok (.equivalent pairing) →
        second.compare options third = .ok (.equivalent pairing') →
        first.compare options third ≠
          .error (.unfinished (.depthLimitExceeded options.depthLimit)) →
        ∃ both, first.compare options third = .ok (.equivalent both) ∧
          both.ComposedOf pairing pairing' := by
  constructor
  · intro first second third pairing pairing' hfirst hsecond hthird
    exact (Operands.Composed.graphs first second third).equivalent ⟨hfirst, hsecond⟩
      ⟨hsecond, hthird⟩ ⟨hfirst, hthird⟩
  · intro first second third pairing pairing' hfirst hsecond hthird
    exact (Operands.Composed.functions first second third).equivalent ⟨hfirst, hsecond⟩
      ⟨hsecond, hthird⟩ ⟨hfirst, hthird⟩

/-- Two nodes that do the same are paired with one, and this with itself; a choice is paired with
itself, and with its nodes in another order. -/
theorem compare_trans_choice :
    (∃ both, Graph.reluTwice.compare {} Graph.reluOnce = .ok (.equivalent both) ∧
        both.ComposedOf ⟨[(0, 0), (1, 0)], by decide⟩ ⟨[(0, 0)], by decide⟩) ∧
      ∃ both, Function.choice.compare {} Function.renamedChoice = .ok (.equivalent both) ∧
        both.ComposedOf ⟨[(0, 0), (1, 1)], by decide⟩ ⟨[(0, 1), (1, 0)], by decide⟩ := by
  have hacyclic : Function.choice.body.AcyclicScopes := Body.acyclicScopes_of_inOrder rfl
  constructor
  · exact (compare_trans {}).1 Graph.reluTwice Graph.reluOnce Graph.reluOnce _ _ rfl rfl rfl
      (Body.acyclicScopes_of_inOrder rfl) (Body.acyclicScopes_of_inOrder rfl) rfl rfl
      (by rintro ⟨⟩)
  · exact (compare_trans {}).2 Function.choice Function.choice Function.renamedChoice _ _ rfl rfl rfl
      hacyclic hacyclic rfl rfl (by rintro ⟨⟩)

end Operands

end OpGraph
