import OpGraph.Proofs.Descent.Confirmation

/-!
What a verdict of equivalence amounts to. Two well-formed operands, of which the left one refers to
no node in a circle, are found equivalent under some pairs exactly if they agree under them and the
pairs are of the nodes that are reached, unless the comparison is given up for its depth. Of the
comparison itself nothing else has to be known.
-/

namespace OpGraph

open CompareM

/-- A comparison asks no more of graphs than that they agree by its own rule. -/
theorem CompareOptions.agreementRule_confirmedBy (options : CompareOptions) :
    options.agreementRule.ConfirmedBy options where
  confirmable := by
    rintro left right partner? ⟨⟨hbare, hbare', hpartners⟩, _⟩
    exact ⟨hbare, hbare', hpartners.in_range⟩
  covered := by
    rintro hall left right partner? ⟨⟨_, _, hpartners⟩, hcover⟩
    exact ⟨hcover hall, fun index index' hpartner =>
      (hpartners.reached index).mp ⟨index', hpartner⟩⟩

/-- Operands that agree are found equivalent under their partners, or their comparison is given up. -/
theorem Operands.Agreement.compare {options : CompareOptions} {operands : Operands}
    {partner? : Nat → Option Nat} (hagree : operands.Agreement options partner?)
    (hwell : operands.WellFormed) (hacyclic : operands.left.AcyclicScopes)
    (hdepth : operands.compare options ≠
      .error (.unfinished (.depthLimitExceeded options.depthLimit))) :
    ∃ pairing, operands.compare options = .ok (.equivalent pairing) ∧
      ∀ index, pairing.partner? index = partner? index := by
  obtain ⟨hopening, ⟨hpartners, hbodies⟩, hcover⟩ := hagree
  obtain ⟨verdict, hcompare⟩ :=
    (Operands.compare_ends_of_acyclic hwell.check hacyclic).resolve_right hdepth
  have hreached : ∀ index index', partner? index = some index' → operands.left.Reaches index :=
    fun index index' hpartner => (hpartners.reached index).mp ⟨index', hpartner⟩
  obtain ⟨pairing, rfl, hpairs⟩ := Operands.eq_equivalent_of_bodiesAgree hwell
    options.agreementRule_confirmedBy hopening hpartners.in_range
    (fun hall => ⟨hcover hall, hreached⟩) hbodies hcompare
  exact ⟨pairing, hcompare, hpairs hreached⟩

end OpGraph
