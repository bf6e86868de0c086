import OpGraph.Proofs.Descent.Failures
import OpGraph.Proofs.Descent.Guarantees

/-!
What is said of nodes that are not paired. The check that all nodes are paired fails by one of two
rules, and they are recorded for no other reason. The first one tells how many left nodes have no
partner. The second one comes up if all of them have one but not all right nodes are partners. Then
two left nodes are sure to share a partner only if there are no more right nodes than left ones.
-/

namespace OpGraph

namespace Pairing

/-- Two left nodes have the same partner. -/
def SharesPartner (pairing : Pairing) : Prop :=
  ∃ left left' right, left ≠ left' ∧ pairing.partner? left = some right ∧
    pairing.partner? left' = some right

/-- Those of so many left nodes that have no partner. -/
def unpaired (pairing : Pairing) (leftCount : Nat) : Finset Nat :=
  (Finset.range leftCount).filter fun left => pairing.partner? left = none

variable {pairing : Pairing} {leftCount rightCount : Nat}

theorem card_unpaired_add_size (hrange : pairing.InRange leftCount rightCount) :
    (pairing.unpaired leftCount).card + pairing.size = leftCount := by
  let lefts : Finset Nat := (pairing.entries.map Prod.fst).toFinset
  have hunpaired : pairing.unpaired leftCount = Finset.range leftCount \ lefts := by
    ext left
    simp only [unpaired, lefts, Finset.mem_filter, Finset.mem_sdiff, List.mem_toFinset,
      partner?_eq_none_iff]
  have hsubset : lefts ⊆ Finset.range leftCount := by
    intro left hleft
    obtain ⟨right, hpartner⟩ := mem_lefts_iff.mp (List.mem_toFinset.mp hleft)
    exact Finset.mem_range.mpr (hrange left right hpartner).1
  have hsize : lefts.card = pairing.size := by
    rw [List.toFinset_card_of_nodup pairing.nodup_lefts, List.length_map, size]
  rw [hunpaired, ← hsize, Finset.card_sdiff_add_card_eq_card hsubset, Finset.card_range]

/-- Two left nodes share a partner exactly if there are fewer targets than pairs. -/
theorem sharesPartner_iff : pairing.SharesPartner ↔ pairing.targetCount < pairing.size := by
  have hle := pairing.targetCount_le_size
  constructor
  · rintro ⟨left, left', right, hne, hpartner, hpartner'⟩
    refine Nat.lt_of_le_of_ne hle fun heq => hne ?_
    exact targetCount_eq_size_iff.mp heq left left' right hpartner hpartner'
  · intro hlt
    by_contra hshares
    refine absurd (targetCount_eq_size_iff.mpr ?_) (Nat.ne_of_lt hlt)
    intro left left' right hpartner hpartner'
    by_contra hne
    exact hshares ⟨left, left', right, hne, hpartner, hpartner'⟩

end Pairing

/-- Only so many of all left nodes of a scope have a partner. -/
structure Scope.LeavesUnpaired (scope : Scope) (paired total : Nat) : Prop where
  total_eq : scope.left.nodes.length = total
  lt : paired < total
  card_unpaired : (scope.pairing.unpaired total).card = total - paired

/-- Every left node of a scope has a partner, but only so many of all right nodes are one. -/
structure Scope.LeavesUntargeted (scope : Scope) (targets total : Nat) : Prop where
  total_eq : scope.right.nodes.length = total
  lt : targets < total
  targets_eq : scope.pairing.targetCount = targets
  paired : ∀ left < scope.left.nodes.length, ∃ right, scope.pairing.partner? left = some right

/-- The rule is about pairs that are missing. -/
def FailedRule.concernsPairs : FailedRule → Bool
  | .unreachedNodes _ _ | .notInjective _ _ => true
  | _ => false

namespace CompareM

section Rules

variable {rule : FailedRule} {scope : Scope} {paired targets total : Nat}

theorem unpairedRule?_eq_unreachedNodes_iff (hrange : scope.InRange) :
    unpairedRule? scope = some (.unreachedNodes paired total) ↔
      scope.LeavesUnpaired paired total := by
  have hcard := Pairing.card_unpaired_add_size hrange
  have hrule : unpairedRule? scope = some (.unreachedNodes paired total) ↔
      scope.pairing.size ≠ scope.left.nodes.length ∧ scope.pairing.size = paired ∧
        scope.left.nodes.length = total := by
    unfold unpairedRule?
    split
    next hsize => simp [hsize]
    next hsize => split <;> simp_all
  rw [hrule]
  constructor
  · rintro ⟨hsize, rfl, rfl⟩
    exact ⟨rfl, by omega, by omega⟩
  · rintro ⟨rfl, hlt, hunpaired⟩
    exact ⟨by omega, by omega, rfl⟩

theorem unpairedRule?_eq_notInjective_iff (hrange : scope.InRange) :
    unpairedRule? scope = some (.notInjective targets total) ↔
      scope.LeavesUntargeted targets total := by
  have hle := Pairing.targetCount_le hrange
  have hrule : unpairedRule? scope = some (.notInjective targets total) ↔
      scope.pairing.size = scope.left.nodes.length ∧
        scope.pairing.targetCount ≠ scope.right.nodes.length ∧
        scope.pairing.targetCount = targets ∧ scope.right.nodes.length = total := by
    unfold unpairedRule?
    split
    next hsize => simp [hsize]
    next hsize => split <;> simp_all
  rw [hrule, Pairing.size_eq_iff hrange]
  constructor
  · rintro ⟨hpaired, hne, rfl, rfl⟩
    exact ⟨rfl, by omega, rfl, hpaired⟩
  · rintro ⟨rfl, hlt, rfl, hpaired⟩
    exact ⟨hpaired, by omega, rfl, rfl⟩

theorem concernsPairs_eq_false_of_lookupRule? {left right : String} {lookup : Lookup}
    (hrule : lookupRule? left right lookup = some rule) : rule.concernsPairs = false := by
  unfold lookupRule? at hrule
  grind [FailedRule.concernsPairs]

theorem concernsPairs_eq_false_of_nodeRule? {left right : Node}
    (hrule : nodeRule? left right = some rule) : rule.concernsPairs = false := by
  unfold nodeRule? at hrule
  grind [FailedRule.concernsPairs]

theorem concernsPairs_eq_false_of_headerDifference? {left right : Graph}
    (hrule : headerDifference? left right = some rule) : rule.concernsPairs = false := by
  unfold headerDifference? at hrule
  grind [FailedRule.concernsPairs]

theorem concernsPairs_eq_false_of_signatureDifference? {left right : Function}
    (hrule : signatureDifference? left right = some rule) : rule.concernsPairs = false := by
  unfold signatureDifference? at hrule
  grind [FailedRule.concernsPairs]

end Rules

end CompareM

open CompareM

namespace Operands

variable (options : CompareOptions)

/-- All that the outputs of two bodies depend on matches, and now all nodes of their scope have to
be paired: those of the operands, or of two graphs that the comparison comes to by these uses. -/
inductive RequiresPairs (operands : Operands) : Scope → List UseStep → Prop where
  | root {final : CompareState} {scope : Scope} : operands.check options = .ok () →
      operands.openingRule? = none → operands.pairsAllNodes options = true →
      exec (compareOutputs options (compareNested options options.depthLimit) 0
        operands.left.outputs operands.right.outputs)
        (.initial operands.left operands.right) = (.ok true, final) →
      final.stack.scope? 0 = some scope → RequiresPairs operands scope []
  | nested {moment : Moment} {levels level : Nat} {call : GraphCall} {inner final : CompareState}
      {scope : Scope} {path : List UseStep} : operands.Passes options moment →
      moment.Calls options level call inner path → moment.levels = levels + 1 →
      headerDifference? call.left call.right = none → options.pairAllNodes = true →
      exec (compareOutputs options (compareNested options levels) inner.stack.depth
        call.left.outputs call.right.outputs)
        (inner.entered level call.left.body call.right.body) = (.ok true, final) →
      final.stack.scope? inner.stack.depth = some scope → RequiresPairs operands scope path

variable {options} {operands : Operands} {scope : Scope} {path : List UseStep}
  {rule : FailedRule}

theorem RequiresPairs.inRange (hrequires : operands.RequiresPairs options scope path) :
    scope.InRange := by
  cases hrequires with
  | root _ _ _ hexec hscope =>
      exact (outputsRun_of_exec hexec).inRangeAt (initial_inRangeAt _ _ 0) scope hscope
  | nested _ _ _ _ _ hexec hscope =>
      exact (outputsRun_of_exec hexec).inRangeAt (inRangeAt_entered _ _ _ _) scope hscope

/-- Where there are no uses, the scope is that of the operands. -/
theorem RequiresPairs.root_eq (hrequires : operands.RequiresPairs options scope []) :
    operands.openingRule? = none ∧ scope.left = operands.left ∧ scope.right = operands.right := by
  cases hrequires with
  | root _ hopening _ hexec hscope =>
      have hfirst : (CompareState.initial operands.left operands.right).stack.scope? 0 =
          some { parent := none, left := operands.left, right := operands.right } := rfl
      have hextends := (outputsRun_of_exec hexec).grows (nestedRun_grows options _)
      obtain ⟨scope', hscope', hscopes⟩ := hextends.scope? hfirst
      obtain rfl : scope = scope' := Option.some.inj (hscope.symm.trans hscope')
      exact ⟨hopening, hscopes.left, hscopes.right⟩
  | nested _ hcalls _ _ _ _ _ => cases hcalls

/-- If the check that all nodes are paired fails, the verdict is about this. -/
theorem RequiresPairs.compare_eq (hrequires : operands.RequiresPairs options scope path)
    (hrule : unpairedRule? scope = some rule) :
    operands.compare options =
      .ok (.different (if options.trace then some ⟨rule, path⟩ else none)) := by
  have hbreaks : ∃ broken, operands.Breaks options broken rule path := by
    cases hrequires with
    | root hcheck hopening hall hexec hscope =>
        exact ⟨_, .bodies hcheck hopening (.unpaired hexec hall hscope hrule)⟩
    | nested hpasses hcalls hlevels hheader hall hexec hscope =>
        exact ⟨_, .within hpasses (.bodies hcalls hlevels hheader
          (.unpaired hexec hall hscope hrule))⟩
  obtain ⟨broken, hbreaks⟩ := hbreaks
  exact hbreaks.compare_eq.2

/-- A rule about missing pairs fails only in the check that all nodes are paired. -/
theorem Breaks.requiresPairs {broken : CompareState}
    (hbreaks : operands.Breaks options broken rule path) (hpairs : rule.concernsPairs = true) :
    ∃ scope, operands.RequiresPairs options scope path ∧ unpairedRule? scope = some rule := by
  cases hbreaks with
  | opening _ hopening =>
      cases operands with
      | functions _ _ => simp [concernsPairs_eq_false_of_signatureDifference? hopening] at hpairs
      | graphs _ _ => simp [concernsPairs_eq_false_of_headerDifference? hopening] at hpairs
  | bodies hcheck hopening hbreak =>
      cases hbreak with
      | outputCounts _ => cases hpairs
      | unpaired hexec hall hscope hrule =>
          exact ⟨_, .root hcheck hopening hall hexec hscope, hrule⟩
  | within hpasses hbreaks =>
      cases hbreaks with
      | names _ hrule => simp [concernsPairs_eq_false_of_lookupRule? hrule] at hpairs
      | nodes _ hrule => simp [concernsPairs_eq_false_of_nodeRule? hrule] at hpairs
      | headers _ hheader => simp [concernsPairs_eq_false_of_headerDifference? hheader] at hpairs
      | partner _ _ _ | attributes _ _ _ _ | inputCounts _ _ _ _ _ => cases hpairs
      | bodies hcalls hlevels hheader hbreak =>
          cases hbreak with
          | outputCounts _ => cases hpairs
          | unpaired hexec hall hscope hrule =>
              exact ⟨_, .nested hpasses hcalls hlevels hheader hall hexec hscope, hrule⟩

/-- Rules about missing pairs are recorded exactly where the check that all nodes are paired fails.
-/
theorem compare_eq_of_pairs_iff (hpairs : rule.concernsPairs = true) :
    operands.compare options = .ok (.different (some ⟨rule, path⟩)) ↔ options.trace = true ∧
      ∃ scope, operands.RequiresPairs options scope path ∧ unpairedRule? scope = some rule := by
  constructor
  · intro hcompare
    obtain ⟨broken, rule', path', hbreaks⟩ := exists_breaks_of_compare hcompare
    have hverdict := hbreaks.compare_eq.2
    rw [hcompare] at hverdict
    cases htrace : options.trace with
    | false => simp [htrace] at hverdict
    | true =>
        simp only [htrace, if_true, Except.ok.injEq, Verdict.different.injEq, Option.some.injEq,
          Difference.mk.injEq] at hverdict
        obtain ⟨rfl, rfl⟩ := hverdict
        exact ⟨rfl, hbreaks.requiresPairs hpairs⟩
  · rintro ⟨htrace, scope, hrequires, hrule⟩
    rw [hrequires.compare_eq hrule, htrace, if_pos rfl]

/-- What is recorded of missing pairs, exactly. The one rule tells how many left nodes have no
partner; by the other one all of them have, but not all right nodes are one. Two left nodes then
share a partner exactly if there are fewer targets than left nodes. So they do if there are no more
right nodes than left ones, as it is for functions. -/
theorem compare_names_missing_pairs (options : CompareOptions) (operands : Operands)
    (path : List UseStep) :
    (∀ paired total,
      operands.compare options = .ok (.different (some ⟨.unreachedNodes paired total, path⟩)) ↔
        options.trace = true ∧ ∃ scope, operands.RequiresPairs options scope path ∧
          scope.LeavesUnpaired paired total) ∧
    (∀ targets total,
      operands.compare options = .ok (.different (some ⟨.notInjective targets total, path⟩)) ↔
        options.trace = true ∧ ∃ scope, operands.RequiresPairs options scope path ∧
          scope.LeavesUntargeted targets total) ∧
    ∀ scope targets total, operands.RequiresPairs options scope path →
      scope.LeavesUntargeted targets total →
      (scope.pairing.SharesPartner ↔ targets < scope.left.nodes.length) ∧
        (total ≤ scope.left.nodes.length → scope.pairing.SharesPartner) ∧
        ∀ left right, operands = .functions left right → path = [] →
          scope.pairing.SharesPartner := by
  refine ⟨fun paired total => ?_, fun targets total => ?_, ?_⟩
  · rw [compare_eq_of_pairs_iff rfl]
    refine and_congr_right fun _ => exists_congr fun scope => and_congr_right fun hrequires => ?_
    exact unpairedRule?_eq_unreachedNodes_iff hrequires.inRange
  · rw [compare_eq_of_pairs_iff rfl]
    refine and_congr_right fun _ => exists_congr fun scope => and_congr_right fun hrequires => ?_
    exact unpairedRule?_eq_notInjective_iff hrequires.inRange
  · intro scope targets total hrequires huntargeted
    have hsize := (Pairing.size_eq_iff hrequires.inRange).mpr huntargeted.paired
    have hshares : scope.pairing.SharesPartner ↔ targets < scope.left.nodes.length := by
      rw [Pairing.sharesPartner_iff, huntargeted.targets_eq, hsize]
    have hcounts : total ≤ scope.left.nodes.length → scope.pairing.SharesPartner :=
      fun hle => hshares.mpr (Nat.lt_of_lt_of_le huntargeted.lt hle)
    refine ⟨hshares, hcounts, ?_⟩
    rintro left right rfl rfl
    obtain ⟨hopening, hleft, hright⟩ := hrequires.root_eq
    have hnodes : left.nodes.length = right.nodes.length :=
      (signatureDifference?_eq_none_iff.mp hopening).2.2.2
    refine hcounts (Nat.le_of_eq ?_)
    rw [← huntargeted.total_eq, hleft, hright]
    exact hnodes.symm

end Operands

namespace Graph

/-- Two nodes that compute the same, of which one is not used. -/
def reluSpare : Graph := { Graph.reluTwice with outputs := ["a"] }

/-- The same without the other node. -/
def reluUsed : Graph := { Graph.reluOnce with outputs := ["c"] }

/-- How far the two come: the node that is not used has no partner. -/
def spareScope : Scope where
  parent := none
  left := reluSpare.body
  right := reluUsed.body
  pairing := ⟨[(0, 0)], by decide⟩

end Graph

namespace Function

/-- Two nodes that compute the same, both of which are used. -/
def reluBoth : Function where
  name := "f"
  inputs := ["x"]
  outputs := ["a", "b"]
  nodes := Graph.reluTwice.nodes

/-- The same with one of them used twice. -/
def reluShared : Function := { reluBoth with outputs := ["a", "a"] }

/-- How far the two come: both nodes have the same partner. -/
def sharedScope : Scope where
  parent := none
  left := reluBoth.body
  right := reluShared.body
  pairing := ⟨[(0, 0), (1, 0)], by decide⟩

end Function

namespace Graph

/-- Of two nodes only one has a partner, and two nodes of a function share one. -/
theorem compare_names_missing_pairs_relu :
    (Operands.graphs reluSpare reluUsed).RequiresPairs
        (CompareOptions.diagnostic.withPairAllNodes true) spareScope [] ∧
      spareScope.LeavesUnpaired 1 2 ∧
      reluSpare.compare (CompareOptions.diagnostic.withPairAllNodes true) reluUsed =
        .ok (.different (some ⟨.unreachedNodes 1 2, []⟩)) ∧
    (Operands.functions .reluBoth .reluShared).RequiresPairs .diagnostic Function.sharedScope [] ∧
      Function.sharedScope.LeavesUntargeted 1 2 ∧
      Function.reluBoth.compare .diagnostic .reluShared =
        .ok (.different (some ⟨.notInjective 1 2, []⟩)) ∧
      Function.sharedScope.pairing.SharesPartner := by
  have hspare : (Operands.graphs reluSpare reluUsed).RequiresPairs
      (CompareOptions.diagnostic.withPairAllNodes true) spareScope [] :=
    .root rfl rfl rfl rfl rfl
  have hunpaired : spareScope.LeavesUnpaired 1 2 := ⟨rfl, by decide, by decide⟩
  have hshared : (Operands.functions .reluBoth .reluShared).RequiresPairs .diagnostic
      Function.sharedScope [] :=
    .root rfl rfl rfl rfl rfl
  have huntargeted : Function.sharedScope.LeavesUntargeted 1 2 := by
    refine ⟨rfl, by decide, rfl, fun left hleft => ?_⟩
    obtain rfl | rfl : left = 0 ∨ left = 1 := by
      have hcount : left < 2 := hleft
      omega
    · exact ⟨0, rfl⟩
    · exact ⟨0, rfl⟩
  obtain ⟨hnamed, _, _⟩ := Operands.compare_names_missing_pairs
    (CompareOptions.diagnostic.withPairAllNodes true) (.graphs reluSpare reluUsed) []
  obtain ⟨_, hnamed', hshares⟩ := Operands.compare_names_missing_pairs .diagnostic
    (.functions .reluBoth .reluShared) []
  exact ⟨hspare, hunpaired, (hnamed 1 2).mpr ⟨rfl, _, hspare, hunpaired⟩, hshared, huntargeted,
    (hnamed' 1 2).mpr ⟨rfl, _, hshared, huntargeted⟩,
    (hshares _ 1 2 hshared huntargeted).2.2 _ _ rfl rfl⟩

/-- If a right node is to spare, it is the rule about targets that fails, though no two left nodes
share a partner. -/
theorem compare_reluUsed_reluSpare :
    reluUsed.checkWellFormed = .ok () ∧ reluSpare.checkWellFormed = .ok () ∧
      reluUsed.compare (CompareOptions.diagnostic.withPairAllNodes true) reluSpare =
        .ok (.different (some ⟨.notInjective 1 2, []⟩)) ∧
      ∀ scope, (Operands.graphs reluUsed reluSpare).RequiresPairs
        (CompareOptions.diagnostic.withPairAllNodes true) scope [] →
        ¬ scope.pairing.SharesPartner := by
  refine ⟨rfl, rfl, rfl, ?_⟩
  rintro scope hrequires ⟨left, left', right, hne, hpartner, hpartner'⟩
  -- there is one left node only
  have hcount : scope.left.nodes.length = 1 := by
    rw [hrequires.root_eq.2.1]
    rfl
  have hleft := (hrequires.inRange left right hpartner).1
  have hleft' := (hrequires.inRange left' right hpartner').1
  omega

end Graph

end OpGraph
