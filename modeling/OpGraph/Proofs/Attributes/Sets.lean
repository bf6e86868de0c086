import OpGraph.Proofs.Descent.Plans

/-!
# Attributes as sets

Two lists of attributes differ in nothing exactly if they are the same set of named values: no name
repeats, the names are the same, and values of the same name are equal. The comparison only counts
the attributes and looks up those of the second list. If no name repeats there, this is enough: as
many names, all of them among those of the first list, leave no room for a repetition in it.
-/

namespace OpGraph

/-- Two values are equal where graphs are compared by a relation. Floats are equal as numbers, and
an opaque value is equal to nothing. -/
def AttributeValue.SameUnder (related : Graph → Graph → Prop) :
    AttributeValue → AttributeValue → Prop
  | .graph left, .graph right => related left right
  | .graphs lefts, .graphs rights => List.Forall₂ related lefts rights
  | left, right => left.SamePlain right

/-- Two lists of attributes are the same set, keyed by name. -/
structure SameAttributesUnder (related : Graph → Graph → Prop) (lefts rights : List Attribute) :
    Prop where
  distinct : (lefts.map Attribute.name).Nodup
  names : ∀ name, name ∈ lefts.map Attribute.name ↔ name ∈ rights.map Attribute.name
  values : ∀ attr ∈ lefts, ∀ attr' ∈ rights, attr.name = attr'.name →
    attr.value.SameUnder related attr'.value

/-- The plan finds no difference, and all its calls are for graphs that are related. -/
def AttributePlan.Settles (related : Graph → Graph → Prop) (plan : AttributePlan) : Prop :=
  plan.difference? = none ∧ ∀ call ∈ plan.calls, related call.left call.right

section Plans

variable {related : Graph → Graph → Prop} {name : String}

theorem forall_graphCalls_iff {lefts rights : List Graph} (hlength : lefts.length = rights.length) :
    (∀ call ∈ graphCalls name 0 lefts rights, related call.left call.right) ↔
      List.Forall₂ related lefts rights := by
  rw [forall₂_iff_getElem?]
  constructor
  · intro hcalls
    refine ⟨hlength, fun place left right hleft hright => ?_⟩
    obtain ⟨call, hcall, rfl, rfl⟩ := exists_mem_graphCalls name 0 hleft hright
    exact hcalls call hcall
  · rintro ⟨_, hrelated⟩ call hcall
    obtain ⟨_, hleft, hright⟩ := mem_graphCalls_zero hcall
    exact hrelated call.index call.left call.right hleft hright

/-- The plan for two graphs, or for two lists of graphs, asks for what makes them equal. -/
theorem settles_graphs_iff {lefts rights : List Graph} :
    (valuePlan name (.graphs lefts) (.graphs rights)).Settles related ↔
      List.Forall₂ related lefts rights := by
  by_cases hlength : lefts.length = rights.length
  · rw [valuePlan_graphs hlength, ← forall_graphCalls_iff hlength]
    exact and_iff_right rfl
  · rw [valuePlan_graphs_ne hlength]
    constructor
    · rintro ⟨hnone, _⟩
      cases hnone
    · intro hrelated
      exact absurd hrelated.length_eq hlength

theorem settles_graph_iff {left right : Graph} :
    (valuePlan name (.graph left) (.graph right)).Settles related ↔ related left right := by
  have hplan : valuePlan name (.graph left) (.graph right) = ⟨[⟨name, 0, left, right⟩], none⟩ := rfl
  rw [hplan]
  constructor
  · intro hsettles
    exact hsettles.2 _ (List.mem_singleton_self _)
  · intro hrelated
    refine ⟨rfl, fun call hcall => ?_⟩
    rw [List.mem_singleton.mp hcall]
    exact hrelated

/-- Where not both values hold graphs, nothing is called for. -/
theorem settles_plain_iff {left right : AttributeValue}
    (hgraph : ∀ graph graph', ¬ (left = .graph graph ∧ right = .graph graph'))
    (hgraphs : ∀ graphs graphs', ¬ (left = .graphs graphs ∧ right = .graphs graphs')) :
    (valuePlan name left right).Settles related ↔ left.SamePlain right := by
  constructor
  · intro hsettles
    have hnone := hsettles.1
    unfold valuePlan at hnone
    by_cases hleft : left.isOpaque
    · simp [hleft] at hnone
    by_cases hright : right.isOpaque
    · simp [hleft, hright] at hnone
    simp only [hleft, hright, Bool.false_eq_true, if_false] at hnone
    split at hnone
    · exact absurd ⟨rfl, rfl⟩ (hgraph _ _)
    · exact absurd ⟨rfl, rfl⟩ (hgraphs _ _)
    · exact plainDifference?_eq_none_iff.mp hnone
  · intro hsame
    rw [valuePlan_of_samePlain hsame]
    exact ⟨rfl, fun call hcall => absurd hcall List.not_mem_nil⟩

theorem settles_valuePlan_iff {left right : AttributeValue} :
    (valuePlan name left right).Settles related ↔ left.SameUnder related right := by
  unfold AttributeValue.SameUnder
  split
  · exact settles_graph_iff
  · exact settles_graphs_iff
  · next hgraph hgraphs =>
    apply settles_plain_iff
    · rintro graph graph' ⟨rfl, rfl⟩
      exact hgraph graph graph' rfl rfl
    · rintro graphs graphs' ⟨rfl, rfl⟩
      exact hgraphs graphs graphs' rfl rfl

/-- A list of attributes is settled when each of them is, with the one that it is joined to. -/
theorem settles_namedPlan_iff {lefts rights : List Attribute} :
    (namedPlan lefts rights).Settles related ↔ ∀ right ∈ rights, ∃ left,
      lastNamed? lefts right.name = some left ∧ left.value.SameUnder related right.value := by
  constructor
  · rintro ⟨hnone, hcalls⟩ right hright
    obtain ⟨left, hnamed, hnoneValue, hsubset⟩ := namedPlan_eq_none hnone hright
    refine ⟨left, hnamed, settles_valuePlan_iff.mp ⟨hnoneValue, fun call hcall => ?_⟩⟩
    exact hcalls call (hsubset hcall)
  · intro hall
    apply namedPlan_of_all
    intro right hright
    obtain ⟨left, hnamed, hsame⟩ := hall right hright
    exact ⟨left, hnamed, settles_valuePlan_iff.mpr hsame⟩

/-- If no name repeats on the right, counting and looking up there decides on the whole set. -/
theorem settles_attributePlan_iff {lefts rights : List Attribute}
    (hrights : (rights.map Attribute.name).Nodup) :
    (attributePlan lefts rights).Settles related ↔ SameAttributesUnder related lefts rights := by
  constructor
  · intro hsettles
    unfold attributePlan at hsettles
    by_cases hlength : lefts.length = rights.length
    · rw [if_pos hlength, settles_namedPlan_iff] at hsettles
      have hsubset : rights.map Attribute.name ⊆ lefts.map Attribute.name := by
        intro name hname
        obtain ⟨right, hright, rfl⟩ := List.mem_map.mp hname
        obtain ⟨left, hnamed, _⟩ := hsettles right hright
        obtain ⟨hleft, hleftName⟩ := lastNamed?_eq_some hnamed
        exact hleftName ▸ List.mem_map_of_mem hleft
      have hlengths : (lefts.map Attribute.name).length ≤ (rights.map Attribute.name).length := by
        rw [List.length_map, List.length_map, hlength]
      -- as many names, all of them among those on the left: the names are the same, in some order
      have hperm := (hrights.subperm hsubset).perm_of_length_le hlengths
      have hdistinct : (lefts.map Attribute.name).Nodup := hperm.nodup_iff.mp hrights
      refine ⟨hdistinct, fun name => hperm.mem_iff.symm, ?_⟩
      intro attr hattr attr' hattr' hname
      obtain ⟨left, hnamed, hsame⟩ := hsettles attr' hattr'
      rw [← hname, lastNamed?_of_mem hdistinct hattr, Option.some.injEq] at hnamed
      exact hnamed ▸ hsame
    · rw [if_neg hlength] at hsettles
      cases hsettles.1
  · rintro ⟨hdistinct, hnames, hvalues⟩
    have hperm := (List.perm_ext_iff_of_nodup hdistinct hrights).mpr hnames
    have hlength : lefts.length = rights.length := by simpa using hperm.length_eq
    rw [attributePlan, if_pos hlength, settles_namedPlan_iff]
    intro right hright
    obtain ⟨left, hleft, hname⟩ :=
      List.mem_map.mp ((hnames right.name).mpr (List.mem_map_of_mem hright))
    refine ⟨left, ?_, hvalues left hleft right hright hname⟩
    rw [← hname]
    exact lastNamed?_of_mem hdistinct hleft

end Plans

section Sets

variable {related : Graph → Graph → Prop} {lefts rights lefts' rights' : List Attribute}

/-- The order of the attributes does not matter. -/
theorem SameAttributesUnder.of_perm (hsame : SameAttributesUnder related lefts rights)
    (hlefts : lefts.Perm lefts') (hrights : rights.Perm rights') :
    SameAttributesUnder related lefts' rights' where
  distinct := (hlefts.map Attribute.name).nodup_iff.mp hsame.distinct
  names name := by
    rw [← (hlefts.map Attribute.name).mem_iff, ← (hrights.map Attribute.name).mem_iff]
    exact hsame.names name
  values attr hattr attr' hattr' hname :=
    hsame.values attr (hlefts.mem_iff.mpr hattr) attr' (hrights.mem_iff.mpr hattr') hname

theorem AttributeValue.SamePlain.sameUnder {left right : AttributeValue}
    (hsame : left.SamePlain right) : left.SameUnder related right := by
  unfold SameUnder
  split
  · exact hsame.elim
  · exact hsame.elim
  · exact hsame

theorem AttributeValue.SameUnder.symm
    (hsymm : ∀ left right, related left right → related right left) {left right : AttributeValue}
    (hsame : left.SameUnder related right) : right.SameUnder related left := by
  unfold SameUnder at hsame
  split at hsame
  · exact hsymm _ _ hsame
  · exact List.Forall₂.flip (hsame.imp hsymm)
  · exact hsame.symm.sameUnder

/-- Neither does it matter which list is the first, if related graphs are so either way. -/
theorem SameAttributesUnder.symm (hsymm : ∀ left right, related left right → related right left)
    (hrights : (rights.map Attribute.name).Nodup)
    (hsame : SameAttributesUnder related lefts rights) :
    SameAttributesUnder related rights lefts where
  distinct := hrights
  names name := (hsame.names name).symm
  values attr hattr attr' hattr' hname :=
    (hsame.values attr' hattr' attr hattr hname.symm).symm hsymm

end Sets

section Comparing

variable {ε σ : Type} {graphsMatch : Graph → Graph → ExceptT ε (StateM σ) Bool}
  {related : Graph → Graph → Prop}

/-- The comparison of graphs answers by a relation, whatever its state, and never fails. -/
def AnswersBy (graphsMatch : Graph → Graph → ExceptT ε (StateM σ) Bool)
    (related : Graph → Graph → Prop) : Prop :=
  ∀ left right state, ∃ answer state', (graphsMatch left right).run state = (.ok answer, state') ∧
    (answer = true ↔ related left right)

/-- The comparison of attributes finds no difference. -/
def FindsNone (graphsMatch : Graph → Graph → ExceptT ε (StateM σ) Bool)
    (lefts rights : List Attribute) (state : σ) : Prop :=
  ((compareAttributes graphsMatch lefts rights).run state).1 = .ok none

/-- What is bound to a part that may fail runs in the state that this part leaves. -/
theorem run_bind {α β : Type} (first : ExceptT ε (StateM σ) α)
    (next : α → ExceptT ε (StateM σ) β) (state : σ) :
    (first >>= next).run state =
      match first.run state with
      | (.ok value, inner) => (next value).run inner
      | (.error error, inner) => (.error error, inner) := by
  change ExceptT.bindCont (m := StateM σ) next (first.run state).1 (first.run state).2 = _
  rcases first.run state with ⟨error | value, inner⟩ <;> rfl

theorem run_makeCalls_cons (call : GraphCall) (calls : List GraphCall) (state : σ) :
    (makeCalls graphsMatch (call :: calls)).run state =
      match (graphsMatch call.left call.right).run state with
      | (.ok true, inner) => (makeCalls graphsMatch calls).run inner
      | (.ok false, inner) => (.ok (some call), inner)
      | (.error error, inner) => (.error error, inner) := by
  rw [makeCalls, run_bind]
  rcases (graphsMatch call.left call.right).run state with ⟨error | _ | _, inner⟩ <;> rfl

theorem run_followPlan (plan : AttributePlan) (state : σ) :
    (followPlan graphsMatch plan).run state =
      match (makeCalls graphsMatch plan.calls).run state with
      | (.ok none, inner) => (.ok plan.difference?, inner)
      | (.ok (some call), inner) => (.ok (some (.subgraph call.name call.index)), inner)
      | (.error error, inner) => (.error error, inner) := by
  rw [followPlan, run_bind]
  rcases (makeCalls graphsMatch plan.calls).run state with ⟨error | _ | _, inner⟩ <;> rfl

/-- Calls answered by a relation all succeed exactly if they are for related graphs. -/
theorem AnswersBy.run_makeCalls (hanswers : AnswersBy graphsMatch related) (calls : List GraphCall)
    (state : σ) :
    ∃ failed? state', (makeCalls graphsMatch calls).run state = (.ok failed?, state') ∧
      (failed? = none ↔ ∀ call ∈ calls, related call.left call.right) := by
  induction calls generalizing state with
  | nil => exact ⟨none, state, rfl, by simp⟩
  | cons call calls ih =>
      obtain ⟨answer, state', hrun, hanswer⟩ := hanswers call.left call.right state
      rw [run_makeCalls_cons, hrun]
      cases answer with
      | true =>
          obtain ⟨failed?, state'', hrest, hiff⟩ := ih state'
          refine ⟨failed?, state'', hrest, ?_⟩
          rw [hiff, List.forall_mem_cons]
          exact (and_iff_right (hanswer.mp rfl)).symm
      | false =>
          refine ⟨some call, state', rfl, ?_⟩
          constructor
          · intro hnone
            cases hnone
          · intro hall
            cases hanswer.mpr (hall call List.mem_cons_self)

theorem AnswersBy.findsNone_iff (hanswers : AnswersBy graphsMatch related)
    {lefts rights : List Attribute} {state : σ} :
    FindsNone graphsMatch lefts rights state ↔ (attributePlan lefts rights).Settles related := by
  obtain ⟨failed?, state', hrun, hiff⟩ :=
    hanswers.run_makeCalls (attributePlan lefts rights).calls state
  rw [FindsNone, compareAttributes_eq, run_followPlan, hrun, AttributePlan.Settles, ← hiff]
  cases failed? <;> simp

/-- Lists of attributes differ in nothing exactly if they are the same set. So it does not matter in
which order they are, and, if graphs are compared alike either way, which of them is the first. -/
theorem compareAttributes_decides_sets (hanswers : AnswersBy graphsMatch related)
    (lefts rights : List Attribute) (hrights : (rights.map Attribute.name).Nodup) :
    (∀ state, FindsNone graphsMatch lefts rights state ↔ SameAttributesUnder related lefts rights) ∧
    (∀ lefts' rights', lefts.Perm lefts' → rights.Perm rights' → ∀ state state',
      (FindsNone graphsMatch lefts' rights' state' ↔ FindsNone graphsMatch lefts rights state)) ∧
    ((∀ left right, related left right → related right left) →
      (lefts.map Attribute.name).Nodup → ∀ state state',
      (FindsNone graphsMatch rights lefts state' ↔ FindsNone graphsMatch lefts rights state)) := by
  have hdecides : ∀ state,
      FindsNone graphsMatch lefts rights state ↔ SameAttributesUnder related lefts rights :=
    fun _ => hanswers.findsNone_iff.trans (settles_attributePlan_iff hrights)
  refine ⟨hdecides, fun lefts' rights' hlefts hperm state state' => ?_,
    fun hsymm hlefts state state' => ?_⟩
  · have hrights' : (rights'.map Attribute.name).Nodup :=
      (hperm.map Attribute.name).nodup_iff.mp hrights
    rw [hdecides, hanswers.findsNone_iff, settles_attributePlan_iff hrights']
    constructor
    · intro hsame
      exact hsame.of_perm hlefts.symm hperm.symm
    · intro hsame
      exact hsame.of_perm hlefts hperm
  · rw [hdecides, hanswers.findsNone_iff, settles_attributePlan_iff hlefts]
    constructor
    · intro hsame
      exact hsame.symm hsymm hlefts
    · intro hsame
      exact hsame.symm hsymm hrights

/-- Compares graphs by their names, and counts how often it is asked. -/
def countNameMatches (left right : Graph) : ExceptT Empty (StateM Nat) Bool := do
  modify (· + 1)
  return left.name == right.name

theorem answersBy_countNameMatches :
    AnswersBy countNameMatches fun left right => left.name = right.name := by
  intro left right state
  exact ⟨left.name == right.name, state + 1, rfl, by simp⟩

/-- The attributes of a choice of a reference and a branch. -/
def choiceAttributes : List Attribute :=
  [⟨"axis", .reference "axis" .int⟩, ⟨"then_branch", .graph { name := "then" }⟩]

theorem compareAttributes_decides_sets_choice :
    AnswersBy countNameMatches (fun left right => left.name = right.name) ∧
      (choiceAttributes.map Attribute.name).Nodup ∧
      FindsNone countNameMatches choiceAttributes.reverse choiceAttributes 0 ∧
      FindsNone countNameMatches choiceAttributes choiceAttributes.reverse 0 := by
  have hnodup : (choiceAttributes.map Attribute.name).Nodup := by decide
  have hnodup' : (choiceAttributes.reverse.map Attribute.name).Nodup := by decide
  have hsame : SameAttributesUnder (fun left right => left.name = right.name)
      choiceAttributes.reverse choiceAttributes := by
    refine ⟨hnodup', by simp, ?_⟩
    simp [choiceAttributes, AttributeValue.SameUnder, AttributeValue.SamePlain]
  obtain ⟨hdecides, _, hexchange⟩ := compareAttributes_decides_sets answersBy_countNameMatches
    choiceAttributes.reverse choiceAttributes hnodup
  have hnone := (hdecides 0).mpr hsame
  exact ⟨answersBy_countNameMatches, hnodup, hnone,
    (hexchange (fun _ _ => Eq.symm) hnodup' 0 0).mpr hnone⟩

end Comparing

end OpGraph
