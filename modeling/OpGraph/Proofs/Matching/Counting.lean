import OpGraph.Scope.Pairing
import OpGraph.Proofs.Matching.Relation
import Mathlib.Data.Finset.Card

/-!
What the two counts of a pairing tell. As no left node has two partners, the number of pairs is that
of the paired left nodes; the number of targets is that of the right nodes in use. Two of the left
nodes may share a target, so the counts are equal only if the pairing is one to one.
-/

namespace OpGraph

/-- A map between the nodes of two bodies that takes part of all of them. -/
structure NodeCover (partner? : Nat → Option Nat) (leftCount rightCount : Nat) : Prop where
  in_range : ∀ left right, partner? left = some right → left < leftCount ∧ right < rightCount
  total : ∀ left < leftCount, ∃ right, partner? left = some right
  onto : ∀ right < rightCount, ∃ left, partner? left = some right

namespace NodeBijection

variable {partner? : Nat → Option Nat} {leftCount rightCount : Nat}

theorem cover (hbijection : NodeBijection partner? leftCount rightCount) :
    NodeCover partner? leftCount rightCount :=
  ⟨hbijection.in_range, hbijection.total, hbijection.onto⟩

/-- Bodies whose nodes are mapped one to one have equally many of them. -/
theorem count_eq (hbijection : NodeBijection partner? leftCount rightCount) :
    leftCount = rightCount := by
  choose target htarget using hbijection.total
  have hcard : (Finset.range leftCount).card = (Finset.range rightCount).card := by
    refine Finset.card_bij (fun left hleft => target left (Finset.mem_range.mp hleft)) ?_ ?_ ?_
    · intro left hleft
      exact Finset.mem_range.mpr (hbijection.in_range _ _ (htarget left _)).2
    · intro left hleft left' hleft' heq
      exact hbijection.injective left left' _ (htarget left _) (heq ▸ htarget left' _)
    · intro right hright
      obtain ⟨left, hpartner⟩ := hbijection.onto right (Finset.mem_range.mp hright)
      have hleft := (hbijection.in_range left right hpartner).1
      refine ⟨left, Finset.mem_range.mpr hleft, ?_⟩
      exact Option.some.inj ((htarget left hleft).symm.trans hpartner)
  rwa [Finset.card_range, Finset.card_range] at hcard

end NodeBijection

section Counts

/-- A list without repetitions of numbers below a bound is not longer than the bound. -/
theorem length_le_of_forall_lt {items : List Nat} {count : Nat} (hnodup : items.Nodup)
    (hrange : ∀ item ∈ items, item < count) : items.length ≤ count := by
  have hsubset : items.toFinset ⊆ Finset.range count := by
    intro item hitem
    exact Finset.mem_range.mpr (hrange item (List.mem_toFinset.mp hitem))
  have hcard := Finset.card_le_card hsubset
  rwa [List.toFinset_card_of_nodup hnodup, Finset.card_range] at hcard

/-- A list without repetitions of numbers below a bound is as long as the bound exactly if it holds
all of these numbers. -/
theorem length_eq_iff_forall_mem {items : List Nat} {count : Nat} (hnodup : items.Nodup)
    (hrange : ∀ item ∈ items, item < count) :
    items.length = count ↔ ∀ index < count, index ∈ items := by
  have hcard : items.toFinset.card = items.length := List.toFinset_card_of_nodup hnodup
  have hsubset : items.toFinset ⊆ Finset.range count := by
    intro item hitem
    exact Finset.mem_range.mpr (hrange item (List.mem_toFinset.mp hitem))
  constructor
  · intro hlength index hindex
    have hle : (Finset.range count).card ≤ items.toFinset.card := by
      rw [Finset.card_range, hcard, hlength]
    have heq := Finset.eq_of_subset_of_card_le hsubset hle
    rw [← List.mem_toFinset, heq]
    exact Finset.mem_range.mpr hindex
  · intro hall
    have hsuperset : Finset.range count ⊆ items.toFinset := by
      intro index hindex
      exact List.mem_toFinset.mpr (hall index (Finset.mem_range.mp hindex))
    rw [← hcard, hsubset.antisymm hsuperset, Finset.card_range]

end Counts

namespace Pairing

variable {pairing : Pairing} {left right leftCount rightCount : Nat}

theorem mem_entries_iff : (left, right) ∈ pairing.entries ↔ pairing.partner? left = some right := by
  constructor
  · intro hmem
    cases hpartner : pairing.partner? left with
    | none => exact absurd (List.mem_map.mpr ⟨_, hmem, rfl⟩) (partner?_eq_none_iff.mp hpartner)
    | some partner =>
        have heq := List.inj_on_of_nodup_map pairing.nodup_lefts (Body.mem_of_lookup hpartner)
          hmem rfl
        rw [(Prod.mk.inj heq).2]
  · exact Body.mem_of_lookup

theorem mem_lefts_iff :
    left ∈ pairing.entries.map Prod.fst ↔ ∃ right, pairing.partner? left = some right := by
  simp only [← mem_entries_iff, List.mem_map, Prod.exists, exists_and_right, exists_eq_right]

theorem mem_rights_iff :
    right ∈ pairing.entries.map Prod.snd ↔ ∃ left, pairing.partner? left = some right := by
  simp only [← mem_entries_iff, List.mem_map, Prod.exists, exists_eq_right]

/-- Equal partners are settled on by the same pairs, in some order. -/
theorem entries_perm_of_partner? {pairing' : Pairing}
    (hpartner : ∀ left, pairing.partner? left = pairing'.partner? left) :
    pairing.entries.Perm pairing'.entries := by
  refine (List.perm_ext_iff_of_nodup pairing.nodup_lefts.of_map pairing'.nodup_lefts.of_map).mpr ?_
  rintro ⟨left, right⟩
  rw [mem_entries_iff, mem_entries_iff, hpartner]

/-- Equal partners are equally many. -/
theorem counts_of_partner? {pairing' : Pairing}
    (hpartner : ∀ left, pairing.partner? left = pairing'.partner? left) :
    pairing.size = pairing'.size ∧ pairing.targetCount = pairing'.targetCount := by
  have hperm := entries_perm_of_partner? hpartner
  refine ⟨hperm.length_eq, ?_⟩
  rw [targetCount, targetCount, length_eraseDups, length_eraseDups]
  exact (hperm.map Prod.snd).dedup.length_eq

/-- All pairs are of nodes in bodies with so many nodes. -/
def InRange (pairing : Pairing) (leftCount rightCount : Nat) : Prop :=
  ∀ left right, pairing.partner? left = some right → left < leftCount ∧ right < rightCount

/-- There are as many pairs as left nodes exactly if every left node has a partner. -/
theorem size_eq_iff (hrange : pairing.InRange leftCount rightCount) :
    pairing.size = leftCount ↔ ∀ left < leftCount, ∃ right, pairing.partner? left = some right := by
  have hsize : pairing.size = (pairing.entries.map Prod.fst).length := (List.length_map _).symm
  have hlefts : ∀ left ∈ pairing.entries.map Prod.fst, left < leftCount := by
    intro left hleft
    obtain ⟨right, hpartner⟩ := mem_lefts_iff.mp hleft
    exact (hrange left right hpartner).1
  rw [hsize, length_eq_iff_forall_mem pairing.nodup_lefts hlefts]
  simp only [mem_lefts_iff]

theorem InRange.target_lt (hrange : pairing.InRange leftCount rightCount) :
    ∀ right ∈ (pairing.entries.map Prod.snd).eraseDups, right < rightCount := by
  intro right hright
  obtain ⟨left, hpartner⟩ := mem_rights_iff.mp (List.mem_eraseDups.mp hright)
  exact (hrange left right hpartner).2

/-- There are as many targets as right nodes exactly if every right node is a partner. -/
theorem targetCount_eq_iff (hrange : pairing.InRange leftCount rightCount) :
    pairing.targetCount = rightCount ↔
      ∀ right < rightCount, ∃ left, pairing.partner? left = some right := by
  rw [targetCount, length_eq_iff_forall_mem (nodup_eraseDups _) hrange.target_lt]
  simp only [List.mem_eraseDups, mem_rights_iff]

/-- No more right nodes are partners than there are. -/
theorem targetCount_le (hrange : pairing.InRange leftCount rightCount) :
    pairing.targetCount ≤ rightCount :=
  length_le_of_forall_lt (nodup_eraseDups _) hrange.target_lt

/-- No more right nodes are partners than left nodes have one. -/
theorem targetCount_le_size (pairing : Pairing) : pairing.targetCount ≤ pairing.size := by
  have hsize : pairing.size = (pairing.entries.map Prod.snd).length := (List.length_map _).symm
  rw [targetCount, length_eraseDups, hsize]
  exact (List.dedup_sublist _).length_le

/-- There are as many targets as pairs exactly if no two left nodes share a partner. -/
theorem targetCount_eq_size_iff :
    pairing.targetCount = pairing.size ↔
      ∀ left left' right, pairing.partner? left = some right →
        pairing.partner? left' = some right → left = left' := by
  have hsize : pairing.size = (pairing.entries.map Prod.snd).length := (List.length_map _).symm
  have hnodup : pairing.targetCount = pairing.size ↔ (pairing.entries.map Prod.snd).Nodup := by
    rw [targetCount, length_eraseDups, hsize, ← List.dedup_eq_self]
    exact ⟨(List.dedup_sublist _).eq_of_length, congrArg List.length⟩
  rw [hnodup]
  constructor
  · intro hrights left left' right hpartner hpartner'
    have heq := List.inj_on_of_nodup_map hrights (mem_entries_iff.mpr hpartner)
      (mem_entries_iff.mpr hpartner') rfl
    exact (Prod.mk.inj heq).1
  · intro hinjective
    refine List.Nodup.map_on ?_ (List.Nodup.of_map _ pairing.nodup_lefts)
    rintro ⟨left, right⟩ hmem ⟨left', right'⟩ hmem' heq
    change right = right' at heq
    subst heq
    rw [hinjective left left' right (mem_entries_iff.mp hmem) (mem_entries_iff.mp hmem')]

/-- The two counts are those of the nodes exactly if all nodes take part. -/
theorem cover_iff (hrange : pairing.InRange leftCount rightCount) :
    NodeCover pairing.partner? leftCount rightCount ↔
      pairing.size = leftCount ∧ pairing.targetCount = rightCount := by
  rw [size_eq_iff hrange, targetCount_eq_iff hrange]
  exact ⟨fun hcover => ⟨hcover.total, hcover.onto⟩, fun hcounts => ⟨hrange, hcounts.1, hcounts.2⟩⟩

/-- If all nodes take part, they do so one to one exactly if there are equally many of them. -/
theorem bijection_iff_of_cover (hcover : NodeCover pairing.partner? leftCount rightCount) :
    NodeBijection pairing.partner? leftCount rightCount ↔ leftCount = rightCount := by
  have hrange : pairing.InRange leftCount rightCount := hcover.in_range
  obtain ⟨hsize, htargets⟩ := (cover_iff hrange).mp hcover
  constructor
  · intro hbijection
    have heq := targetCount_eq_size_iff.mpr hbijection.injective
    omega
  · intro hcount
    have hinjective := targetCount_eq_size_iff.mp (by omega : pairing.targetCount = pairing.size)
    exact ⟨hrange, hcover.total, hinjective, hcover.onto⟩

/-- Pairs of nodes that are there map as many nodes one to one as there are pairs and targets. -/
theorem bijection_of_entries {count : Nat}
    (hentries : ∀ pair ∈ pairing.entries, pair.1 < count ∧ pair.2 < count)
    (hsize : pairing.size = count) (htargets : pairing.targetCount = count) :
    NodeBijection pairing.partner? count count := by
  have hrange : pairing.InRange count count := by
    intro left right hpartner
    exact hentries _ (mem_entries_iff.mpr hpartner)
  exact (bijection_iff_of_cover ((cover_iff hrange).mpr ⟨hsize, htargets⟩)).mpr rfl

end Pairing

end OpGraph
