import OpGraph.Proofs.Matching.Counting
import Mathlib.Data.List.Basic

/-!
Whether the two counts of a pairing decide that it maps the nodes of two bodies one to one. A pairing
is made pair by pair, and a left node keeps the first partner that it gets. The counts are those of
the bodies exactly if all nodes take part. That is a bijection unless the left body has more nodes
than the right one: then some of them share a partner, which the counts do not tell.
-/

namespace OpGraph

/-- All pairs are of nodes in bodies with so many nodes. -/
def PairsInRange (leftCount rightCount : Nat) (pairs : List (Nat × Nat)) : Prop :=
  ∀ pair ∈ pairs, pair.1 < leftCount ∧ pair.2 < rightCount

namespace Pairing

/-- Settles on pairs, one after the other. -/
def insertAll (pairing : Pairing) (pairs : List (Nat × Nat)) : Pairing :=
  pairs.foldl (fun pairing pair => pairing.insertIfNew pair.1 pair.2) pairing

/-- The pairing that these pairs lead to, where there was none before. -/
def ofPairs (pairs : List (Nat × Nat)) : Pairing := insertAll ⟨[], List.nodup_nil⟩ pairs

/-- Pairs for more left nodes than right ones: those beyond the right nodes share the last of them. -/
def crowdedPairs (leftCount rightCount : Nat) : List (Nat × Nat) :=
  (List.range leftCount).map fun left => (left, min left (rightCount - 1))

variable {pairing : Pairing} {pairs : List (Nat × Nat)} {left leftCount rightCount : Nat}

/-- A left node keeps its partner, and gets the first one that it is given if it has none. -/
theorem partner?_insertAll (pairing : Pairing) (pairs : List (Nat × Nat)) (left : Nat) :
    (pairing.insertAll pairs).partner? left = (pairing.partner? left).or (pairs.lookup left) := by
  induction pairs generalizing pairing with
  | nil => simp [insertAll]
  | cons pair rest ih =>
      obtain ⟨first, partner⟩ := pair
      have hstep : (pairing.insertAll ((first, partner) :: rest)).partner? left =
          ((pairing.insertIfNew first partner).partner? left).or (rest.lookup left) := ih _
      rw [hstep, partner?_insertIfNew, List.lookup_cons]
      by_cases hfirst : left = first
      · subst hfirst
        cases pairing.partner? left <;> simp
      · have hbeq : (left == first) = false := by simpa using hfirst
        rw [if_neg hfirst, hbeq]

theorem partner?_ofPairs (pairs : List (Nat × Nat)) (left : Nat) :
    (ofPairs pairs).partner? left = pairs.lookup left := by
  rw [ofPairs, partner?_insertAll]
  rfl

theorem inRange_ofPairs (hinRange : PairsInRange leftCount rightCount pairs) :
    (ofPairs pairs).InRange leftCount rightCount := by
  intro left right hpartner
  rw [partner?_ofPairs] at hpartner
  exact hinRange _ (Body.mem_of_lookup hpartner)

/-- The counts of a pairing are those of two bodies exactly if all nodes take part. -/
theorem isBijective_iff_cover (hrange : pairing.InRange leftCount rightCount) :
    pairing.isBijective leftCount rightCount = true ↔
      NodeCover pairing.partner? leftCount rightCount := by
  rw [cover_iff hrange, isBijective, Bool.and_eq_true, beq_iff_eq, beq_iff_eq]

/-- A pairing is a bijection exactly if its counts are those of the bodies and these are equal. -/
theorem bijection_iff_isBijective (hrange : pairing.InRange leftCount rightCount) :
    NodeBijection pairing.partner? leftCount rightCount ↔
      pairing.isBijective leftCount rightCount = true ∧ leftCount = rightCount := by
  rw [isBijective_iff_cover hrange]
  constructor
  · intro hbijection
    exact ⟨hbijection.cover, hbijection.count_eq⟩
  · rintro ⟨hcover, hcount⟩
    exact (bijection_iff_of_cover hcover).mpr hcount

/-- The right nodes can all take part only if there are no more of them than left ones. -/
theorem le_of_isBijective (hcounts : pairing.isBijective leftCount rightCount = true) :
    rightCount ≤ leftCount := by
  rw [isBijective, Bool.and_eq_true, beq_iff_eq, beq_iff_eq] at hcounts
  have hle := pairing.targetCount_le_size
  omega

theorem crowdedPairs_inRange (hpos : 0 < rightCount) :
    PairsInRange leftCount rightCount (crowdedPairs leftCount rightCount) := by
  intro pair hpair
  obtain ⟨left, hleft, rfl⟩ := List.mem_map.mp hpair
  have hlt := List.mem_range.mp hleft
  exact ⟨hlt, by simp only; omega⟩

theorem partner?_crowdedPairs (hleft : left < leftCount) :
    (ofPairs (crowdedPairs leftCount rightCount)).partner? left =
      some (min left (rightCount - 1)) := by
  rw [partner?_ofPairs]
  exact List.lookup_graph _ (List.mem_range.mpr hleft)

/-- Where left nodes share the last right node, all nodes take part. -/
theorem crowdedPairs_cover (hpos : 0 < rightCount) (hle : rightCount ≤ leftCount) :
    NodeCover (ofPairs (crowdedPairs leftCount rightCount)).partner? leftCount rightCount := by
  refine ⟨inRange_ofPairs (crowdedPairs_inRange hpos), ?_, ?_⟩
  · intro left hleft
    exact ⟨_, partner?_crowdedPairs hleft⟩
  · intro right hright
    refine ⟨right, ?_⟩
    rw [partner?_crowdedPairs (Nat.lt_of_lt_of_le hright hle), Nat.min_eq_left (by omega)]

/-- Whatever pairs of nodes are settled on, the counts tell exactly whether all nodes take part, and
whether they do so one to one if the bodies have equally many nodes. So they decide on bijections for
all pairings of bodies of these sizes exactly if the left one is not the larger one, or the right one
has no nodes at all. -/
theorem isBijective_decides (leftCount rightCount : Nat) :
    (∀ pairs, PairsInRange leftCount rightCount pairs →
      ((ofPairs pairs).isBijective leftCount rightCount = true ↔
        NodeCover (ofPairs pairs).partner? leftCount rightCount) ∧
      (NodeBijection (ofPairs pairs).partner? leftCount rightCount ↔
        (ofPairs pairs).isBijective leftCount rightCount = true ∧ leftCount = rightCount)) ∧
    ((∀ pairs, PairsInRange leftCount rightCount pairs →
      ((ofPairs pairs).isBijective leftCount rightCount = true ↔
        NodeBijection (ofPairs pairs).partner? leftCount rightCount)) ↔
      leftCount ≤ rightCount ∨ rightCount = 0) := by
  refine ⟨fun pairs hinRange => ?_, fun hdecides => ?_, fun hsizes pairs hinRange => ?_⟩
  · have hrange := inRange_ofPairs hinRange
    exact ⟨isBijective_iff_cover hrange, bijection_iff_isBijective hrange⟩
  · by_contra hcrowded
    rw [not_or] at hcrowded
    have hpos : 0 < rightCount := by omega
    have hinRange : PairsInRange leftCount rightCount (crowdedPairs leftCount rightCount) :=
      crowdedPairs_inRange hpos
    have hcounts := (isBijective_iff_cover (inRange_ofPairs hinRange)).mpr
      (crowdedPairs_cover hpos (by omega))
    have hcount := ((hdecides _ hinRange).mp hcounts).count_eq
    omega
  · rw [bijection_iff_isBijective (inRange_ofPairs hinRange), iff_self_and]
    intro hcounts
    have hle := le_of_isBijective hcounts
    rcases hsizes with hsizes | rfl
    · omega
    · -- there is no right node to pair with, so there are no pairs
      have hnil : pairs = [] := by
        rw [List.eq_nil_iff_forall_not_mem]
        intro pair hpair
        exact Nat.not_lt_zero _ (hinRange pair hpair).2
      subst hnil
      have hsize := (Bool.and_eq_true _ _ ▸ hcounts).1
      exact (beq_iff_eq.mp hsize).symm

/-- Two nodes that change places. -/
theorem isBijective_decides_swap :
    PairsInRange 2 2 [(0, 1), (1, 0)] ∧ (ofPairs [(0, 1), (1, 0)]).isBijective 2 2 = true ∧
      NodeBijection (ofPairs [(0, 1), (1, 0)]).partner? 2 2 := by
  have hinRange : PairsInRange 2 2 [(0, 1), (1, 0)] := by simp [PairsInRange]
  have hcounts : (ofPairs [(0, 1), (1, 0)]).isBijective 2 2 = true := by decide
  have hdecides := (isBijective_decides 2 2).2.mpr (.inl (Nat.le_refl 2))
  exact ⟨hinRange, hcounts, (hdecides _ hinRange).mp hcounts⟩

/-- Two nodes that share the only right one have the counts of a bijection. -/
theorem isBijective_shared : PairsInRange 2 1 [(0, 0), (1, 0)] ∧
    (ofPairs [(0, 0), (1, 0)]).isBijective 2 1 = true ∧
      ¬ NodeBijection (ofPairs [(0, 0), (1, 0)]).partner? 2 1 := by
  refine ⟨by simp [PairsInRange], by decide, fun hbijection => ?_⟩
  have hcount := hbijection.count_eq
  omega

end Pairing

end OpGraph
