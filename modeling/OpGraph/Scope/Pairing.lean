/-!
The pairs of nodes that a comparison has settled on. A node of the left body has at most one
partner in the right body, and keeps it.
-/

namespace OpGraph

/-- Pairs of node indices, in the order in which they were settled on. -/
structure Pairing where
  entries : List (Nat × Nat) := []
  /-- No left node has two partners. -/
  nodup_lefts : (entries.map Prod.fst).Nodup := by simp
  deriving DecidableEq

namespace Pairing

/-- The partner of a left node. -/
def partner? (pairing : Pairing) (left : Nat) : Option Nat := pairing.entries.lookup left

/-- Pairs two nodes, unless the left one has a partner already. A comparison asks for this first. -/
def insertIfNew (pairing : Pairing) (left right : Nat) : Pairing :=
  if hleft : left ∈ pairing.entries.map Prod.fst then pairing
  else
    { entries := pairing.entries ++ [(left, right)]
      nodup_lefts := by
        rw [List.map_append, List.nodup_append]
        refine ⟨pairing.nodup_lefts, by simp, ?_⟩
        intro other hother last hlast heq
        have hother' : other = left := heq.trans (List.mem_singleton.mp hlast)
        exact hleft (hother' ▸ hother) }

def size (pairing : Pairing) : Nat := pairing.entries.length

def isEmpty (pairing : Pairing) : Bool := pairing.entries.isEmpty

/-- How many right nodes have a partner. -/
def targetCount (pairing : Pairing) : Nat := (pairing.entries.map Prod.snd).eraseDups.length

/-- Whether so many left nodes are paired with so many right ones, one to one. -/
def isBijective (pairing : Pairing) (leftCount rightCount : Nat) : Bool :=
  pairing.size == leftCount && pairing.targetCount == rightCount

/-- The pairs in the order of the left nodes. -/
def sorted (pairing : Pairing) : List (Nat × Nat) :=
  pairing.entries.mergeSort fun pair pair' => pair.1 ≤ pair'.1

theorem partner?_eq_none_iff {pairing : Pairing} {left : Nat} :
    pairing.partner? left = none ↔ left ∉ pairing.entries.map Prod.fst := by
  simp only [partner?, List.lookup_eq_none_iff, List.mem_map, not_exists, not_and]
  constructor
  · intro hnone entry hentry hleft
    exact absurd (hnone entry hentry) (by simp [hleft])
  · intro hnone entry hentry
    simpa using fun hleft => hnone entry hentry hleft.symm

/-- A left node keeps its partner; a new pair is added for the left node only. -/
theorem partner?_insertIfNew (pairing : Pairing) (left right other : Nat) :
    (pairing.insertIfNew left right).partner? other =
      if other = left then some ((pairing.partner? left).getD right)
      else pairing.partner? other := by
  by_cases hleft : left ∈ pairing.entries.map Prod.fst
  · have hinsert : pairing.insertIfNew left right = pairing := dif_pos hleft
    have hsome : pairing.partner? left ≠ none := fun hnone =>
      (partner?_eq_none_iff.mp hnone) hleft
    obtain ⟨partner, hpartner⟩ := Option.ne_none_iff_exists'.mp hsome
    by_cases hother : other = left
    · simp [hinsert, hother, hpartner]
    · simp [hinsert, hother]
  · have hentries : (pairing.insertIfNew left right).entries =
        pairing.entries ++ [(left, right)] := by
      simp [insertIfNew, hleft]
    have hnone : pairing.partner? left = none := partner?_eq_none_iff.mpr hleft
    by_cases hother : other = left
    · subst hother
      rw [hnone]
      rw [partner?] at hnone
      simp [partner?, hentries, List.lookup_append, hnone]
    · have hbeq : (other == left) = false := by simpa using hother
      simp [partner?, hentries, List.lookup_append, hother, hbeq, List.lookup_cons]

end Pairing

end OpGraph
