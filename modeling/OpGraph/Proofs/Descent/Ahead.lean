import OpGraph.Proofs.Descent.Depth
import OpGraph.Proofs.Matching.Counting
import OpGraph.Proofs.Scoping.Heights

/-!
A state that is ahead of another one. Both hold the same scopes, but nodes that are under way, being
compared at the moment, may have a partner in the first state already; in the second one they have
none yet. All other nodes have the same partners.
-/

namespace OpGraph

/-- What a scope keeps, whatever is paired: the level around it and its bodies. -/
def Scope.frame (scope : Scope) : Option Nat × Body × Body := (scope.parent, scope.left, scope.right)

namespace ScopeStack

def frames (stack : ScopeStack) : List (Option Nat × Body × Body) := stack.scopes.map Scope.frame

section Frames

variable {stack stack' : ScopeStack} {level : Nat}

theorem frames_of_extends (hextends : stack.Extends stack') : stack'.frames = stack.frames := by
  unfold Extends at hextends
  unfold frames
  generalize stack.scopes = scopes at *
  generalize stack'.scopes = scopes' at *
  induction hextends with
  | nil => rfl
  | cons hscope _ ih =>
      rw [List.map_cons, List.map_cons, ih, Scope.frame, hscope.parent, hscope.left, hscope.right]
      rfl

theorem frames_push (stack : ScopeStack) (parent : Nat) (left right : Body) :
    (stack.push parent left right).frames = stack.frames ++ [(some parent, left, right)] := by
  rw [frames, scopes_push, List.map_append]
  rfl

theorem frames_pair (stack : ScopeStack) (level left right : Nat) :
    (stack.pair level left right).frames = stack.frames :=
  frames_of_extends (extends_pair stack level left right)

theorem frames_pop (hdepth : 1 < stack.depth) : stack.pop.frames = stack.frames.dropLast := by
  rw [frames, frames, scopes_pop hdepth, List.map_dropLast]

theorem map_scope?_of_frames (hframes : stack'.frames = stack.frames) (level : Nat) :
    (stack'.scope? level).map Scope.frame = (stack.scope? level).map Scope.frame := by
  have hget := congrArg (fun frames => frames[level]?) hframes
  simp only [frames, List.getElem?_map] at hget
  exact hget

theorem depth_of_frames (hframes : stack'.frames = stack.frames) : stack'.depth = stack.depth := by
  have hlength := congrArg List.length hframes
  rwa [frames, frames, List.length_map, List.length_map] at hlength

theorem scope?_of_frames (hframes : stack'.frames = stack.frames) {scope : Scope}
    (hscope : stack.scope? level = some scope) :
    ∃ scope', stack'.scope? level = some scope' ∧ scope'.parent = scope.parent ∧
      scope'.left = scope.left ∧ scope'.right = scope.right := by
  have hmap := map_scope?_of_frames hframes level
  rw [hscope, Option.map_some, Option.map_eq_some_iff] at hmap
  obtain ⟨scope', hscope', hframe⟩ := hmap
  rw [Scope.frame, Scope.frame, Prod.mk.injEq, Prod.mk.injEq] at hframe
  exact ⟨scope', hscope', hframe⟩

theorem scope?_eq_none_of_frames (hframes : stack'.frames = stack.frames)
    (hscope : stack.scope? level = none) : stack'.scope? level = none := by
  have hmap := map_scope?_of_frames hframes level
  rwa [hscope, Option.map_none, Option.map_eq_none_iff] at hmap

/-- A lookup depends on the frames alone. -/
theorem lookupOutward?_of_frames (hframes : stack'.frames = stack.frames) (left right : String)
    (moves level : Nat) :
    stack'.lookupOutward? left right moves level = stack.lookupOutward? left right moves level := by
  refine lookupOutward?_congr (fun level => ?_) moves level
  cases hscope : stack.scope? level with
  | none => rw [lookup?, lookup?, hscope, scope?_eq_none_of_frames hframes hscope]
  | some scope =>
      obtain ⟨scope', hscope', hparent, hleft, hright⟩ := scope?_of_frames hframes hscope
      simp only [lookup?, hscope, hscope', Option.map_some, Scope.lookup, hparent, hleft, hright]

end Frames

section Partners

variable {stack : ScopeStack} {level : Nat}

theorem partner?_of_depth_le (hlevel : stack.depth ≤ level) (index : Nat) :
    stack.partner? level index = none := by
  rw [partner?, scope?, List.getElem?_eq_none hlevel, Option.bind_none]

/-- A scope that is entered has no pairs. -/
@[simp] theorem partner?_push (stack : ScopeStack) (parent : Nat) (left right : Body)
    (level index : Nat) :
    (stack.push parent left right).partner? level index = stack.partner? level index := by
  by_cases hlevel : level = stack.depth
  · rw [hlevel, partner?_of_scope? (scope?_push_depth stack parent left right),
      partner?_of_depth_le (Nat.le_refl _)]
    rfl
  · rw [partner?, partner?, scope?_push, if_neg hlevel]

theorem partner?_pop_of_lt (hlevel : level + 1 < stack.depth) (index : Nat) :
    stack.pop.partner? level index = stack.partner? level index := by
  rw [partner?, partner?, scope?_pop_of_lt hlevel]

theorem Extends.push {stack' : ScopeStack} (hextends : stack.Extends stack') (parent : Nat)
    (left right : Body) :
    (stack.push parent left right).Extends (stack'.push parent left right) := by
  rw [Extends, scopes_push, scopes_push]
  exact List.rel_append hextends (.cons (Scope.Extends.refl _) .nil)

end Partners

end ScopeStack

/-- The nodes under way at each level, with the partner that the state ahead has for each of them.
-/
abbrev Underway : Type := Nat → Nat → Option (Option Nat)

namespace Underway

/-- The nodes under way with one more of them, or with another partner for one of them. -/
def set (underway : Underway) (level index : Nat) (partner? : Option Nat) : Underway :=
  fun other place => if other = level ∧ place = index then some partner? else underway other place

end Underway

open ScopeStack

/-- The first state is ahead of the second one; it grew out of the given scopes. -/
structure CompareState.Ahead (base : ScopeStack) (underway : Underway)
    (state state' : CompareState) : Prop where
  grown : base.Extends state.stack
  frames : state'.stack.frames = state.stack.frames
  done : ∀ ⦃level index⦄, underway level index = none →
    state'.stack.partner? level index = state.stack.partner? level index
  ahead : ∀ ⦃level index partner?⦄, underway level index = some partner? →
    state.stack.partner? level index = partner?
  behind : ∀ ⦃level index partner?⦄, underway level index = some partner? →
    state'.stack.partner? level index = none
  difference : state.difference = state'.difference

/-- The nodes under way are at levels that are there, and the recursion from each of them is at
least so high. -/
structure Underway.Above (underway : Underway) (base : ScopeStack) (height : Nat) : Prop where
  lt_depth : ∀ ⦃level index⦄, underway level index ≠ none → level < base.depth
  higher : ∀ ⦃level index scope node⦄, underway level index ≠ none →
    base.scope? level = some scope → scope.left.nodes[index]? = some node →
    ∀ below < height, ¬ node.EndsWithin below (base.leftBodies level)

namespace Underway

variable {underway : Underway} {base : ScopeStack} {height height' level index : Nat}
  {partner? : Option Nat}

theorem set_of_ne {other place : Nat} (hne : ¬ (other = level ∧ place = index)) :
    underway.set level index partner? other place = underway other place :=
  if_neg hne

theorem set_eq_none_iff {other place : Nat} :
    underway.set level index partner? other place = none ↔
      ¬ (other = level ∧ place = index) ∧ underway other place = none := by
  rw [set]
  split
  next hsame => simp [hsame]
  next hne => simp [hne]

theorem set_eq_some_iff {other place : Nat} {found? : Option Nat} :
    underway.set level index partner? other place = some found? ↔
      (other = level ∧ place = index) ∧ partner? = found? ∨
        ¬ (other = level ∧ place = index) ∧ underway other place = some found? := by
  rw [set]
  split
  next hsame => simp [hsame]
  next hne => simp [hne]

/-- Nothing is under way. -/
theorem Above.nothing (base : ScopeStack) (height : Nat) :
    Above (fun _ _ => none) base height :=
  ⟨fun _ _ hunderway => absurd rfl hunderway, fun _ _ _ _ hunderway => absurd rfl hunderway⟩

theorem Above.mono (habove : underway.Above base height) (hle : height' ≤ height) :
    underway.Above base height' where
  lt_depth := habove.lt_depth
  higher _ _ _ _ hunderway hscope hnode below hbelow :=
    habove.higher hunderway hscope hnode below (Nat.lt_of_lt_of_le hbelow hle)

/-- One more node is under way, the recursion from which is at least so high. -/
theorem Above.set (habove : underway.Above base height) {scope : Scope} {node : Node}
    (hscope : base.scope? level = some scope) (hnode : scope.left.nodes[index]? = some node)
    (hhigher : ∀ below < height, ¬ node.EndsWithin below (base.leftBodies level)) :
    (underway.set level index partner?).Above base height := by
  constructor
  · intro other place hunderway
    by_cases hsame : other = level ∧ place = index
    · exact hsame.1 ▸ scope?_eq_some_lt hscope
    · rw [set_of_ne hsame] at hunderway
      exact habove.lt_depth hunderway
  · intro other place scope' node' hunderway hscope' hnode'
    by_cases hsame : other = level ∧ place = index
    · obtain ⟨rfl, rfl⟩ := hsame
      rw [hscope, Option.some.injEq] at hscope'
      subst hscope'
      rw [hnode, Option.some.injEq] at hnode'
      subst hnode'
      exact hhigher
    · rw [set_of_ne hsame] at hunderway
      exact habove.higher hunderway hscope' hnode'

theorem Above.push (habove : underway.Above base height) (parent : Nat) (left right : Body) :
    underway.Above (base.push parent left right) height := by
  constructor
  · intro level index hunderway
    rw [depth_push]
    exact Nat.lt_succ_of_lt (habove.lt_depth hunderway)
  · intro level index scope node hunderway hscope hnode
    have hlevel := habove.lt_depth hunderway
    rw [scope?_push_of_lt hlevel] at hscope
    rw [leftBodies_push_of_lt hlevel]
    exact habove.higher hunderway hscope hnode

/-- No node is under way in a scope that is entered. -/
theorem Above.eq_none (habove : underway.Above base height) (index : Nat) :
    underway base.depth index = none :=
  by_contra fun hunderway => Nat.lt_irrefl _ (habove.lt_depth hunderway)

/-- A node is not under way if the recursion from it is less high. -/
theorem Above.eq_none_of_endsWithin (habove : underway.Above base height) {scope : Scope}
    {node : Node} (hscope : base.scope? level = some scope)
    (hnode : scope.left.nodes[index]? = some node) {below : Nat} (hbelow : below < height)
    (hends : node.EndsWithin below (base.leftBodies level)) : underway level index = none :=
  by_contra fun hunderway =>
    habove.higher hunderway hscope hnode below hbelow hends

end Underway

namespace CompareState

variable {base : ScopeStack} {underway : Underway} {state state' : CompareState} {height : Nat}
  {level left right : Nat}

theorem Ahead.depth_eq (hahead : state.Ahead base underway state') :
    state.stack.depth = base.depth ∧ state'.stack.depth = base.depth :=
  ⟨hahead.grown.depth_eq, (depth_of_frames hahead.frames).trans hahead.grown.depth_eq⟩

/-- Every state is ahead of itself, if nothing is under way. -/
theorem ahead_self (state : CompareState) : state.Ahead state.stack (fun _ _ => none) state where
  grown := Extends.refl _
  frames := rfl
  done _ _ _ := rfl
  ahead _ _ _ hunderway := by cases hunderway
  behind _ _ _ hunderway := by cases hunderway
  difference := rfl

theorem Ahead.entered (hahead : state.Ahead base underway state') (parent : Nat)
    (left right : Body) :
    (state.entered parent left right).Ahead (base.push parent left right) underway
      (state'.entered parent left right) where
  grown := hahead.grown.push parent left right
  frames := by
    rw [stack_entered, stack_entered, frames_push, frames_push, hahead.frames]
  done _ _ hnone := by
    rw [stack_entered, stack_entered, partner?_push, partner?_push]
    exact hahead.done hnone
  ahead _ _ _ hunderway := by
    rw [stack_entered, partner?_push]
    exact hahead.ahead hunderway
  behind _ _ _ hunderway := by
    rw [stack_entered, partner?_push]
    exact hahead.behind hunderway
  difference := hahead.difference

theorem Ahead.popped {parent : Nat} {left right : Body}
    (hahead : state.Ahead (base.push parent left right) underway state')
    (hinside : ∀ ⦃level index⦄, underway level index ≠ none → level < base.depth) :
    state.popped.Ahead base underway state'.popped := by
  obtain ⟨hdepth, hdepth'⟩ := hahead.depth_eq
  rw [depth_push] at hdepth hdepth'
  have hpos : 0 < base.depth := by simp [depth, scopes]
  have hframes : state'.stack.pop.frames = state.stack.pop.frames := by
    rw [frames_pop (by omega), frames_pop (by omega), hahead.frames]
  refine ⟨hahead.grown.pop, hframes, ?_, ?_, ?_, hahead.difference⟩
  · intro level index hnone
    rw [stack_popped, stack_popped]
    by_cases hlevel : level < base.depth
    · rw [partner?_pop_of_lt (by omega), partner?_pop_of_lt (by omega)]
      exact hahead.done hnone
    · rw [partner?_of_depth_le, partner?_of_depth_le]
      · rw [hahead.grown.pop.depth_eq]
        omega
      · rw [depth_of_frames hframes, hahead.grown.pop.depth_eq]
        omega
  · intro level index partner? hunderway
    have hlevel : level < base.depth := hinside (Option.ne_none_iff_exists'.mpr ⟨_, hunderway⟩)
    rw [stack_popped, partner?_pop_of_lt (by omega)]
    exact hahead.ahead hunderway
  · intro level index partner? hunderway
    have hlevel : level < base.depth := hinside (Option.ne_none_iff_exists'.mpr ⟨_, hunderway⟩)
    rw [stack_popped, partner?_pop_of_lt (by omega)]
    exact hahead.behind hunderway

/-- A node gets under way. -/
theorem Ahead.begin (hahead : state.Ahead base underway state') (hnone : underway level left = none)
    (hpartner : state.stack.partner? level left = none) :
    state.Ahead base (underway.set level left none) state' := by
  refine ⟨hahead.grown, hahead.frames, ?_, ?_, ?_, hahead.difference⟩
  · intro other place hunderway
    exact hahead.done (Underway.set_eq_none_iff.mp hunderway).2
  · intro other place partner? hunderway
    rcases Underway.set_eq_some_iff.mp hunderway with ⟨⟨rfl, rfl⟩, rfl⟩ | ⟨_, hbefore⟩
    · exact hpartner
    · exact hahead.ahead hbefore
  · intro other place partner? hunderway
    rcases Underway.set_eq_some_iff.mp hunderway with ⟨⟨rfl, rfl⟩, rfl⟩ | ⟨_, hbefore⟩
    · rw [hahead.done hnone, hpartner]
    · exact hahead.behind hbefore

/-- A node that is under way gets its partner in the state that is ahead. -/
theorem Ahead.pair_first {scope : Scope} (hscope : base.scope? level = some scope)
    (hahead : state.Ahead base (underway.set level left none) state') :
    (state.paired level left right).Ahead base (underway.set level left (some right)) state' := by
  obtain ⟨scope', hscope', _⟩ := hahead.grown.scope? hscope
  have hself : underway.set level left none level left = some none :=
    Underway.set_eq_some_iff.mpr (Or.inl ⟨⟨rfl, rfl⟩, rfl⟩)
  refine ⟨hahead.grown.trans (extends_pair _ _ _ _), ?_, ?_, ?_, ?_, hahead.difference⟩
  · rw [stack_paired, frames_pair, hahead.frames]
  · intro other place hunderway
    obtain ⟨hne, hbefore⟩ := Underway.set_eq_none_iff.mp hunderway
    rw [stack_paired, partner?_pair hscope', if_neg hne]
    exact hahead.done (Underway.set_eq_none_iff.mpr ⟨hne, hbefore⟩)
  · intro other place partner? hunderway
    rw [stack_paired, partner?_pair hscope']
    rcases Underway.set_eq_some_iff.mp hunderway with ⟨⟨rfl, rfl⟩, rfl⟩ | ⟨hne, hbefore⟩
    · rw [if_pos ⟨rfl, rfl⟩, hahead.ahead hself, Option.getD_none]
    · rw [if_neg hne]
      exact hahead.ahead (Underway.set_eq_some_iff.mpr (Or.inr ⟨hne, hbefore⟩))
  · intro other place partner? hunderway
    rcases Underway.set_eq_some_iff.mp hunderway with ⟨⟨rfl, rfl⟩, rfl⟩ | ⟨hne, hbefore⟩
    · exact hahead.behind hself
    · exact hahead.behind (Underway.set_eq_some_iff.mpr (Or.inr ⟨hne, hbefore⟩))

/-- A node is no longer under way when it gets the same partner in the other state. -/
theorem Ahead.pair_second {scope : Scope} (hscope : base.scope? level = some scope)
    (hnone : underway level left = none)
    (hahead : state.Ahead base (underway.set level left (some right)) state') :
    state.Ahead base underway (state'.paired level left right) := by
  obtain ⟨scope', hscope', _⟩ := hahead.grown.scope? hscope
  obtain ⟨scope'', hscope'', _⟩ := scope?_of_frames hahead.frames hscope'
  have hself : underway.set level left (some right) level left = some (some right) :=
    Underway.set_eq_some_iff.mpr (Or.inl ⟨⟨rfl, rfl⟩, rfl⟩)
  have hother : ∀ {other place partner?}, underway other place = some partner? →
      ¬ (other = level ∧ place = left) := by
    rintro other place partner? hunderway ⟨rfl, rfl⟩
    rw [hnone] at hunderway
    cases hunderway
  refine ⟨hahead.grown, ?_, ?_, ?_, ?_, hahead.difference⟩
  · rw [stack_paired, frames_pair, hahead.frames]
  · intro other place hunderway
    rw [stack_paired, partner?_pair hscope'']
    by_cases hsame : other = level ∧ place = left
    · obtain ⟨rfl, rfl⟩ := hsame
      rw [if_pos ⟨rfl, rfl⟩, hahead.behind hself, Option.getD_none, hahead.ahead hself]
    · rw [if_neg hsame]
      exact hahead.done (Underway.set_eq_none_iff.mpr ⟨hsame, hunderway⟩)
  · intro other place partner? hunderway
    have hne := hother hunderway
    exact hahead.ahead (Underway.set_eq_some_iff.mpr (Or.inr ⟨hne, hunderway⟩))
  · intro other place partner? hunderway
    have hne := hother hunderway
    rw [stack_paired, partner?_pair hscope'', if_neg hne]
    exact hahead.behind (Underway.set_eq_some_iff.mpr (Or.inr ⟨hne, hunderway⟩))

end CompareState

end OpGraph
