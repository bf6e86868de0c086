import OpGraph.Scope.Basic
import OpGraph.Proofs.Scoping.Definitions
import Mathlib.Data.List.Forall2

/-!
How the scopes of a comparison change. A scope keeps its bodies, its place and the pairs that it
has; all that ever happens to it is that nodes without a partner are paired. A scope entered in
between is gone once it is left.
-/

namespace OpGraph

/-- The same scope with more pairs. -/
structure Scope.Extends (scope scope' : Scope) : Prop where
  parent : scope'.parent = scope.parent
  left : scope'.left = scope.left
  right : scope'.right = scope.right
  partner : ∀ index index', scope.pairing.partner? index = some index' →
    scope'.pairing.partner? index = some index'

theorem Scope.Extends.refl (scope : Scope) : scope.Extends scope :=
  ⟨rfl, rfl, rfl, fun _ _ hpartner => hpartner⟩

theorem Scope.Extends.trans {first second third : Scope} (hsecond : first.Extends second)
    (hthird : second.Extends third) : first.Extends third where
  parent := hthird.parent.trans hsecond.parent
  left := hthird.left.trans hsecond.left
  right := hthird.right.trans hsecond.right
  partner index index' hpartner :=
    hthird.partner index index' (hsecond.partner index index' hpartner)

namespace ScopeStack

/-- The same scopes with more pairs. -/
def Extends (stack stack' : ScopeStack) : Prop :=
  List.Forall₂ Scope.Extends stack.scopes stack'.scopes

variable {stack stack' : ScopeStack} {level left right : Nat}

theorem Extends.refl (stack : ScopeStack) : stack.Extends stack :=
  List.forall₂_same.mpr fun scope _ => Scope.Extends.refl scope

theorem Extends.trans {first second third : ScopeStack} (hsecond : first.Extends second)
    (hthird : second.Extends third) : first.Extends third := by
  unfold Extends at *
  generalize first.scopes = scopes at *
  generalize second.scopes = scopes' at *
  generalize third.scopes = scopes'' at *
  induction hsecond generalizing scopes'' with
  | nil => exact hthird
  | cons hscope _ ih =>
      cases hthird with
      | cons hscope' hrest => exact .cons (hscope.trans hscope') (ih _ hrest)

theorem Extends.depth_eq (hextends : stack.Extends stack') : stack'.depth = stack.depth :=
  (List.Forall₂.length_eq hextends).symm

theorem Extends.scope? (hextends : stack.Extends stack') {scope : Scope}
    (hscope : stack.scope? level = some scope) :
    ∃ scope', stack'.scope? level = some scope' ∧ scope.Extends scope' := by
  obtain ⟨hlevel, hget⟩ := List.getElem?_eq_some_iff.mp hscope
  have hlevel' : level < stack'.scopes.length := by
    rw [← List.Forall₂.length_eq hextends]
    exact hlevel
  refine ⟨stack'.scopes[level], List.getElem?_eq_getElem hlevel', ?_⟩
  rw [← hget]
  exact List.Forall₂.get hextends hlevel hlevel'

theorem Extends.scope?_back (hextends : stack.Extends stack') {scope' : Scope}
    (hscope : stack'.scope? level = some scope') :
    ∃ scope, stack.scope? level = some scope ∧ scope.Extends scope' := by
  obtain ⟨hlevel, hget⟩ := List.getElem?_eq_some_iff.mp hscope
  have hlevel' : level < stack.scopes.length := by
    rw [List.Forall₂.length_eq hextends]
    exact hlevel
  refine ⟨stack.scopes[level], List.getElem?_eq_getElem hlevel', ?_⟩
  rw [← hget]
  exact List.Forall₂.get hextends hlevel' hlevel

theorem Extends.partner? (hextends : stack.Extends stack')
    (hpartner : stack.partner? level left = some right) :
    stack'.partner? level left = some right := by
  obtain ⟨scope, hscope, hright⟩ := Option.bind_eq_some_iff.mp hpartner
  obtain ⟨scope', hscope', hscopes⟩ := hextends.scope? hscope
  exact Option.bind_eq_some_iff.mpr ⟨scope', hscope', hscopes.partner _ _ hright⟩

theorem partner?_of_scope? {scope : Scope} (hscope : stack.scope? level = some scope) :
    stack.partner? level left = scope.pairing.partner? left := by
  rw [partner?, hscope, Option.bind_some]

theorem scopes_push (stack : ScopeStack) (parent : Nat) (left right : Body) :
    (stack.push parent left right).scopes =
      stack.scopes ++ [{ parent := some parent, left, right }] := rfl

theorem scope?_eq_some_lt {scope : Scope} (hscope : stack.scope? level = some scope) :
    level < stack.depth :=
  (List.getElem?_eq_some_iff.mp hscope).1

theorem exists_scope? (hlevel : level < stack.depth) : ∃ scope, stack.scope? level = some scope :=
  ⟨_, List.getElem?_eq_getElem hlevel⟩

theorem scope?_push_depth (stack : ScopeStack) (parent : Nat) (left right : Body) :
    (stack.push parent left right).scope? stack.depth =
      some { parent := some parent, left, right } := by
  rw [scope?_push, if_pos rfl]

theorem scope?_push_of_lt {parent : Nat} {left right : Body} (hlevel : level < stack.depth) :
    (stack.push parent left right).scope? level = stack.scope? level := by
  rw [scope?_push, if_neg (Nat.ne_of_lt hlevel)]

/-- Leaving removes the innermost of several scopes. -/
theorem scopes_pop (hdepth : 1 < stack.depth) : stack.pop.scopes = stack.scopes.dropLast := by
  have hnested : stack.nested ≠ [] := by
    intro hnil
    simp [depth, scopes, hnil] at hdepth
  rw [scopes, scopes, List.dropLast_cons_of_ne_nil hnested]
  rfl

theorem depth_pop (hdepth : 1 < stack.depth) : stack.pop.depth + 1 = stack.depth := by
  rw [depth, scopes_pop hdepth, List.length_dropLast]
  rw [depth] at hdepth ⊢
  omega

theorem scope?_pop_of_lt (hlevel : level + 1 < stack.depth) :
    stack.pop.scope? level = stack.scope? level := by
  rw [scope?, scope?, scopes_pop (by omega), List.getElem?_dropLast, if_pos]
  have hdepth : stack.depth = stack.scopes.length := rfl
  omega

/-- What is there without the innermost scope is there with it. -/
theorem scope?_eq_some_of_pop {stack : ScopeStack} {level : Nat} {scope : Scope}
    (hscope : stack.pop.scope? level = some scope) : stack.scope? level = some scope := by
  rw [scope?, scopes, pop] at hscope
  rw [scope?, scopes]
  cases level with
  | zero => exact hscope
  | succ level =>
      rw [List.getElem?_cons_succ, List.getElem?_dropLast] at hscope
      rw [List.getElem?_cons_succ]
      split at hscope
      · exact hscope
      · cases hscope

/-- A scope that is entered and left leaves no trace beside the pairs made in between. -/
theorem Extends.pop {parent : Nat} {left right : Body}
    (hextends : (stack.push parent left right).Extends stack') : stack.Extends stack'.pop := by
  have hdepth : stack'.depth = stack.depth + 1 := by
    rw [hextends.depth_eq, depth_push]
  have hpos : 0 < stack.depth := by simp [depth, scopes]
  have hlength : stack'.scopes.length - 1 = stack.scopes.length := by
    change stack'.depth - 1 = stack.depth
    omega
  have htake := List.forall₂_take stack.scopes.length hextends
  rw [scopes_push, List.take_left, ← hlength, ← List.dropLast_eq_take] at htake
  rw [Extends, scopes_pop (by omega)]
  exact htake

theorem scopes_pair (stack : ScopeStack) (level left right : Nat) :
    (stack.pair level left right).scopes = stack.scopes.modify level fun scope =>
      { scope with pairing := scope.pairing.insertIfNew left right } := by
  cases level with
  | zero => rfl
  | succ level => rfl

theorem Scope.extends_insertIfNew (scope : Scope) (left right : Nat) :
    scope.Extends { scope with pairing := scope.pairing.insertIfNew left right } := by
  refine ⟨rfl, rfl, rfl, fun index index' hpartner => ?_⟩
  rw [Pairing.partner?_insertIfNew]
  by_cases hindex : index = left
  · subst hindex
    rw [if_pos rfl, hpartner, Option.getD_some]
  · rw [if_neg hindex, hpartner]

theorem extends_pair (stack : ScopeStack) (level left right : Nat) :
    stack.Extends (stack.pair level left right) := by
  rw [Extends, scopes_pair, List.forall₂_iff_get]
  refine ⟨by simp, fun place hplace hplace' => ?_⟩
  simp only [List.get_eq_getElem, List.getElem_modify]
  split
  · exact Scope.extends_insertIfNew _ left right
  · exact Scope.Extends.refl _

/-- After pairing a left node it has a partner: the one that it had, or else the new one. -/
theorem partner?_pair {scope : Scope} (hscope : stack.scope? level = some scope)
    (left right other index : Nat) :
    (stack.pair level left right).partner? other index =
      if other = level ∧ index = left then some ((stack.partner? level left).getD right)
      else stack.partner? other index := by
  by_cases hother : other = level
  · subst hother
    rw [partner?, scope?_pair, if_pos rfl, hscope, partner?_of_scope? hscope,
      partner?_of_scope? hscope]
    simp only [Option.map_some, Option.bind_some, Pairing.partner?_insertIfNew, true_and]
  · rw [partner?, scope?_pair, if_neg hother, if_neg fun hboth => hother hboth.1]
    rfl

end ScopeStack

end OpGraph
