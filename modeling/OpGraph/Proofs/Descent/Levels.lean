import OpGraph.Proofs.Descent.Growth
import OpGraph.Proofs.Matching.Agreement

/-!
The levels of a comparison as nested layers. From a level, names are looked up there and then at the
levels around it. Two names that are found together, at places that match, agree in the layers that
the level sees.
-/

namespace OpGraph

namespace ScopeStack

/-- Scopes of two operands, each of which stands behind the one that encloses it. -/
structure Proper (leftRoot rightRoot : Body) (stack : ScopeStack) : Prop where
  parent_lt : ∀ {level parent : Nat} {scope : Scope}, stack.scope? level = some scope →
    scope.parent = some parent → parent < level
  left : ∀ {level : Nat} {scope : Scope}, stack.scope? level = some scope →
    leftRoot.HasScope scope.left
  right : ∀ {level : Nat} {scope : Scope}, stack.scope? level = some scope →
    rightRoot.HasScope scope.right

/-- The layers that a level sees, its own first. The partners are given level by level. -/
def layers (stack : ScopeStack) (partner? : Nat → Nat → Option Nat) (level : Nat) : List Layer :=
  match stack.scope? level with
  | none => []
  | some scope =>
      ⟨scope.left, scope.right, partner? level⟩ ::
        match scope.parent with
        | none => []
        | some parent => if parent < level then stack.layers partner? parent else []
termination_by level

/-- The layers that a level sees, with the pairs that the scopes hold. -/
def layersAt (stack : ScopeStack) (level : Nat) : List Layer := stack.layers stack.partner? level

/-- A name of the left operand, looked up from a level, is found at a level. -/
inductive FindsLeft (stack : ScopeStack) (name : String) : Nat → Nat → Origin → Prop where
  | here {level : Nat} {scope : Scope} {origin : Origin} : stack.scope? level = some scope →
      scope.left.Defines name origin → FindsLeft stack name level level origin
  | outward {level parent found : Nat} {scope : Scope} {origin : Origin} :
      stack.scope? level = some scope → scope.left.Lacks name → scope.parent = some parent →
      FindsLeft stack name parent found origin → FindsLeft stack name level found origin

section Proper

variable {leftRoot rightRoot : Body} {stack stack' : ScopeStack}

theorem proper_ofBodies (left right : Body) : (ofBodies left right).Proper left right := by
  have hroot : ∀ {level : Nat} {scope : Scope}, (ofBodies left right).scope? level = some scope →
      scope = { parent := none, left, right } := by
    intro level scope hscope
    exact List.mem_singleton.mp (List.mem_of_getElem? hscope)
  refine ⟨?_, ?_, ?_⟩
  · intro level parent scope hscope hparent
    rw [hroot hscope] at hparent
    cases hparent
  · intro level scope hscope
    rw [hroot hscope]
    exact .root
  · intro level scope hscope
    rw [hroot hscope]
    exact .root

theorem Proper.of_extends (hproper : stack.Proper leftRoot rightRoot)
    (hextends : stack.Extends stack') : stack'.Proper leftRoot rightRoot := by
  refine ⟨?_, ?_, ?_⟩
  · intro level parent scope' hscope' hparent
    obtain ⟨scope, hscope, hscopes⟩ := hextends.scope?_back hscope'
    exact hproper.parent_lt hscope (hscopes.parent ▸ hparent)
  · intro level scope' hscope'
    obtain ⟨scope, hscope, hscopes⟩ := hextends.scope?_back hscope'
    exact hscopes.left ▸ hproper.left hscope
  · intro level scope' hscope'
    obtain ⟨scope, hscope, hscopes⟩ := hextends.scope?_back hscope'
    exact hscopes.right ▸ hproper.right hscope

theorem Proper.push (hproper : stack.Proper leftRoot rightRoot) {level : Nat}
    (hlevel : level < stack.depth) {left right : Body} (hleft : leftRoot.HasScope left)
    (hright : rightRoot.HasScope right) :
    (stack.push level left right).Proper leftRoot rightRoot := by
  refine ⟨?_, ?_, ?_⟩
  · intro place parent scope hscope hparent
    rw [scope?_push] at hscope
    split at hscope
    · cases hscope
      cases hparent
      omega
    · exact hproper.parent_lt hscope hparent
  · intro place scope hscope
    rw [scope?_push] at hscope
    split at hscope
    · cases hscope
      exact hleft
    · exact hproper.left hscope
  · intro place scope hscope
    rw [scope?_push] at hscope
    split at hscope
    · cases hscope
      exact hright
    · exact hproper.right hscope

end Proper

section Layers

variable {leftRoot rightRoot : Body} {stack stack' : ScopeStack} {partner? : Nat → Nat → Option Nat}
  {level : Nat} {scope : Scope}

/-- A level sees itself and what the level around it sees. -/
theorem layers_eq (hproper : stack.Proper leftRoot rightRoot)
    (hscope : stack.scope? level = some scope) :
    stack.layers partner? level = ⟨scope.left, scope.right, partner? level⟩ ::
      scope.parent.elim [] (stack.layers partner?) := by
  rw [layers, hscope]
  simp only
  congr 1
  cases hparent : scope.parent with
  | none => rfl
  | some parent => exact if_pos (hproper.parent_lt hscope hparent)

theorem layers_eq_nil (hscope : stack.scope? level = none) : stack.layers partner? level = [] := by
  rw [layers, hscope]

/-- What a level sees does not depend on the pairs of the scopes. -/
theorem layers_of_extends (hextends : stack.Extends stack') (level : Nat) :
    stack'.layers partner? level = stack.layers partner? level := by
  induction level using Nat.strongRecOn with
  | ind level ih =>
      cases hscope : stack.scope? level with
      | none =>
          have hscope' : stack'.scope? level = none := by
            cases hscope' : stack'.scope? level with
            | none => rfl
            | some scope' =>
                obtain ⟨scope, hback, _⟩ := hextends.scope?_back hscope'
                rw [hscope] at hback
                cases hback
          rw [layers_eq_nil hscope, layers_eq_nil hscope']
      | some scope =>
          obtain ⟨scope', hscope', hscopes⟩ := hextends.scope? hscope
          rw [layers, layers, hscope, hscope']
          simp only [hscopes.left, hscopes.right, hscopes.parent]
          congr 1
          cases hparent : scope.parent with
          | none => rfl
          | some parent =>
              by_cases hlt : parent < level
              · simp only [hlt, if_true]
                exact ih parent hlt
              · simp only [hlt, if_false]

/-- With more partners the layers of a level are the same, with more partners. -/
theorem layers_extends {partner?' : Nat → Nat → Option Nat}
    (hpartner : ∀ level index index', partner? level index = some index' →
      partner?' level index = some index') (level : Nat) :
    List.Forall₂ Layer.Extends (stack.layers partner? level) (stack.layers partner?' level) := by
  induction level using Nat.strongRecOn with
  | ind level ih =>
      rw [layers, layers]
      cases hscope : stack.scope? level with
      | none => exact .nil
      | some scope =>
          refine .cons ⟨rfl, rfl, hpartner level⟩ ?_
          cases hparent : scope.parent with
          | none => exact .nil
          | some parent =>
              by_cases hlt : parent < level
              · simp only [hlt, if_true]
                exact ih parent hlt
              · simp only [hlt, if_false]
                exact .nil

theorem layersAt_extends (hextends : stack.Extends stack') (level : Nat) :
    List.Forall₂ Layer.Extends (stack.layersAt level) (stack'.layersAt level) := by
  rw [layersAt, layersAt, layers_of_extends hextends]
  exact layers_extends (fun _ _ _ hpartner => hextends.partner? hpartner) level

/-- Levels up to some level see the same in two stacks that agree up to it. -/
theorem layers_congr {partner?' : Nat → Nat → Option Nat} {bound : Nat}
    (hscopes : ∀ level < bound, stack'.scope? level = stack.scope? level)
    (hpartner : ∀ level < bound, partner?' level = partner? level) (hlevel : level < bound) :
    stack'.layers partner?' level = stack.layers partner? level := by
  induction level using Nat.strongRecOn with
  | ind level ih =>
      rw [layers, layers, hscopes level hlevel, hpartner level hlevel]
      cases hscope : stack.scope? level with
      | none => rfl
      | some scope =>
          simp only
          congr 1
          cases hparent : scope.parent with
          | none => rfl
          | some parent =>
              by_cases hlt : parent < level
              · simp only [hlt, if_true]
                exact ih parent hlt (Nat.lt_trans hlt hlevel)
              · simp only [hlt, if_false]

/-- Leaving the innermost scope changes nothing for the others. -/
theorem layersAt_pop (hlevel : level + 1 < stack.depth) :
    stack.pop.layersAt level = stack.layersAt level := by
  have hscopes : ∀ other < level + 1, stack.pop.scope? other = stack.scope? other :=
    fun other hother => scope?_pop_of_lt (by omega)
  refine layers_congr hscopes ?_ (Nat.lt_succ_self level)
  intro other hother
  funext index
  rw [partner?, partner?, hscopes other hother]

/-- What the level of a scope that was entered sees when it is left. -/
theorem layersAt_entered {left right : Body} {parent : Nat}
    (hproper : stack'.Proper leftRoot rightRoot)
    (hextends : (stack.push parent left right).Extends stack') (hparent : parent < stack.depth) :
    stack'.layersAt stack.depth =
      ⟨left, right, stack'.partner? stack.depth⟩ :: stack'.pop.layersAt parent := by
  obtain ⟨scope, hscope, hscopes⟩ := hextends.scope? (scope?_push_depth stack parent left right)
  have hdepth : stack'.depth = stack.depth + 1 := by rw [hextends.depth_eq, depth_push]
  rw [layersAt, layers_eq hproper hscope, hscopes.left, hscopes.right, hscopes.parent,
    layersAt_pop (by omega)]
  rfl

end Layers

section Finding

variable {leftRoot rightRoot : Body} {stack stack' : ScopeStack} {partner? : Nat → Nat → Option Nat}
  {level found : Nat} {left right name : String} {origin origin' : Origin}

theorem lookup_eq_here {scope : Scope}
    (hlookup : scope.lookup left right = .here origin origin') :
    scope.left.origin? left = some origin ∧ scope.right.origin? right = some origin' := by
  rw [Scope.lookup] at hlookup
  cases hleft : scope.left.origin? left with
  | none =>
      cases hright : scope.right.origin? right with
      | none =>
          rw [hleft, hright] at hlookup
          cases hparent : scope.parent <;> simp [hparent] at hlookup
      | some _ => simp [hleft, hright] at hlookup
  | some _ =>
      cases hright : scope.right.origin? right with
      | none => simp [hleft, hright] at hlookup
      | some _ =>
          rw [hleft, hright] at hlookup
          cases hlookup
          exact ⟨rfl, rfl⟩

theorem lookup_eq_outward {scope : Scope} {parent : Nat}
    (hlookup : scope.lookup left right = .outward parent) :
    scope.left.origin? left = none ∧ scope.right.origin? right = none ∧
      scope.parent = some parent := by
  rw [Scope.lookup] at hlookup
  cases hleft : scope.left.origin? left with
  | none =>
      cases hright : scope.right.origin? right with
      | none =>
          rw [hleft, hright] at hlookup
          cases hparent : scope.parent with
          | none => simp [hparent] at hlookup
          | some _ =>
              rw [hparent] at hlookup
              cases hlookup
              exact ⟨rfl, rfl, rfl⟩
      | some _ => simp [hleft, hright] at hlookup
  | some _ => cases hright : scope.right.origin? right <;> simp [hleft, hright] at hlookup

theorem lookup_eq_nowhere {scope : Scope} (hlookup : scope.lookup left right = .nowhere) :
    scope.left.origin? left = none ∧ scope.right.origin? right = none ∧ scope.parent = none := by
  rw [Scope.lookup] at hlookup
  cases hleft : scope.left.origin? left <;> cases hright : scope.right.origin? right <;>
    cases hparent : scope.parent <;> simp_all

/-- A lookup ends at the level that decides. -/
theorem lookupOutward?_of_lookup {lookup : Lookup}
    (hlookup : stack.lookup? level left right = some lookup)
    (hdecides : ∀ parent, lookup ≠ .outward parent) (moves : Nat) :
    stack.lookupOutward? left right moves level = some (level, lookup) := by
  cases moves <;>
    · rw [lookupOutward?, hlookup]
      cases lookup with
      | outward parent => exact absurd rfl (hdecides parent)
      | _ => rfl

/-- A lookup ends at a level whose scope decides, or it goes on from the level around. -/
theorem lookupOutward?_eq_some {moves found : Nat} {lookup : Lookup}
    (hlookup : stack.lookupOutward? left right moves level = some (found, lookup)) :
    (stack.lookup? level left right = some lookup ∧ found = level) ∨
      ∃ parent fewer, moves = fewer + 1 ∧
        stack.lookup? level left right = some (.outward parent) ∧
        stack.lookupOutward? left right fewer parent = some (found, lookup) := by
  cases hlevel : stack.lookup? level left right with
  | none => cases moves <;> simp [lookupOutward?, hlevel] at hlookup
  | some tells =>
      cases tells with
      | outward parent =>
          cases moves with
          | zero => simp [lookupOutward?, hlevel] at hlookup
          | succ fewer =>
              rw [lookupOutward?, hlevel] at hlookup
              exact Or.inr ⟨parent, fewer, rfl, rfl, hlookup⟩
      | _ =>
          rw [lookupOutward?_of_lookup hlevel (by simp)] at hlookup
          cases hlookup
          exact Or.inl ⟨rfl, rfl⟩

/-- A lookup goes outwards until a scope decides. -/
theorem lookupOutward?_decides {moves found : Nat} {lookup : Lookup}
    (hlookup : stack.lookupOutward? left right moves level = some (found, lookup)) (parent : Nat) :
    lookup ≠ .outward parent := by
  induction moves generalizing level with
  | zero =>
      rw [lookupOutward?] at hlookup
      split at hlookup <;> simp_all
  | succ moves ih =>
      rw [lookupOutward?] at hlookup
      split at hlookup
      · cases hlookup
      · exact ih hlookup
      · simp_all

/-- A lookup that finds both names does so at its level, or else from the level around it. -/
theorem lookupOutward?_eq_here {moves : Nat}
    (hlookup : stack.lookupOutward? left right moves level = some (found, .here origin origin')) :
    (∃ scope, stack.scope? level = some scope ∧ found = level ∧
        scope.left.origin? left = some origin ∧ scope.right.origin? right = some origin') ∨
      ∃ scope parent fewer, moves = fewer + 1 ∧ stack.scope? level = some scope ∧
        scope.left.origin? left = none ∧ scope.right.origin? right = none ∧
        scope.parent = some parent ∧
        stack.lookupOutward? left right fewer parent = some (found, .here origin origin') := by
  rcases lookupOutward?_eq_some hlookup with ⟨hlevel, rfl⟩ | ⟨parent, fewer, rfl, houtward, hrest⟩
  · obtain ⟨scope, hscope, hfound⟩ := Option.map_eq_some_iff.mp hlevel
    exact Or.inl ⟨scope, hscope, rfl, lookup_eq_here hfound⟩
  · obtain ⟨scope, hscope, hfound⟩ := Option.map_eq_some_iff.mp houtward
    obtain ⟨hnone, hnone', hparent⟩ := lookup_eq_outward hfound
    exact Or.inr ⟨scope, parent, fewer, rfl, hscope, hnone, hnone', hparent, hrest⟩

/-- A lookup that finds both names does so at a level that is there. -/
theorem exists_scope_of_lookup {moves : Nat}
    (hlookup : stack.lookupOutward? left right moves level = some (found, .here origin origin')) :
    ∃ scope, stack.scope? found = some scope ∧ scope.left.origin? left = some origin ∧
      scope.right.origin? right = some origin' := by
  induction moves generalizing level with
  | zero =>
      rcases lookupOutward?_eq_here hlookup with ⟨scope, hscope, rfl, hboth⟩ | ⟨_, _, _, hmoves, _⟩
      · exact ⟨scope, hscope, hboth⟩
      · cases hmoves
  | succ moves ih =>
      rcases lookupOutward?_eq_here hlookup with
        ⟨scope, hscope, rfl, hboth⟩ | ⟨_, _, _, hmoves, _, _, _, _, hrest⟩
      · exact ⟨scope, hscope, hboth⟩
      · cases hmoves
        exact ih hrest

/-- Stacks of which each level tells the same of two names find them in the same way. -/
theorem lookupOutward?_congr
    (hlookup : ∀ level, stack'.lookup? level left right = stack.lookup? level left right)
    (moves level : Nat) :
    stack'.lookupOutward? left right moves level = stack.lookupOutward? left right moves level := by
  induction moves generalizing level with
  | zero => rw [lookupOutward?, lookupOutward?, hlookup]
  | succ moves ih => simp only [lookupOutward?, hlookup, ih]

/-- A lookup that finds the left name among the outputs of a node finds what is defined there. -/
theorem FindsLeft.of_lookup {moves index slot : Nat}
    (hlookup : stack.lookupOutward? left right moves level =
      some (found, .here (.output index slot) origin')) :
    stack.FindsLeft left level found (.output index slot) := by
  induction moves generalizing level with
  | zero =>
      rcases lookupOutward?_eq_here hlookup with ⟨scope, hscope, rfl, hfound, _⟩ | ⟨_, _, _, hmoves, _⟩
      · exact .here hscope (Body.defines_of_origin?_eq_output hfound)
      · cases hmoves
  | succ moves ih =>
      rcases lookupOutward?_eq_here hlookup with ⟨scope, hscope, rfl, hfound, _⟩ |
        ⟨scope, parent, fewer, hmoves, hscope, hnone, _, hparent, hrest⟩
      · exact .here hscope (Body.defines_of_origin?_eq_output hfound)
      · cases hmoves
        exact .outward hscope (Body.lacks_of_origin?_eq_none hnone) hparent (ih hrest)

theorem FindsLeft.name_ne_empty (hfinds : stack.FindsLeft name level found origin) : name ≠ "" := by
  induction hfinds with
  | here _ hdefines => exact hdefines.name_ne_empty
  | outward _ _ _ _ ih => exact ih

/-- A lookup of two names that finds both finds the left one where it is. -/
theorem FindsLeft.eq_of_lookup (hproper : stack.Proper leftRoot rightRoot)
    (hunique : leftRoot.UniqueScopes) {found' moves : Nat} {place place' : Origin}
    (hfinds : stack.FindsLeft left level found origin)
    (hlookup : stack.lookupOutward? left right moves level = some (found', .here place place')) :
    found = found' ∧ origin = place := by
  induction hfinds generalizing moves with
  | here hscope hdefines =>
      have hfound := hdefines.origin? (hunique _ (hproper.left hscope))
      rcases lookupOutward?_eq_here hlookup with
        ⟨scope, hscope', rfl, hplace, _⟩ | ⟨scope, _, _, _, hscope', hnone, _⟩
      · rw [hscope, Option.some.injEq] at hscope'
        subst hscope'
        rw [hfound, Option.some.injEq] at hplace
        exact ⟨rfl, hplace⟩
      · rw [hscope, Option.some.injEq] at hscope'
        subst hscope'
        rw [hfound] at hnone
        cases hnone
  | outward hscope hlacks hparent hrest ih =>
      have hnone := hlacks.origin?_eq_none fun hempty => absurd hempty hrest.name_ne_empty
      rcases lookupOutward?_eq_here hlookup with
        ⟨scope, hscope', rfl, hplace, _⟩ | ⟨scope, parent, _, _, hscope', _, _, hparent', hlater⟩
      · rw [hscope, Option.some.injEq] at hscope'
        subst hscope'
        rw [hnone] at hplace
        cases hplace
      · rw [hscope, Option.some.injEq] at hscope'
        subst hscope'
        rw [hparent, Option.some.injEq] at hparent'
        subst hparent'
        exact ih hlater

theorem lookupOutward?_here {scope : Scope} (hscope : stack.scope? level = some scope)
    (hleft : scope.left.origin? left = some origin)
    (hright : scope.right.origin? right = some origin') (moves : Nat) :
    stack.lookupOutward? left right moves level = some (level, .here origin origin') := by
  have hlookup : stack.lookup? level left right = some (.here origin origin') := by
    rw [lookup?, hscope, Option.map_some, Scope.lookup, hleft, hright]
  exact lookupOutward?_of_lookup hlookup (by simp) moves

theorem lookupOutward?_outward {scope : Scope} {parent : Nat}
    (hscope : stack.scope? level = some scope) (hleft : scope.left.origin? left = none)
    (hright : scope.right.origin? right = none) (hparent : scope.parent = some parent)
    (moves : Nat) :
    stack.lookupOutward? left right (moves + 1) level =
      stack.lookupOutward? left right moves parent := by
  have hlookup : stack.lookup? level left right = some (.outward parent) := by
    rw [lookup?, hscope, Option.map_some, Scope.lookup, hleft, hright, hparent]
  simp only [lookupOutward?, hlookup]

/-- Names agree in the layers of a level if a lookup finds them at places that match. -/
theorem agrees_of_lookup (hproper : stack.Proper leftRoot rightRoot) {moves : Nat}
    (hlookup : stack.lookupOutward? left right moves level = some (found, .here origin origin'))
    (hmatch : OriginsMatch (partner? found) origin origin') :
    Agrees (stack.layers partner? level) left right := by
  induction moves generalizing level with
  | zero =>
      rcases lookupOutward?_eq_here hlookup with
        ⟨scope, hscope, rfl, hfound, hfound'⟩ | ⟨_, _, _, hmoves, _⟩
      · rw [layers_eq hproper hscope]
        exact .here hfound hfound' hmatch
      · cases hmoves
  | succ moves ih =>
      rcases lookupOutward?_eq_here hlookup with ⟨scope, hscope, rfl, hfound, hfound'⟩ |
        ⟨scope, parent, fewer, hmoves, hscope, hnone, hnone', hparent, hrest⟩
      · rw [layers_eq hproper hscope]
        exact .here hfound hfound' hmatch
      · cases hmoves
        rw [layers_eq hproper hscope, hparent]
        exact .outward hnone hnone' (ih hrest)

/-- A lookup finds names that agree in the layers of its level at places that match. -/
theorem lookup_of_agrees (hproper : stack.Proper leftRoot rightRoot)
    (hagrees : Agrees (stack.layers partner? level) left right) {moves : Nat}
    (hmoves : level ≤ moves) :
    ∃ found origin origin',
      stack.lookupOutward? left right moves level = some (found, .here origin origin') ∧
        OriginsMatch (partner? found) origin origin' ∧
        ∃ scope, stack.scope? found = some scope := by
  induction level using Nat.strongRecOn generalizing moves with
  | ind level ih =>
      cases hscope : stack.scope? level with
      | none =>
          rw [layers_eq_nil hscope] at hagrees
          cases hagrees
      | some scope =>
          rw [layers_eq hproper hscope] at hagrees
          cases hagrees with
          | here hleft hright hmatch =>
              exact ⟨_, _, _, lookupOutward?_here hscope hleft hright moves, hmatch, scope, hscope⟩
          | outward hnone hnone' hrest =>
              cases hparent : scope.parent with
              | none =>
                  rw [hparent] at hrest
                  cases hrest
              | some parent =>
                  rw [hparent] at hrest
                  have hlt := hproper.parent_lt hscope hparent
                  obtain ⟨fewer, rfl⟩ : ∃ fewer, moves = fewer + 1 := ⟨moves - 1, by omega⟩
                  obtain ⟨found, origin, origin', hlookup, hrest⟩ := ih parent hlt hrest
                    (by omega : parent ≤ fewer)
                  refine ⟨found, origin, origin', ?_, hrest⟩
                  rw [lookupOutward?_outward hscope hnone hnone' hparent, hlookup]

end Finding

end ScopeStack

end OpGraph
