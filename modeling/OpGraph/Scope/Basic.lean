import OpGraph.Scope.Origin
import OpGraph.Scope.Pairing

/-!
Nested scopes of a comparison. A scope holds two bodies that are compared with each other. The
scope of two nested graphs is enclosed by that of the nodes that carry them. This need not be the
innermost one at that time, so each scope names the level that encloses it.
-/

namespace OpGraph

/-- Two bodies under comparison, with the nodes paired so far. -/
structure Scope where
  /-- The level of the enclosing scope; the root has none. -/
  parent : Option Nat
  left : Body
  right : Body
  pairing : Pairing := {}

/-- What a scope tells of two names, one for each body. -/
inductive Lookup where
  /-- Both are defined here. -/
  | here (left right : Origin)
  /-- Neither is defined here; the enclosing level decides. -/
  | outward (parent : Nat)
  /-- Only one of them is defined here. -/
  | oneSided
  /-- Neither is defined here, and there is no level around. -/
  | nowhere
  deriving DecidableEq

def Scope.lookup (scope : Scope) (left right : String) : Lookup :=
  match scope.left.origin? left, scope.right.origin? right with
  | some leftOrigin, some rightOrigin => .here leftOrigin rightOrigin
  | none, none =>
      match scope.parent with
      | some parent => .outward parent
      | none => .nowhere
  | _, _ => .oneSided

/-- The scopes in use. The root is at level 0 and the nested scopes follow it, the innermost last.
-/
structure ScopeStack where
  root : Scope
  nested : List Scope := []

namespace ScopeStack

def ofBodies (left right : Body) : ScopeStack := { root := { parent := none, left, right } }

def scopes (stack : ScopeStack) : List Scope := stack.root :: stack.nested

def depth (stack : ScopeStack) : Nat := stack.scopes.length

/-- The scope at a level. -/
def scope? (stack : ScopeStack) (level : Nat) : Option Scope := stack.scopes[level]?

/-- The partner of a left node at a level. -/
def partner? (stack : ScopeStack) (level left : Nat) : Option Nat :=
  (stack.scope? level).bind fun scope => scope.pairing.partner? left

/-- Adds a scope inside of the given level. Its own level is the former depth. -/
def push (stack : ScopeStack) (parent : Nat) (left right : Body) : ScopeStack :=
  { stack with nested := stack.nested ++ [{ parent := some parent, left, right }] }

/-- The innermost scope, unless it is the root. -/
def innermost? (stack : ScopeStack) : Option Scope := stack.nested.getLast?

/-- Leaves the innermost scope. The root is never left. -/
def pop (stack : ScopeStack) : ScopeStack := { stack with nested := stack.nested.dropLast }

/-- Pairs two nodes at a level. -/
def pair (stack : ScopeStack) (level left right : Nat) : ScopeStack :=
  let paired (scope : Scope) : Scope :=
    { scope with pairing := scope.pairing.insertIfNew left right }
  match level with
  | 0 => { stack with root := paired stack.root }
  | level + 1 => { stack with nested := stack.nested.modify level paired }

/-- What the scope at a level tells of two names. -/
def lookup? (stack : ScopeStack) (level : Nat) (left right : String) : Option Lookup :=
  (stack.scope? level).map fun scope => scope.lookup left right

/-- Follows the enclosing levels, at most so many times, to the one that decides on two names.
Gives this level and what its scope tells. -/
def lookupOutward? (stack : ScopeStack) (left right : String) :
    (moves level : Nat) → Option (Nat × Lookup)
  | 0, level =>
      match stack.lookup? level left right with
      | none | some (.outward _) => none
      | some found => some (level, found)
  | moves + 1, level =>
      match stack.lookup? level left right with
      | none => none
      | some (.outward parent) => stack.lookupOutward? left right moves parent
      | some found => some (level, found)

@[simp] theorem depth_push (stack : ScopeStack) (parent : Nat) (left right : Body) :
    (stack.push parent left right).depth = stack.depth + 1 := by
  simp [push, depth, scopes]

/-- Leaving a scope that was just entered restores the stack. -/
@[simp] theorem pop_push (stack : ScopeStack) (parent : Nat) (left right : Body) :
    (stack.push parent left right).pop = stack := by
  simp [push, pop]

theorem scope?_push (stack : ScopeStack) (parent level : Nat) (left right : Body) :
    (stack.push parent left right).scope? level =
      if level = stack.depth then some { parent := some parent, left, right }
      else stack.scope? level := by
  have hscopes : (stack.push parent left right).scopes =
      stack.scopes ++ [{ parent := some parent, left, right }] := rfl
  have hdepth : stack.depth = stack.scopes.length := rfl
  rw [scope?, scope?, hscopes]
  by_cases hlevel : level = stack.depth
  · rw [if_pos hlevel, hlevel, hdepth, List.getElem?_append_right (Nat.le_refl _)]
    simp
  · rw [if_neg hlevel]
    rcases Nat.lt_or_gt_of_ne hlevel with hlt | hgt
    · rw [List.getElem?_append_left (hdepth ▸ hlt)]
    · rw [List.getElem?_append_right (Nat.le_of_lt (hdepth ▸ hgt)),
        List.getElem?_eq_none (l := stack.scopes) (Nat.le_of_lt (hdepth ▸ hgt))]
      rw [List.getElem?_eq_none]
      rw [List.length_singleton]
      omega

@[simp] theorem depth_pair (stack : ScopeStack) (level left right : Nat) :
    (stack.pair level left right).depth = stack.depth := by
  cases level <;> simp [pair, depth, scopes]

/-- Pairing two nodes at a level changes the pairs of this level only. -/
theorem scope?_pair (stack : ScopeStack) (level left right other : Nat) :
    (stack.pair level left right).scope? other =
      if other = level then
        (stack.scope? level).map fun scope =>
          { scope with pairing := scope.pairing.insertIfNew left right }
      else stack.scope? other := by
  cases level with
  | zero => cases other <;> simp [pair, scope?, scopes]
  | succ level =>
      cases other with
      | zero => simp [pair, scope?, scopes]
      | succ other =>
          simp only [pair, scope?, scopes, List.getElem?_cons_succ, Nat.add_right_cancel_iff,
            List.getElem?_modify]
          by_cases hlevel : level = other
          · simp [hlevel]
          · simp [hlevel, Ne.symm hlevel]

end ScopeStack

end OpGraph
