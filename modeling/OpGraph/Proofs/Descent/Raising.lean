import OpGraph.Proofs.Descent.Halting
import OpGraph.Proofs.Descent.Lockstep
import OpGraph.Proofs.Scoping.SelfContained

/-!
A comparison one level further in. Beneath a scope of its own, a comparison goes on as it does
without it, in lockstep: all levels are higher by one, and what had no level around is inside of the
further scope. The only difference could come from a name that is looked up beyond all levels, and
that the further scope decides on; of operands that refer to nothing outside there is none.
-/

namespace OpGraph

open CompareM

section Raised

/-- The same step, one level further in. -/
def UseStep.raised : UseStep → UseStep
  | .nodes level left right opType => .nodes (level + 1) left right opType
  | .subgraph attr index => .subgraph attr index

/-- The same comparison, one level further in. -/
def Pending.raised : Pending → Pending
  | .values level left right via => .values (level + 1) left right (via.map UseStep.raised)
  | .nodes level left right via => .nodes (level + 1) left right (via.map UseStep.raised)

/-- The same difference, met one level further in. -/
def Difference.raised (difference : Difference) : Difference :=
  { difference with path := difference.path.map UseStep.raised }

/-- The same scope, one level further in. If no level was around, the outermost one is now. -/
def Scope.raised (scope : Scope) : Scope :=
  { scope with parent := some (scope.parent.elim 0 (· + 1)) }

/-- What a scope tells of two names, one level further in. -/
def Lookup.raised : Lookup → Lookup
  | .outward parent => .outward (parent + 1)
  | .nowhere => .outward 0
  | lookup => lookup

/-- The same scopes inside of a further one. -/
def ScopeStack.raised (root : Scope) (stack : ScopeStack) : ScopeStack :=
  { root, nested := stack.scopes.map Scope.raised }

/-- The same state inside of a further scope. -/
def CompareState.raised (root : Scope) (state : CompareState) : CompareState :=
  { stack := state.stack.raised root, difference := state.difference.map Difference.raised }

theorem Scope.lookup_raised (scope : Scope) (left right : String) :
    scope.raised.lookup left right = (scope.lookup left right).raised := by
  obtain ⟨parent, lefts, rights, pairing⟩ := scope
  simp only [raised, lookup]
  cases lefts.origin? left <;> cases rights.origin? right <;> cases parent <;> rfl

end Raised

namespace ScopeStack

variable {root : Scope} {stack : ScopeStack} {level : Nat} {left right : String}

@[simp] theorem depth_raised (root : Scope) (stack : ScopeStack) :
    (stack.raised root).depth = stack.depth + 1 := by
  simp [depth, scopes, raised]

theorem scope?_raised (root : Scope) (stack : ScopeStack) (level : Nat) :
    (stack.raised root).scope? (level + 1) = (stack.scope? level).map Scope.raised :=
  List.getElem?_map

theorem lookup?_raised (root : Scope) (stack : ScopeStack) (level : Nat) (left right : String) :
    (stack.raised root).lookup? (level + 1) left right =
      (stack.lookup? level left right).map Lookup.raised := by
  rw [lookup?, lookup?, scope?_raised, Option.map_map, Option.map_map]
  congr 1
  funext scope
  exact scope.lookup_raised left right

theorem partner?_raised (root : Scope) (stack : ScopeStack) (level index : Nat) :
    (stack.raised root).partner? (level + 1) index = stack.partner? level index := by
  rw [partner?, partner?, scope?_raised]
  cases stack.scope? level <;> rfl

theorem raised_pair (root : Scope) (stack : ScopeStack) (level left right : Nat) :
    (stack.pair level left right).raised root =
      (stack.raised root).pair (level + 1) left right := by
  rw [raised, scopes_pair, raised, pair]
  congr 1
  apply List.ext_getElem?
  intro place
  simp only [List.getElem?_map, List.getElem?_modify, Option.map_eq_map, Option.map_map]
  congr 1
  funext scope
  by_cases hplace : level = place
  · simp only [hplace, if_true, Function.comp_apply]
    rfl
  · simp only [hplace, if_false, Function.comp_apply]

theorem raised_push (root : Scope) (stack : ScopeStack) (parent : Nat) (left right : Body) :
    (stack.push parent left right).raised root =
      (stack.raised root).push (parent + 1) left right := by
  rw [raised, scopes_push, List.map_append]
  rfl

theorem raised_pop (hdepth : 1 < stack.depth) :
    stack.pop.raised root = (stack.raised root).pop := by
  rw [raised, scopes_pop hdepth, raised, pop, List.map_dropLast]

/-- Without the scopes of a comparison, there is only the further scope. -/
theorem pop_raised_of_extends {lefts rights : Body} (hextends : (ofBodies lefts rights).Extends stack)
    (root : Scope) : (stack.raised root).pop = { root } := by
  obtain ⟨_, nested⟩ := stack
  have hlength := List.Forall₂.length_eq hextends
  obtain rfl : nested = [] := by simpa [scopes, ofBodies] using hlength
  rfl

/-- Where a scope decides, it does so one level further in, and beyond all levels the further scope
does. -/
theorem lookupOutward?_raised_of_decided {lookup : Lookup}
    (hlevel : stack.lookup? level left right = some lookup)
    (hdecides : ∀ parent, lookup ≠ .outward parent)
    (hnowhere : lookup = .nowhere → root.lookup left right = .nowhere) (moves : Nat) :
    ∃ found, (stack.raised root).lookupOutward? left right (moves + 1) (level + 1) =
      some (found, lookup) ∧ (lookup ≠ .nowhere → found = level + 1) := by
  have hraised := lookup?_raised root stack level left right
  rw [hlevel, Option.map_some] at hraised
  cases lookup with
  | outward parent => exact absurd rfl (hdecides parent)
  | nowhere =>
      refine ⟨0, ?_, fun hfound => absurd rfl hfound⟩
      have hroot : (stack.raised root).lookup? 0 left right = some .nowhere :=
        congrArg some (hnowhere rfl)
      rw [lookupOutward?, hraised]
      exact lookupOutward?_of_lookup hroot (by simp) moves
  | here origin origin' =>
      exact ⟨level + 1, lookupOutward?_of_lookup hraised hdecides _, fun _ => rfl⟩
  | oneSided => exact ⟨level + 1, lookupOutward?_of_lookup hraised hdecides _, fun _ => rfl⟩

/-- Looked up one level further in, names are found where they were. If they were looked up beyond
all levels, the further scope decides on them. -/
theorem lookupOutward?_raised {moves found : Nat} {lookup : Lookup}
    (hlookup : stack.lookupOutward? left right moves level = some (found, lookup))
    (hnowhere : lookup = .nowhere → root.lookup left right = .nowhere) :
    ∃ found', (stack.raised root).lookupOutward? left right (moves + 1) (level + 1) =
      some (found', lookup) ∧ (lookup ≠ .nowhere → found' = found + 1) := by
  have hdecides := lookupOutward?_decides hlookup
  induction moves generalizing level with
  | zero =>
      rcases lookupOutward?_eq_some hlookup with ⟨hlevel, rfl⟩ | ⟨_, _, hmoves, _⟩
      · exact lookupOutward?_raised_of_decided hlevel hdecides hnowhere 0
      · cases hmoves
  | succ moves ih =>
      rcases lookupOutward?_eq_some hlookup with ⟨hlevel, rfl⟩ | ⟨parent, _, hmoves, hlevel, hrest⟩
      · exact lookupOutward?_raised_of_decided hlevel hdecides hnowhere (moves + 1)
      · cases hmoves
        rw [lookupOutward?, lookup?_raised, hlevel]
        exact ih hrest

/-- What is met with more pairs is met without them. -/
theorem Met.of_extended {stack' : ScopeStack} (hextends : stack.Extends stack') {next : Pending}
    (hmet : stack'.Met next) : stack.Met next := by
  rcases next with ⟨level, left, right, via⟩ | ⟨level, left, right, via⟩
  all_goals
    obtain ⟨scope', hscope', hmeets⟩ := hmet
    obtain ⟨scope, hscope, hscopes⟩ := hextends.scope?_back hscope'
    exact ⟨scope, hscope, by rwa [hscopes.left, hscopes.right] at hmeets⟩

/-- Bodies that no level is around define all that their outputs lead to. -/
def Inward (stack : ScopeStack) : Prop :=
  ∀ ⦃level : Nat⦄ ⦃scope : Scope⦄, stack.scope? level = some scope → scope.parent = none →
    scope.left.DefinesSought ∧ scope.right.DefinesSought

variable {stack' : ScopeStack}

theorem Inward.of_extends (hinward : stack.Inward) (hextends : stack.Extends stack') :
    stack'.Inward := by
  intro level scope hscope hparent
  obtain ⟨before, hbefore, hscopes⟩ := hextends.scope?_back hscope
  rw [hscopes.left, hscopes.right]
  exact hinward hbefore (hscopes.parent.symm.trans hparent)

theorem Inward.push (hinward : stack.Inward) (parent : Nat) (left right : Body) :
    (stack.push parent left right).Inward := by
  intro level scope hscope hparent
  rw [scope?_push] at hscope
  split at hscope
  · cases hscope
    cases hparent
  · exact hinward hscope hparent

/-- Names that are met together and looked up beyond all levels are those of values that are left
out. -/
theorem Inward.blank_of_lookup (hinward : stack.Inward) (htraced : stack.Traced) {scope : Scope}
    {moves found : Nat} (hscope : stack.scope? level = some scope)
    (htogether : Body.SeekTogether scope.left scope.right left right)
    (hlookup : stack.lookupOutward? left right moves level = some (found, .nowhere)) :
    left = "" ∧ right = "" := by
  obtain ⟨scope', hscope', htogether', hnowhere⟩ := htraced.lookup_ends hscope htogether hlookup
  obtain ⟨hnone, hnone', hparent⟩ := lookup_eq_nowhere hnowhere
  obtain ⟨hlefts, hrights⟩ := hinward hscope' hparent
  constructor
  · by_contra hname
    exact hlefts htogether'.seeks hname hnone
  · by_contra hname
    exact hrights htogether'.symm.seeks hname hnone'

end ScopeStack

/-- The difference recorded in the second state is that in the first one, met one level further in. -/
def CompareState.RecordedRaised (state state' : CompareState) : Prop :=
  state'.difference = state.difference.map Difference.raised

/-- Two states after a start at which no level is around bodies that seek something further out. The
second one is the first one inside of a further scope. -/
structure CompareState.Raised (leftRoot rightRoot : Body) (root : Scope) (start : ScopeStack)
    (state state' : CompareState) : Prop where
  proper : start.Proper leftRoot rightRoot
  inward : start.Inward
  grown : start.Extends state.stack
  traced : state.stack.Traced
  eq : state' = state.raised root

namespace CompareState

open ScopeStack

variable {leftRoot rightRoot : Body} {root : Scope} {start : ScopeStack}
  {state state' : CompareState} {level : Nat}

theorem RecordedRaised.rejected (hrecorded : state.RecordedRaised state')
    (options : CompareOptions) (rule : FailedRule) (path : List UseStep) :
    (state.rejected options rule path).RecordedRaised
      (state'.rejected options rule (path.map UseStep.raised)) := by
  rw [RecordedRaised] at hrecorded ⊢
  rw [CompareState.rejected, CompareState.rejected, hrecorded, Option.isNone_map]
  split
  · rfl
  · exact hrecorded

theorem RecordedRaised.extended (hrecorded : state.RecordedRaised state') (path : List UseStep) :
    (state.extended path).RecordedRaised (state'.extended (path.map UseStep.raised)) := by
  rw [RecordedRaised] at hrecorded ⊢
  simp only [CompareState.extended, hrecorded, Option.map_map, Function.comp_def,
    Difference.raised, List.map_append]

theorem RecordedRaised.rejections (hrecorded : state.RecordedRaised state')
    (options : CompareOptions) (rule? : Option FailedRule) (path : List UseStep) :
    Option.Rel (fun rule rule' => (state.rejected options rule path).RecordedRaised
      (state'.rejected options rule' (path.map UseStep.raised))) rule? rule? := by
  cases rule? with
  | none => exact .none
  | some rule => exact .some (hrecorded.rejected options rule path)

theorem raised_paired (root : Scope) (state : CompareState) (level left right : Nat) :
    (state.paired level left right).raised root =
      (state.raised root).paired (level + 1) left right :=
  congrArg (CompareState.mk · (state.difference.map Difference.raised))
    (raised_pair root state.stack level left right)

theorem raised_entered (root : Scope) (state : CompareState) (parent : Nat) (left right : Body) :
    (state.entered parent left right).raised root =
      (state.raised root).entered (parent + 1) left right :=
  congrArg (CompareState.mk · (state.difference.map Difference.raised))
    (raised_push root state.stack parent left right)

theorem raised_popped (hdepth : 1 < state.stack.depth) :
    state.popped.raised root = (state.raised root).popped :=
  congrArg (CompareState.mk · (state.difference.map Difference.raised)) (raised_pop hdepth)

namespace Raised

theorem recorded (hstate : state.Raised leftRoot rightRoot root start state') :
    state.RecordedRaised state' := by
  rw [hstate.eq]
  rfl

theorem scope? (hstate : state.Raised leftRoot rightRoot root start state') {scope : Scope}
    (hscope : state.stack.scope? level = some scope) :
    state'.stack.scope? (level + 1) = some scope.raised := by
  rw [hstate.eq]
  exact (scope?_raised root state.stack level).trans (congrArg (Option.map Scope.raised) hscope)

theorem partner?_eq (hstate : state.Raised leftRoot rightRoot root start state') (index : Nat) :
    state'.stack.partner? (level + 1) index = state.stack.partner? level index := by
  rw [hstate.eq]
  exact partner?_raised root state.stack level index

theorem paired (hstate : state.Raised leftRoot rightRoot root start state') {scope : Scope}
    {left right : Nat} (hscope : start.scope? level = some scope)
    (hmeet : scope.left.MeetTogether scope.right left right) :
    (state.paired level left right).Raised leftRoot rightRoot root start
      (state'.paired (level + 1) left right) := by
  obtain ⟨scope', hscope', hscopes⟩ := hstate.grown.scope? hscope
  rw [← hscopes.left, ← hscopes.right] at hmeet
  refine { hstate with
    grown := hstate.grown.trans (extends_pair _ _ _ _)
    traced := hstate.traced.pair hscope' hmeet
    eq := ?_ }
  rw [hstate.eq]
  exact (raised_paired root state level left right).symm

theorem entered (hstate : state.Raised leftRoot rightRoot root start state') {graph graph' : Graph}
    (hhold : start.HoldTogether level graph graph') :
    (state.entered level graph.body graph'.body).Raised leftRoot rightRoot root
      (state.entered level graph.body graph'.body).stack
      (state'.entered (level + 1) graph.body graph'.body) := by
  have hhold' := hhold.of_extends hstate.grown
  obtain ⟨scope, hscope, hholds⟩ := id hhold'
  refine ⟨?_, ?_, .refl _, hstate.traced.push hhold', ?_⟩
  · exact Proper.entered (hstate.proper.of_extends hstate.grown) ⟨scope, hscope, rfl, rfl⟩
      hholds.carried
  · exact (hstate.inward.of_extends hstate.grown).push level graph.body graph'.body
  · rw [hstate.eq]
    exact (raised_entered root state level graph.body graph'.body).symm

theorem popped {final final' : CompareState} {parent : Nat} {left right : Body}
    (hstate : state.Raised leftRoot rightRoot root start state')
    (hfinal : final.Raised leftRoot rightRoot root (state.stack.push parent left right) final') :
    final.popped.Raised leftRoot rightRoot root start final'.popped := by
  have hextends := hfinal.grown.pop
  have hdepth : final.stack.depth = state.stack.depth + 1 := by
    rw [hfinal.grown.depth_eq, depth_push]
  have hpopped : final.stack.pop.depth + 1 = final.stack.depth := by
    rw [hextends.depth_eq, hdepth]
  have hpos : 0 < state.stack.depth := by simp [depth, scopes]
  refine { hstate with
    grown := hstate.grown.trans hextends
    traced := hfinal.traced.pop (hfinal.proper.of_extends hfinal.grown) hpopped
    eq := ?_ }
  rw [hfinal.eq]
  exact (raised_popped (by omega)).symm

end Raised

end CompareState

namespace CompareM

open CompareState ScopeStack

/-- A pending comparison that is met, and the same one further in. -/
def RaisedFrom (start : ScopeStack) (next next' : Pending) : Prop :=
  next' = next.raised ∧ start.Met next

/-- A call for graphs that are met, made in both comparisons. -/
def SameCall (start : ScopeStack) (level : Nat) (call call' : GraphCall) : Prop :=
  call' = call ∧ start.HoldTogether level call.left call.right

/-- Both comparisons give the same answer. -/
abbrev AnswerRaised (leftRoot rightRoot : Body) (root : Scope) (start : ScopeStack) :
    Outcome Bool × CompareState → Outcome Bool × CompareState → Prop :=
  EndAlike (Answers RecordedRaised (CompareState.Raised leftRoot rightRoot root start))

/-- Both steps fail, or they lead to the same comparisons. -/
abbrev LeadsRaised (leftRoot rightRoot : Body) (root : Scope) (start : ScopeStack) :
    Option (List Pending) → CompareState → Option (List Pending) → CompareState → Prop :=
  Leads (RaisedFrom start) RecordedRaised (CompareState.Raised leftRoot rightRoot root start)

/-- Graphs in attributes, with so many inside each other, have the same answer further in. -/
def NestedRaised (options : CompareOptions) (leftRoot rightRoot : Body) (root : Scope)
    (levels : Nat) : Prop :=
  ∀ ⦃start : ScopeStack⦄ ⦃level : Nat⦄ ⦃left right : Graph⦄ ⦃state state' : CompareState⦄,
    state.Raised leftRoot rightRoot root start state' → start.HoldTogether level left right →
    AnswerRaised leftRoot rightRoot root start
      (exec (compareNested options levels level left right) state)
      (exec (compareNested options levels (level + 1) left right) state')

section Steps

variable {options : CompareOptions} {leftRoot rightRoot : Body} {root : Scope} {start : ScopeStack}
  {levels level : Nat} {state state' : CompareState} {via : List UseStep}

theorem raised_pendingValues (level : Nat) (lefts rights : List String) (via : List UseStep) :
    (pendingValues level lefts rights via).map Pending.raised =
      pendingValues (level + 1) lefts rights (via.map UseStep.raised) := by
  rw [pendingValues, pendingValues, List.map_zipWith]
  rfl

theorem raised_lookupPending {found found' : Nat} {lookup : Lookup}
    (hfound : lookup ≠ .nowhere → found' = found + 1) (via : List UseStep) :
    (lookupPending found via lookup).map Pending.raised =
      lookupPending found' (via.map UseStep.raised) lookup := by
  rcases lookup with ⟨_ | _, _ | _⟩ | _ | _ | _
  all_goals first | rfl | (rw [hfound (by simp)]; rfl)

theorem forall₂_raisedFrom {pending : List Pending} (hmet : ∀ next ∈ pending, start.Met next) :
    List.Forall₂ (RaisedFrom start) pending (pending.map Pending.raised) := by
  rw [List.forall₂_map_right_iff]
  exact List.forall₂_same.mpr fun next hnext => ⟨rfl, hmet next hnext⟩

theorem valueStep_raised (hblank : root.lookup "" "" = .nowhere) {left right : String}
    (hmet : start.Met (.values level left right via))
    (hstate : state.Raised leftRoot rightRoot root start state') :
    EndAlike (LeadsRaised leftRoot rightRoot root start)
      (exec (valueStep options level left right via) state)
      (exec (valueStep options (level + 1) left right (via.map UseStep.raised)) state') := by
  obtain ⟨scope, hscope, htogether⟩ := hmet.of_extends hstate.grown
  have hproper := hstate.proper.of_extends hstate.grown
  have hends : state.stack.lookupOutward? left right level level ≠ none :=
    lookupOutward?_ne_none hproper.parent_lt hscope (Nat.le_refl level)
  obtain ⟨⟨found, lookup⟩, hlookup⟩ := Option.ne_none_iff_exists'.mp hends
  have hnowhere : lookup = .nowhere → root.lookup left right = .nowhere := by
    rintro rfl
    obtain ⟨rfl, rfl⟩ := (hstate.inward.of_extends hstate.grown).blank_of_lookup hstate.traced
      hscope htogether hlookup
    exact hblank
  obtain ⟨found', hlookup', hfound⟩ := lookupOutward?_raised hlookup hnowhere
  have hstack : state'.stack = state.stack.raised root := by rw [hstate.eq]; rfl
  rw [exec_valueStep, exec_valueStep, hstack, hlookup, hlookup']
  simp only
  cases lookupRule? left right lookup with
  | some rule => exact .ended (.failed (hstate.recorded.rejected options rule via))
  | none =>
      refine .ended (.led ?_ hstate)
      rw [← raised_lookupPending hfound]
      exact forall₂_raisedFrom fun next hnext => Met.of_extended hstate.grown
        (met_of_lookup hstate.traced hscope htogether hlookup hnext)

/-- Two nodes that are met have the same answer further in as regards all but their inputs. -/
theorem headsMatch_raised (hnested : NestedRaised options leftRoot rightRoot root levels)
    {left right : Node}
    (hholds : ∀ call ∈ (attributePlan left.attributes right.attributes).calls,
      start.HoldTogether level call.left call.right)
    (hstate : state.Raised leftRoot rightRoot root start state') :
    AnswerRaised leftRoot rightRoot root start
      (exec (headsMatch options (compareNested options levels) level left right via) state)
      (exec (headsMatch options (compareNested options levels) (level + 1) left right
        (via.map UseStep.raised)) state') := by
  have hcalls : List.Forall₂ (SameCall start level)
      (attributePlan left.attributes right.attributes).calls
      (attributePlan left.attributes right.attributes).calls :=
    List.forall₂_same.mpr fun call hcall => ⟨rfl, hholds call hcall⟩
  refine headsMatch_alike (hstate.recorded.rejections options _ via) ?_ hcalls ?_ hstate
  · rintro call _ ⟨rfl, hhold⟩
    refine ⟨fun inner inner' hinner => hnested hinner hhold, fun final final' hfinal => ?_⟩
    exact hfinal.extended (.subgraph _ _ :: via)
  · cases (attributePlan left.attributes right.attributes).difference? with
    | none => exact .none
    | some difference =>
        exact .some fun final final' hfinal => hfinal.recorded.rejected options _ via

/-- The step of two nodes that are met and not paired is the same further in. -/
theorem freshStep_raised (hnested : NestedRaised options leftRoot rightRoot root levels)
    {left right : Nat} {scope : Scope} {leftNode rightNode : Node}
    (hmet : start.Met (.nodes level left right via))
    (hfresh : FreshNodes state.stack level left right scope leftNode rightNode)
    (hstate : state.Raised leftRoot rightRoot root start state') :
    EndAlike (LeadsRaised leftRoot rightRoot root start)
      (exec (nodeStep options (compareNested options levels) level left right via) state)
      (exec (nodeStep options (compareNested options levels) (level + 1) left right
        (via.map UseStep.raised)) state') := by
  obtain ⟨before, hbefore, hmeet⟩ := hmet
  obtain ⟨scope', hscope', hscopes⟩ := hstate.grown.scope? hbefore
  obtain rfl : scope = scope' := Option.some.inj (hfresh.scope_eq.symm.trans hscope')
  have hleft : before.left.nodes[left]? = some leftNode := hscopes.left ▸ hfresh.left_eq
  have hright : before.right.nodes[right]? = some rightNode := hscopes.right ▸ hfresh.right_eq
  have hfresh' : FreshNodes state'.stack (level + 1) left right scope.raised leftNode rightNode :=
    ⟨hstate.scope? hfresh.scope_eq, hfresh.unpaired, hfresh.left_eq, hfresh.right_eq⟩
  have hholds : ∀ call ∈ (attributePlan leftNode.attributes rightNode.attributes).calls,
      start.HoldTogether level call.left call.right := fun call hcall =>
    ⟨before, hbefore, left, right, leftNode, rightNode, hmeet, hleft, hright,
      carryTogether_of_mem hcall⟩
  refine freshStep_alike hfresh hfresh' ?_ rfl rfl ?_ ?_ ?_ ?_
  · exact @headsMatch_raised options leftRoot rightRoot root start levels level state state'
      (.nodes level left right leftNode.opType :: via) hnested leftNode rightNode hholds hstate
  · exact fun inner inner' hinner => hinner.recorded.rejected options _ (.nodes _ _ _ _ :: via)
  · exact fun inner inner' hinner => by rw [hinner.partner?_eq]
  · exact fun inner inner' hinner => hinner.paired hbefore hmeet
  · have hpending := raised_pendingValues level leftNode.inputs rightNode.inputs
      (.nodes level left right leftNode.opType :: via)
    rw [List.map_cons, UseStep.raised] at hpending
    rw [← hpending]
    exact forall₂_raisedFrom fun next => met_of_pendingValues hbefore fun _ _ _ =>
      hmeet.input hleft hright

theorem nodeStep_raised (hnested : NestedRaised options leftRoot rightRoot root levels)
    {left right : Nat} (hmet : start.Met (.nodes level left right via))
    (hstate : state.Raised leftRoot rightRoot root start state') :
    EndAlike (LeadsRaised leftRoot rightRoot root start)
      (exec (nodeStep options (compareNested options levels) level left right via) state)
      (exec (nodeStep options (compareNested options levels) (level + 1) left right
        (via.map UseStep.raised)) state') := by
  obtain ⟨scope, hscope, hmeet⟩ := hmet.of_extends hstate.grown
  obtain ⟨hlt, hlt'⟩ := hmeet.in_range
  have hpartner : Option.Rel Eq (scope.pairing.partner? left)
      (scope.raised.pairing.partner? left) := by
    change Option.Rel Eq (scope.pairing.partner? left) (scope.pairing.partner? left)
    cases scope.pairing.partner? left with
    | none => exact .none
    | some partner => exact .some rfl
  refine nodeStep_alike hscope (hstate.scope? hscope) hstate hpartner ?_ ?_ fun hunpaired _ => ?_
  · rintro partner _ rfl
    exact Iff.rfl
  · rintro partner _ rfl
    exact hstate.recorded.rejected options _ via
  · exact freshStep_raised hnested hmet ⟨hscope, hunpaired, List.getElem?_eq_getElem hlt,
      List.getElem?_eq_getElem hlt'⟩ hstate

theorem step_raised (hblank : root.lookup "" "" = .nowhere)
    (hnested : NestedRaised options leftRoot rightRoot root levels) {next next' : Pending}
    (hnext : RaisedFrom start next next')
    (hstate : state.Raised leftRoot rightRoot root start state') :
    EndAlike (LeadsRaised leftRoot rightRoot root start)
      (exec (step options (compareNested options levels) next) state)
      (exec (step options (compareNested options levels) next') state') := by
  obtain ⟨rfl, hmet⟩ := hnext
  cases next with
  | values level left right via => exact valueStep_raised hblank hmet hstate
  | nodes level left right via => exact nodeStep_raised hnested hmet hstate

theorem requireAllPaired_raised {scope : Scope} (hscope : start.scope? level = some scope)
    (hstate : state.Raised leftRoot rightRoot root start state') :
    AnswerRaised leftRoot rightRoot root start (exec (requireAllPaired options level) state)
      (exec (requireAllPaired options (level + 1)) state') := by
  obtain ⟨scope', hscope', _⟩ := hstate.grown.scope? hscope
  have hrule : unpairedRule? scope'.raised = unpairedRule? scope' := rfl
  rw [exec_requireAllPaired, exec_requireAllPaired, hscope', hstate.scope? hscope']
  simp only [hrule]
  cases unpairedRule? scope' with
  | some rule => exact .ended (.differed (hstate.recorded.rejected options rule []))
  | none => exact .ended (.matched hstate)

/-- The bodies at a level have the same answer further in. -/
theorem compareBodies_raised (hblank : root.lookup "" "" = .nowhere)
    (hnested : NestedRaised options leftRoot rightRoot root levels) {scope : Scope}
    (hscope : start.scope? level = some scope)
    (hstate : state.Raised leftRoot rightRoot root start state') :
    AnswerRaised leftRoot rightRoot root start
      (exec (compareBodies options (compareNested options levels) level) state)
      (exec (compareBodies options (compareNested options levels) (level + 1)) state') := by
  obtain ⟨scope', hscope', hscopes⟩ := hstate.grown.scope? hscope
  rw [exec_compareBodies hscope', exec_compareBodies (hstate.scope? hscope'), matchBodies,
    matchBodies]
  refine EndAlike.andThen (compareOutputs_alike (fun _ _ _ _ => step_raised hblank hnested) rfl rfl
    ?_ ?_ hstate) fun inner inner' hinner => ?_
  · exact hstate.recorded.rejected options _ []
  · have hpending := raised_pendingValues level scope'.left.outputs scope'.right.outputs []
    rw [List.map_nil] at hpending
    exact hpending ▸ forall₂_raisedFrom fun next hnext => Met.of_extended hstate.grown
      (met_of_pendingValues hscope' (fun _ _ _ hname hname' => .output hname hname') hnext)
  · cases options.pairAllNodes with
    | false => exact .ended (.matched hinner)
    | true => exact requireAllPaired_raised hscope hinner

variable (levels) in
/-- However many graphs may be inside each other, they have the same answer further in. -/
theorem nestedRaised (hblank : root.lookup "" "" = .nowhere) :
    NestedRaised options leftRoot rightRoot root levels := by
  induction levels with
  | zero =>
      intro start level left right state state' hstate hhold
      rw [compareNested, compareNested]
      exact underHeaders_alike (hstate.recorded.rejections options _ []) fun _ => .stopped
  | succ levels ih =>
      intro start level left right state state' hstate hhold
      rw [compareNested, compareNested]
      apply underHeaders_alike (hstate.recorded.rejections options _ [])
      intro _
      have hentered := hstate.entered hhold
      have hdepth : state'.stack.depth = state.stack.depth + 1 := by
        rw [hstate.eq]
        exact depth_raised root state.stack
      have hinner : AnswerRaised leftRoot rightRoot root
          (state.entered level left.body right.body).stack
          (exec (compareBodies options (compareNested options levels) state.stack.depth)
            (state.entered level left.body right.body))
          (exec (compareBodies options (compareNested options levels) state'.stack.depth)
            (state'.entered (level + 1) left.body right.body)) := by
        rw [hdepth]
        exact compareBodies_raised hblank ih (scope?_push_depth _ _ _ _) hentered
      exact hinner.inScope (fun _ _ hdiffer => hdiffer) fun final final' hfinal =>
        hstate.popped hfinal

end Steps

end CompareM

end OpGraph
