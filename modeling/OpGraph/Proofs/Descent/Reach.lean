import OpGraph.Proofs.Descent.Execution
import OpGraph.Proofs.Descent.Levels
import OpGraph.Proofs.Descent.Plans

/-!
Which left nodes a comparison can pair: only those that are needed for what is pending. A set of
nodes counts as closed if it holds, with a node, all that this node needs. Whatever the outcome, new
pairs are in each closed set that holds the nodes behind what is pending. So a node is not paired
while its own attributes are compared, unless it depends on itself.
-/

namespace OpGraph

namespace ScopeStack

/-- The bodies at a level. -/
def HasBodies (stack : ScopeStack) (level : Nat) (left right : Body) : Prop :=
  ∃ scope, stack.scope? level = some scope ∧ scope.left = left ∧ scope.right = right

/-- These are the nodes with these indices of the two bodies at a level. -/
def NodesAt (stack : ScopeStack) (level left right : Nat) (node node' : Node) : Prop :=
  ∃ scope, stack.scope? level = some scope ∧ scope.left.nodes[left]? = some node ∧
    scope.right.nodes[right]? = some node'

/-- The set holds, with a left node, the nodes behind all that it needs. -/
def Closed (stack : ScopeStack) (holds : Nat → Nat → Prop) : Prop :=
  ∀ ⦃level index found other slot : Nat⦄ ⦃scope : Scope⦄ ⦃node : Node⦄ ⦃name : String⦄,
    holds level index → stack.scope? level = some scope → scope.left.nodes[index]? = some node →
    node.Needs name → stack.FindsLeft name level found (.output other slot) → holds found other

/-- The set holds the nodes behind all that a graph at a level needs from around it. -/
def Supplies (stack : ScopeStack) (level : Nat) (graph : Graph) (holds : Nat → Nat → Prop) : Prop :=
  ∀ ⦃name : String⦄ ⦃found other slot : Nat⦄, graph.body.Needs name → graph.body.Lacks name →
    stack.FindsLeft name level found (.output other slot) → holds found other

/-- The set holds the left node behind a pending comparison. -/
def Awaits (stack : ScopeStack) (holds : Nat → Nat → Prop) : Pending → Prop
  | .values level left _ _ => ∀ ⦃found other slot : Nat⦄,
      stack.FindsLeft left level found (.output other slot) → holds found other
  | .nodes level left _ _ => holds level left

/-- All left nodes that have a partner in the second stack only are in the set. -/
def PairsWithin (holds : Nat → Nat → Prop) (stack stack' : ScopeStack) : Prop :=
  ∀ ⦃level index right : Nat⦄, stack'.partner? level index = some right →
    stack.partner? level index = none → holds level index

section Finding

variable {leftRoot rightRoot left right : Body} {stack stack' : ScopeStack} {name : String}
  {level found parent : Nat} {origin : Origin}

theorem HasBodies.of_extends (hextends : stack.Extends stack')
    (hbodies : stack.HasBodies level left right) : stack'.HasBodies level left right := by
  obtain ⟨scope, hscope, hleft, hright⟩ := hbodies
  obtain ⟨scope', hscope', hscopes⟩ := hextends.scope? hscope
  exact ⟨scope', hscope', hscopes.left.trans hleft, hscopes.right.trans hright⟩

theorem NodesAt.of_extends {index index' : Nat} {node node' : Node}
    (hextends : stack.Extends stack') (hnodes : stack.NodesAt level index index' node node') :
    stack'.NodesAt level index index' node node' := by
  obtain ⟨scope, hscope, hnode, hnode'⟩ := hnodes
  obtain ⟨scope', hscope', hscopes⟩ := hextends.scope? hscope
  exact ⟨scope', hscope', by rwa [hscopes.left], by rwa [hscopes.right]⟩

theorem HasBodies.lt_depth (hbodies : stack.HasBodies level left right) : level < stack.depth := by
  obtain ⟨scope, hscope, _⟩ := hbodies
  exact scope?_eq_some_lt hscope

theorem FindsLeft.of_extends_back (hextends : stack.Extends stack')
    (hfinds : stack'.FindsLeft name level found origin) :
    stack.FindsLeft name level found origin := by
  induction hfinds with
  | here hscope' hdefines =>
      obtain ⟨scope, hscope, hscopes⟩ := hextends.scope?_back hscope'
      exact .here hscope (hscopes.left ▸ hdefines)
  | outward hscope' hlacks hparent _ ih =>
      obtain ⟨scope, hscope, hscopes⟩ := hextends.scope?_back hscope'
      exact .outward hscope (hscopes.left ▸ hlacks) (hscopes.parent ▸ hparent) ih

/-- Names are found where they are looked up or further out. -/
theorem FindsLeft.found_le (hproper : stack.Proper leftRoot rightRoot)
    (hfinds : stack.FindsLeft name level found origin) : found ≤ level := by
  induction hfinds with
  | here _ _ => exact Nat.le_refl _
  | outward hscope _ hparent _ ih =>
      have hlt := hproper.parent_lt hscope hparent
      omega

/-- What is found at the level of the lookup is defined there. -/
theorem FindsLeft.defines (hproper : stack.Proper leftRoot rightRoot) {scope : Scope}
    (hscope : stack.scope? level = some scope)
    (hfinds : stack.FindsLeft name level level origin) : scope.left.Defines name origin := by
  cases hfinds with
  | here hscope' hdefines =>
      rw [hscope, Option.some.injEq] at hscope'
      exact hscope' ▸ hdefines
  | outward hscope' _ hparent hrest =>
      have hlt := hproper.parent_lt hscope' hparent
      have hle := hrest.found_le hproper
      omega

/-- A scope that is entered changes nothing for lookups from other levels. -/
theorem FindsLeft.of_push (hproper : stack.Proper leftRoot rightRoot) (hlevel : level < stack.depth)
    (hfinds : (stack.push parent left right).FindsLeft name level found origin) :
    stack.FindsLeft name level found origin := by
  induction hfinds with
  | here hscope hdefines =>
      rw [scope?_push_of_lt hlevel] at hscope
      exact .here hscope hdefines
  | outward hscope hlacks hparent _ ih =>
      rw [scope?_push_of_lt hlevel] at hscope
      have hlt := hproper.parent_lt hscope hparent
      exact .outward hscope hlacks hparent (ih (Nat.lt_trans hlt hlevel))

/-- A lookup from a scope that was entered finds a name there, or else where a lookup from the level
around it does. -/
theorem FindsLeft.of_push_depth (hproper : stack.Proper leftRoot rightRoot)
    (hparent : parent < stack.depth)
    (hfinds : (stack.push parent left right).FindsLeft name stack.depth found origin) :
    found = stack.depth ∧ left.Defines name origin ∨
      left.Lacks name ∧ stack.FindsLeft name parent found origin := by
  cases hfinds with
  | here hscope hdefines =>
      rw [scope?_push_depth, Option.some.injEq] at hscope
      subst hscope
      exact Or.inl ⟨rfl, hdefines⟩
  | outward hscope hlacks hparent' hrest =>
      rw [scope?_push_depth, Option.some.injEq] at hscope
      subst hscope
      cases hparent'
      exact Or.inr ⟨hlacks, hrest.of_push hproper hparent⟩

theorem Closed.of_extends {holds : Nat → Nat → Prop} (hextends : stack.Extends stack')
    (hclosed : stack.Closed holds) : stack'.Closed holds := by
  intro level index found other slot scope' node name hholds hscope' hnode hneeds hfinds
  obtain ⟨scope, hscope, hscopes⟩ := hextends.scope?_back hscope'
  rw [hscopes.left] at hnode
  exact hclosed hholds hscope hnode hneeds (hfinds.of_extends_back hextends)

theorem Awaits.of_extends {holds : Nat → Nat → Prop} (hextends : stack.Extends stack')
    {next : Pending} (hawaits : stack.Awaits holds next) : stack'.Awaits holds next := by
  cases next with
  | values level left right via =>
      exact fun _ _ _ hfinds => hawaits (hfinds.of_extends_back hextends)
  | nodes level left right via => exact hawaits

theorem PairsWithin.refl (holds : Nat → Nat → Prop) (stack : ScopeStack) :
    PairsWithin holds stack stack := by
  intro level index right hsome hnone
  rw [hsome] at hnone
  cases hnone

theorem PairsWithin.trans {holds : Nat → Nat → Prop} {first second third : ScopeStack}
    (hsecond : PairsWithin holds first second) (hthird : PairsWithin holds second third) :
    PairsWithin holds first third := by
  intro level index right hsome hnone
  cases hpartner : second.partner? level index with
  | none => exact hthird hsome hpartner
  | some partner => exact hsecond hpartner hnone

end Finding

section Entering

variable {leftRoot rightRoot : Body} {stack : ScopeStack} {level : Nat} {graph : Graph}
  {right : Body} {holds : Nat → Nat → Prop}

/-- The nodes that a graph reaches at its own level, and those of a set at the others. -/
def withReached (depth : Nat) (graph : Graph) (holds : Nat → Nat → Prop) (level index : Nat) :
    Prop :=
  if level = depth then graph.body.Reaches index else holds level index

/-- What a graph needs is reached, or supplied from around it. -/
theorem withReached_of_needs (hproper : stack.Proper leftRoot rightRoot)
    (hlevel : level < stack.depth) (hsupplies : stack.Supplies level graph holds) {name : String}
    {found other slot : Nat} (hneeds : graph.body.Needs name)
    (hfinds : (stack.push level graph.body right).FindsLeft name stack.depth found
      (.output other slot)) : withReached stack.depth graph holds found other := by
  rcases hfinds.of_push_depth hproper hlevel with ⟨rfl, hdefines⟩ | ⟨hlacks, houter⟩
  · rw [withReached, if_pos rfl]
    exact ⟨name, slot, hneeds, hdefines⟩
  · have hle := houter.found_le hproper
    rw [withReached, if_neg (by omega)]
    exact hsupplies hneeds hlacks houter

theorem closed_withReached (hproper : stack.Proper leftRoot rightRoot)
    (hlevel : level < stack.depth) (hclosed : stack.Closed holds)
    (hsupplies : stack.Supplies level graph holds) :
    (stack.push level graph.body right).Closed (withReached stack.depth graph holds) := by
  intro place index found other slot scope node name hholds hscope hnode hneeds hfinds
  by_cases hplace : place = stack.depth
  · subst hplace
    rw [withReached, if_pos rfl] at hholds
    rw [scope?_push_depth, Option.some.injEq] at hscope
    subst hscope
    obtain ⟨used, usedSlot, hused, hdefines⟩ := hholds
    exact withReached_of_needs hproper hlevel hsupplies
      (hused.of_node hdefines hnode hneeds) hfinds
  · rw [withReached, if_neg hplace] at hholds
    have hlt : place < stack.depth := by
      have hbound := scope?_eq_some_lt hscope
      rw [depth_push] at hbound
      omega
    rw [scope?_push_of_lt hlt] at hscope
    have houter := hfinds.of_push hproper hlt
    have hle := houter.found_le hproper
    rw [withReached, if_neg (by omega)]
    exact hclosed hholds hscope hnode hneeds houter

/-- New pairs of a scope that was entered and left are pairs of the levels around it. -/
theorem PairsWithin.of_entered {stack' : ScopeStack}
    (hextends : (stack.push level graph.body right).Extends stack')
    (hwithin : PairsWithin (withReached stack.depth graph holds)
      (stack.push level graph.body right) stack') : PairsWithin holds stack stack'.pop := by
  intro place index partner hsome hnone
  obtain ⟨scope, hscope, hpartner⟩ := Option.bind_eq_some_iff.mp hsome
  have hplace := scope?_eq_some_lt hscope
  rw [(hextends.pop).depth_eq] at hplace
  have hdepth : stack'.depth = stack.depth + 1 := by rw [hextends.depth_eq, depth_push]
  rw [scope?_pop_of_lt (by omega)] at hscope
  have hbefore : (stack.push level graph.body right).partner? place index = none := by
    rw [partner?, scope?_push_of_lt hplace]
    exact hnone
  have hholds := hwithin (Option.bind_eq_some_iff.mpr ⟨scope, hscope, hpartner⟩) hbefore
  rw [withReached, if_neg (Nat.ne_of_lt hplace)] at hholds
  exact hholds

end Entering

end ScopeStack

namespace CompareM

open ScopeStack

/-- A comparison of graphs pairs only nodes that they need, themselves or through others. -/
def ReachesOnly (leftRoot rightRoot : Body) (relation : NestedRelation) : Prop :=
  ∀ ⦃level : Nat⦄ ⦃graph graph' : Graph⦄ ⦃state final : CompareState⦄ ⦃outcome : Outcome Bool⦄
    ⦃left right : Body⦄ ⦃holds : Nat → Nat → Prop⦄,
    relation level graph graph' state outcome final → state.stack.Proper leftRoot rightRoot →
    state.stack.HasBodies level left right → Carried left right graph graph' →
    state.stack.Closed holds → state.stack.Supplies level graph holds →
    PairsWithin holds state.stack final.stack

section Reaching

variable {leftRoot rightRoot : Body} {options : CompareOptions} {relation : NestedRelation}
  {level : Nat} {state final : CompareState} {holds : Nat → Nat → Prop}

theorem CallsRun.pairsWithin (hreaches : ReachesOnly leftRoot rightRoot relation)
    (hgrows : Grows relation) {calls : List GraphCall} {outcome : Outcome (Option GraphCall)}
    {left right : Body} (hrun : CallsRun relation level calls state outcome final)
    (hproper : state.stack.Proper leftRoot rightRoot)
    (hbodies : state.stack.HasBodies level left right)
    (hcarried : ∀ call ∈ calls, Carried left right call.left call.right)
    (hclosed : state.stack.Closed holds)
    (hsupplies : ∀ call ∈ calls, state.stack.Supplies level call.left holds) :
    PairsWithin holds state.stack final.stack := by
  induction hrun with
  | finished => exact PairsWithin.refl holds _
  | matched hcall _ ih =>
      have hextends := hgrows _ _ _ _ _ _ hcall
      have hfirst := hreaches hcall hproper hbodies (hcarried _ List.mem_cons_self) hclosed
        (hsupplies _ List.mem_cons_self)
      refine hfirst.trans (ih (hproper.of_extends hextends) (hbodies.of_extends hextends) ?_
        (hclosed.of_extends hextends) ?_)
      · exact fun call hmem => hcarried call (List.mem_cons_of_mem _ hmem)
      · intro call hmem name found other slot hneeds hlacks hfinds
        exact hsupplies call (List.mem_cons_of_mem _ hmem) hneeds hlacks
          (hfinds.of_extends_back hextends)
  | differed hcall =>
      exact hreaches hcall hproper hbodies (hcarried _ List.mem_cons_self) hclosed
        (hsupplies _ List.mem_cons_self)
  | stopped hcall =>
      exact hreaches hcall hproper hbodies (hcarried _ List.mem_cons_self) hclosed
        (hsupplies _ List.mem_cons_self)

/-- The calls for two nodes pair only nodes that the left one needs. -/
theorem FreshNodes.pairsWithin (hreaches : ReachesOnly leftRoot rightRoot relation)
    (hgrows : Grows relation) {left right : Nat} {scope : Scope} {leftNode rightNode : Node}
    {outcome : Outcome (Option GraphCall)} (hproper : state.stack.Proper leftRoot rightRoot)
    (hfresh : FreshNodes state.stack level left right scope leftNode rightNode)
    (hcalls : CallsRun relation level
      (attributePlan leftNode.attributes rightNode.attributes).calls state outcome final)
    (hclosed : state.stack.Closed holds)
    (hneeds : ∀ ⦃name : String⦄ ⦃found other slot : Nat⦄, leftNode.Needs name →
      state.stack.FindsLeft name level found (.output other slot) → holds found other) :
    PairsWithin holds state.stack final.stack := by
  have hleft := List.mem_of_getElem? hfresh.left_eq
  have hright := List.mem_of_getElem? hfresh.right_eq
  refine hcalls.pairsWithin hreaches hgrows hproper ⟨scope, hfresh.scope_eq, rfl, rfl⟩ ?_ hclosed ?_
  · intro call hcall
    obtain ⟨hcarries, hcarries'⟩ := mem_attributePlan hcall
    exact ⟨⟨leftNode, hleft, hcarries⟩, ⟨rightNode, hright, hcarries'⟩⟩
  · intro call hcall name found other slot hname hlacks hfinds
    exact hneeds (.captured (mem_attributePlan hcall).1 hname hlacks) hfinds

theorem mem_pendingValues {lefts rights : List String} {via : List UseStep} {next : Pending}
    (hnext : next ∈ pendingValues level lefts rights via) :
    ∃ left ∈ lefts, ∃ right ∈ rights, next = .values level left right via := by
  rw [pendingValues, List.mem_iff_getElem?] at hnext
  obtain ⟨place, hplace⟩ := hnext
  rw [List.getElem?_zipWith_eq_some] at hplace
  obtain ⟨left, right, hleft, hright, rfl⟩ := hplace
  exact ⟨left, List.mem_of_getElem? hleft, right, List.mem_of_getElem? hright, rfl⟩

/-- New pairs of a step are in each closed set that holds the node behind what it settles, and so
are the nodes behind what it leads to. -/
theorem StepRun.pairsWithin (hreaches : ReachesOnly leftRoot rightRoot relation)
    (hgrows : Grows relation) {next : Pending} {outcome : Outcome (Option (List Pending))}
    (hrun : StepRun options relation state next outcome final)
    (hproper : state.stack.Proper leftRoot rightRoot) (hclosed : state.stack.Closed holds)
    (hawaits : state.stack.Awaits holds next) :
    PairsWithin holds state.stack final.stack ∧
      ∀ pending, outcome = .ok (some pending) →
        ∀ other ∈ pending, final.stack.Awaits holds other := by
  have hcalls : ∀ {level left right : Nat} {via : List UseStep} {scope : Scope}
      {leftNode rightNode : Node} {outcome : Outcome (Option GraphCall)} {inner : CompareState},
      state.stack.Awaits holds (.nodes level left right via) →
      FreshNodes state.stack level left right scope leftNode rightNode →
      CallsRun relation level (attributePlan leftNode.attributes rightNode.attributes).calls state
        outcome inner → PairsWithin holds state.stack inner.stack := by
    intro level left right via scope leftNode rightNode outcome inner hholds hfresh hrun
    refine hfresh.pairsWithin hreaches hgrows hproper hrun hclosed ?_
    intro name found other slot hneeds hfinds
    exact hclosed hholds hfresh.scope_eq hfresh.left_eq hneeds hfinds
  cases hrun with
  | namesLost _ => exact ⟨PairsWithin.refl _ _, fun _ heq => by cases heq⟩
  | namesDiffer _ _ =>
      rw [CompareState.stack_rejected]
      exact ⟨PairsWithin.refl _ _, fun _ heq => by cases heq⟩
  | @namesLead level found left right via lookup hlookup hrule =>
      refine ⟨PairsWithin.refl _ _, fun pending heq other hother => ?_⟩
      cases heq
      cases lookup with
      | here origin origin' =>
          cases origin with
          | input slot => simp [lookupPending] at hother
          | output index slot =>
              cases origin' with
              | input slot' => simp [lookupPending] at hother
              | output index' slot' =>
                  rw [lookupPending, List.mem_singleton] at hother
                  subst hother
                  exact hawaits (FindsLeft.of_lookup hlookup)
      | _ => simp [lookupPending] at hother
  | scopeLost _ => exact ⟨PairsWithin.refl _ _, fun _ heq => by cases heq⟩
  | partners _ _ =>
      refine ⟨PairsWithin.refl _ _, fun pending heq other hother => ?_⟩
      cases heq
      simp at hother
  | conflict _ _ _ =>
      rw [CompareState.stack_rejected]
      exact ⟨PairsWithin.refl _ _, fun _ heq => by cases heq⟩
  | leftLost _ _ _ => exact ⟨PairsWithin.refl _ _, fun _ heq => by cases heq⟩
  | rightLost _ _ _ _ => exact ⟨PairsWithin.refl _ _, fun _ heq => by cases heq⟩
  | nodesDiffer _ _ =>
      rw [CompareState.stack_rejected]
      exact ⟨PairsWithin.refl _ _, fun _ heq => by cases heq⟩
  | callStopped hfresh _ hrun | pairedTwice hfresh _ hrun _ _ _ =>
      exact ⟨hcalls hawaits hfresh hrun, fun _ heq => by cases heq⟩
  | callDiffered hfresh _ hrun =>
      rw [CompareState.stack_extended]
      exact ⟨hcalls hawaits hfresh hrun, fun _ heq => by cases heq⟩
  | attributesDiffer hfresh _ hrun _ =>
      rw [CompareState.stack_rejected]
      exact ⟨hcalls hawaits hfresh hrun, fun _ heq => by cases heq⟩
  | inputCountsDiffer hfresh _ hrun _ _ =>
      rw [CompareState.stack_rejected]
      exact ⟨hcalls hawaits hfresh hrun, fun _ heq => by cases heq⟩
  | @nodesPaired level left right via scope leftNode rightNode inner hfresh _ hrun _ _ =>
      have hextends := (hrun.grows hgrows).trans (extends_pair inner.stack level left right)
      refine ⟨(hcalls hawaits hfresh hrun).trans ?_, fun pending heq other hother => ?_⟩
      · intro place index partner hsome hnone
        obtain ⟨scope', hscope', _⟩ := (hrun.grows hgrows).scope? hfresh.scope_eq
        rw [CompareState.stack_paired, partner?_pair hscope'] at hsome
        split at hsome
        next hsame =>
          obtain ⟨rfl, rfl⟩ := hsame
          exact hawaits
        next =>
          rw [hsome] at hnone
          cases hnone
      · cases heq
        obtain ⟨leftName, hleftName, rightName, _, rfl⟩ := mem_pendingValues hother
        intro found other slot hfinds
        exact hclosed hawaits hfresh.scope_eq hfresh.left_eq (.input hleftName)
          (hfinds.of_extends_back hextends)

theorem DrainRun.pairsWithin (hreaches : ReachesOnly leftRoot rightRoot relation)
    (hgrows : Grows relation)
    {pending : List Pending} {outcome : Outcome Bool}
    (hrun : DrainRun options relation state pending outcome final)
    (hproper : state.stack.Proper leftRoot rightRoot) (hclosed : state.stack.Closed holds)
    (hawaits : ∀ next ∈ pending, state.stack.Awaits holds next) :
    PairsWithin holds state.stack final.stack := by
  induction hrun with
  | finished => exact PairsWithin.refl holds _
  | failed hstep =>
      exact (hstep.pairsWithin hreaches hgrows hproper hclosed
        (hawaits _ List.mem_cons_self)).1
  | stopped hstep =>
      exact (hstep.pairsWithin hreaches hgrows hproper hclosed
        (hawaits _ List.mem_cons_self)).1
  | continued hstep _ ih =>
      have hextends := hstep.grows hgrows
      obtain ⟨hwithin, hleads⟩ := hstep.pairsWithin hreaches hgrows hproper hclosed
        (hawaits _ List.mem_cons_self)
      refine hwithin.trans (ih (hproper.of_extends hextends) (hclosed.of_extends hextends) ?_)
      intro next hnext
      rcases List.mem_append.mp hnext with hled | hrest
      · exact hleads _ rfl next hled
      · exact (hawaits next (List.mem_cons_of_mem _ hrest)).of_extends hextends

/-- What a comparison of outputs pairs is in each closed set that holds the nodes behind them. -/
theorem OutputsRun.pairsWithin (hreaches : ReachesOnly leftRoot rightRoot relation)
    (hgrows : Grows relation)
    {lefts rights : List String} {outcome : Outcome Bool}
    (hrun : OutputsRun options relation level lefts rights state outcome final)
    (hproper : state.stack.Proper leftRoot rightRoot) (hclosed : state.stack.Closed holds)
    (houtputs : ∀ name ∈ lefts, ∀ ⦃found other slot : Nat⦄,
      state.stack.FindsLeft name level found (.output other slot) → holds found other) :
    PairsWithin holds state.stack final.stack := by
  cases hrun with
  | countsDiffer _ =>
      rw [CompareState.stack_rejected]
      exact PairsWithin.refl holds _
  | drained _ hdrain =>
      refine hdrain.pairsWithin hreaches hgrows hproper hclosed ?_
      intro next hnext
      obtain ⟨left, hleft, right, _, rfl⟩ := mem_pendingValues hnext
      exact houtputs left hleft

theorem BodiesRun.pairsWithin (hreaches : ReachesOnly leftRoot rightRoot relation)
    (hgrows : Grows relation)
    {left right : Body} {outcome : Outcome Bool}
    (hrun : BodiesRun options relation level state outcome final)
    (hproper : state.stack.Proper leftRoot rightRoot) (hclosed : state.stack.Closed holds)
    (hbodies : state.stack.HasBodies level left right)
    (houtputs : ∀ name ∈ left.outputs, ∀ ⦃found other slot : Nat⦄,
      state.stack.FindsLeft name level found (.output other slot) → holds found other) :
    PairsWithin holds state.stack final.stack := by
  obtain ⟨scope, hscope, rfl, rfl⟩ := hbodies
  rcases hrun.outputs_or_paired hscope with hrun | ⟨_, inner, hrun, hpaired⟩
  · exact hrun.pairsWithin hreaches hgrows hproper hclosed houtputs
  · rw [hpaired.stack_eq]
    exact hrun.pairsWithin hreaches hgrows hproper hclosed houtputs

theorem Proper.entered (hproper : state.stack.Proper leftRoot rightRoot) {left right : Body}
    {graph graph' : Graph} (hbodies : state.stack.HasBodies level left right)
    (hcarried : Carried left right graph graph') :
    (state.entered level graph.body graph'.body).stack.Proper leftRoot rightRoot := by
  have hlevel := hbodies.lt_depth
  obtain ⟨scope, hscope, rfl, rfl⟩ := hbodies
  obtain ⟨⟨node, hnode, hcarries⟩, ⟨node', hnode', hcarries'⟩⟩ := hcarried
  exact hproper.push hlevel (.nested (hproper.left hscope) hnode hcarries)
    (.nested (hproper.right hscope) hnode' hcarries')

theorem entered_hasBodies (state : CompareState) (level : Nat) (left right : Body) :
    (state.entered level left right).stack.HasBodies state.stack.depth left right :=
  ⟨_, scope?_push_depth state.stack level left right, rfl, rfl⟩

/-- What the comparison of two nested bodies pairs: the nodes that the left one reaches, and nodes
of the levels around it that supply it. -/
theorem BodiesRun.pairsWithin_entered (hreaches : ReachesOnly leftRoot rightRoot relation)
    (hgrows : Grows relation)
    {left right : Body} {graph graph' : Graph} {outcome : Outcome Bool}
    (hproper : state.stack.Proper leftRoot rightRoot)
    (hbodies : state.stack.HasBodies level left right)
    (hcarried : Carried left right graph graph')
    (hrun : BodiesRun options relation state.stack.depth
      (state.entered level graph.body graph'.body) outcome final)
    (hclosed : state.stack.Closed holds) (hsupplies : state.stack.Supplies level graph holds) :
    PairsWithin (withReached state.stack.depth graph holds)
      (state.stack.push level graph.body graph'.body) final.stack := by
  refine hrun.pairsWithin hreaches hgrows (Proper.entered hproper hbodies hcarried)
    (closed_withReached hproper hbodies.lt_depth hclosed hsupplies)
    (entered_hasBodies state level graph.body graph'.body) ?_
  intro name hname found other slot hfinds
  exact withReached_of_needs hproper hbodies.lt_depth hsupplies (.output hname) hfinds

theorem nestedRun_reachesOnly (options : CompareOptions) (leftRoot rightRoot : Body)
    (levels : Nat) : ReachesOnly leftRoot rightRoot (NestedRun options levels) := by
  induction levels with
  | zero =>
      intro level graph graph' state final outcome left right holds hrun _ _ _ _ _
      rcases hrun with hheader | ⟨_, _, rfl⟩
      · rw [CompareState.stack_rejected]
        exact PairsWithin.refl holds _
      · exact PairsWithin.refl holds _
  | succ levels ih =>
      intro level graph graph' state final outcome left right holds hrun hproper hbodies hcarried
        hclosed hsupplies
      rcases hrun with hheader | ⟨_, inner, hrun, rfl⟩
      · rw [CompareState.stack_rejected]
        exact PairsWithin.refl holds _
      · have hgrows := nestedRun_grows options levels
        exact PairsWithin.of_entered (hrun.grows hgrows)
          (hrun.pairsWithin_entered ih hgrows hproper hbodies hcarried hclosed hsupplies)

/-- A left node needs an output of another one. Nodes are given with their levels. -/
def NodeNeeds (stack : ScopeStack) (user used : Nat × Nat) : Prop :=
  ∃ scope node name slot, stack.scope? user.1 = some scope ∧
    scope.left.nodes[user.2]? = some node ∧ node.Needs name ∧
    stack.FindsLeft name user.1 used.1 (.output used.2 slot)

theorem NodeNeeds.level_le {stack : ScopeStack} (hproper : stack.Proper leftRoot rightRoot)
    {user used : Nat × Nat} (hneeds : NodeNeeds stack user used) : used.1 ≤ user.1 := by
  obtain ⟨scope, node, name, slot, _, _, _, hfinds⟩ := hneeds
  exact hfinds.found_le hproper

theorem level_le_of_path {stack : ScopeStack} (hproper : stack.Proper leftRoot rightRoot)
    {user used : Nat × Nat} (hpath : Relation.TransGen (NodeNeeds stack) user used) :
    used.1 ≤ user.1 := by
  induction hpath with
  | single hneeds => exact hneeds.level_le hproper
  | tail _ hneeds ih => exact Nat.le_trans (hneeds.level_le hproper) ih

/-- At one level, what a node needs it depends on. -/
theorem NodeNeeds.dependsOn {stack : ScopeStack} (hproper : stack.Proper leftRoot rightRoot)
    {scope : Scope} (hscope : stack.scope? level = some scope) {user used : Nat × Nat}
    (huser : user.1 = level) (hused : used.1 = level) (hneeds : NodeNeeds stack user used) :
    scope.left.DependsOn user.2 used.2 := by
  obtain ⟨scope', node, name, slot, hscope', hnode, hneeds, hfinds⟩ := hneeds
  rw [huser, hscope, Option.some.injEq] at hscope'
  subst hscope'
  rw [huser, hused] at hfinds
  exact ⟨node, name, slot, hnode, hneeds.mentions, hfinds.defines hproper hscope⟩

/-- A path that comes back to its level never left it. -/
theorem path_at_level {stack : ScopeStack} (hproper : stack.Proper leftRoot rightRoot)
    {scope : Scope} (hscope : stack.scope? level = some scope) {user used : Nat × Nat}
    (hpath : Relation.TransGen (NodeNeeds stack) user used) (huser : user.1 = level)
    (hused : used.1 = level) : Relation.TransGen scope.left.DependsOn user.2 used.2 := by
  induction hpath with
  | single hneeds => exact .single (hneeds.dependsOn hproper hscope huser hused)
  | tail hrest hneeds ih =>
      have hlower := level_le_of_path hproper hrest
      have hupper := hneeds.level_le hproper
      have hmiddle := Nat.le_antisymm (huser ▸ hlower) (hused ▸ hupper)
      exact .tail (ih hmiddle) (hneeds.dependsOn hproper hscope hmiddle hused)

/-- The calls for two nodes do not pair the left one, as it does not depend on itself. -/
theorem FreshNodes.unpaired_after (hacyclic : leftRoot.AcyclicScopes)
    (hreaches : ReachesOnly leftRoot rightRoot relation) (hgrows : Grows relation)
    {left right : Nat} {scope : Scope} {leftNode rightNode : Node}
    {outcome : Outcome (Option GraphCall)} (hproper : state.stack.Proper leftRoot rightRoot)
    (hfresh : FreshNodes state.stack level left right scope leftNode rightNode)
    (hcalls : CallsRun relation level
      (attributePlan leftNode.attributes rightNode.attributes).calls state outcome final) :
    final.stack.partner? level left = none := by
  have hwithin : PairsWithin
      (fun place index => Relation.TransGen (NodeNeeds state.stack) (level, left) (place, index))
      state.stack final.stack := by
    refine hfresh.pairsWithin hreaches hgrows hproper hcalls ?_ ?_
    · intro place index found other slot scope' node name hpath hscope' hnode hneeds hfinds
      exact hpath.tail ⟨scope', node, name, slot, hscope', hnode, hneeds, hfinds⟩
    · intro name found other slot hneeds hfinds
      exact .single ⟨scope, leftNode, name, slot, hfresh.scope_eq, hfresh.left_eq, hneeds, hfinds⟩
  cases hpartner : final.stack.partner? level left with
  | none => rfl
  | some partner =>
      have hbefore : state.stack.partner? level left = none := by
        rw [partner?_of_scope? hfresh.scope_eq, hfresh.unpaired]
      have hcycle := path_at_level hproper hfresh.scope_eq (hwithin hpartner hbefore) rfl rfl
      exact absurd hcycle (hacyclic scope.left (hproper.left hfresh.scope_eq) left)

end Reaching

end CompareM

end OpGraph
