import OpGraph.Proofs.Descent.Guarantees
import OpGraph.Proofs.Descent.Tracing
import OpGraph.Proofs.Scoping.Depths

/-!
When a comparison ends with a verdict. All that may stop it is the limit on comparisons of nested
graphs inside each other, and they go as deep as the search from the outputs of the left operand
does.
-/

namespace OpGraph

namespace ScopeStack

/-- The left bodies that a level sees, its own first. -/
def leftBodies (stack : ScopeStack) (level : Nat) : List Body :=
  (stack.layers (fun _ _ => none) level).map Layer.left

section Bodies

variable {leftRoot rightRoot : Body} {stack stack' : ScopeStack} {level : Nat} {scope : Scope}

theorem leftBodies_eq (hproper : stack.Proper leftRoot rightRoot)
    (hscope : stack.scope? level = some scope) :
    stack.leftBodies level = scope.left :: scope.parent.elim [] stack.leftBodies := by
  rw [leftBodies, layers_eq hproper hscope, List.map_cons]
  cases scope.parent <;> rfl

theorem leftBodies_of_extends (hextends : stack.Extends stack') (level : Nat) :
    stack'.leftBodies level = stack.leftBodies level := by
  rw [leftBodies, leftBodies, layers_of_extends hextends]

/-- A scope that is entered changes nothing for what the other levels see. -/
theorem leftBodies_push_of_lt {left right : Body} {other : Nat} (hlevel : level < stack.depth) :
    (stack.push other left right).leftBodies level = stack.leftBodies level :=
  congrArg (List.map Layer.left)
    (layers_congr (fun _ hlt => scope?_push_of_lt hlt) (fun _ _ => rfl) hlevel)

/-- The scope that is entered sees its own body and what the level around it sees. -/
theorem leftBodies_push_depth {left right : Body} (hlevel : level < stack.depth)
    (hproper : (stack.push level left right).Proper leftRoot rightRoot) :
    (stack.push level left right).leftBodies stack.depth = left :: stack.leftBodies level := by
  rw [leftBodies_eq hproper (scope?_push_depth stack level left right), Option.elim_some,
    leftBodies_push_of_lt hlevel]

/-- A lookup that finds two names passes by bodies that do not have the left one. -/
theorem leftBodies_of_lookup (hproper : stack.Proper leftRoot rightRoot) {found moves : Nat}
    {left right : String} {origin origin' : Origin}
    (hlookup : stack.lookupOutward? left right moves level = some (found, .here origin origin')) :
    ∃ scope skipped, stack.scope? found = some scope ∧ scope.left.origin? left = some origin ∧
      scope.right.origin? right = some origin' ∧
      stack.leftBodies level = skipped ++ stack.leftBodies found ∧
      ∀ body ∈ skipped, body.origin? left = none := by
  induction moves generalizing level with
  | zero =>
      rcases lookupOutward?_eq_here hlookup with
        ⟨scope, hscope, rfl, horigin, horigin'⟩ | ⟨_, _, _, hmoves, _⟩
      · exact ⟨scope, [], hscope, horigin, horigin', rfl, by simp⟩
      · cases hmoves
  | succ moves ih =>
      rcases lookupOutward?_eq_here hlookup with ⟨scope, hscope, rfl, horigin, horigin'⟩ |
        ⟨scope, parent, fewer, hmoves, hscope, hnone, _, hparent, hrest⟩
      · exact ⟨scope, [], hscope, horigin, horigin', rfl, by simp⟩
      · cases hmoves
        obtain ⟨scope', skipped, hscope', horigin, horigin', hbodies, hskipped⟩ := ih hrest
        refine ⟨scope', scope.left :: skipped, hscope', horigin, horigin', ?_, ?_⟩
        · rw [leftBodies_eq hproper hscope, hparent, Option.elim_some, hbodies, List.cons_append]
        · exact List.forall_mem_cons.mpr ⟨hnone, hskipped⟩

end Bodies

end ScopeStack

namespace CompareM

open ScopeStack

/-- The search from a pending comparison goes at most so many levels deep. -/
def Bounded (levels : Nat) (stack : ScopeStack) : Pending → Prop
  | .values level left _ _ => NestsWithin levels (stack.leftBodies level) left
  | .nodes level left _ _ => ∀ scope node, stack.scope? level = some scope →
      scope.left.nodes[left]? = some node → node.NestsWithin levels (stack.leftBodies level)

/-- A comparison of graphs that may go so many levels deep is not given up, if the search from the
left one stays within this limit. -/
def StaysWithin (options : CompareOptions) (leftRoot rightRoot : Body) (levels : Nat)
    (relation : NestedRelation) : Prop :=
  ∀ ⦃level below : Nat⦄ ⦃graph graph' : Graph⦄ ⦃state final : CompareState⦄ ⦃outcome : Outcome Bool⦄
    ⦃left right : Body⦄,
    relation level graph graph' state outcome final → state.stack.Proper leftRoot rightRoot →
    state.stack.HasBodies level left right → Carried left right graph graph' →
    levels = below + 1 →
    (∀ used ∈ graph.outputs, NestsWithin below (graph.body :: state.stack.leftBodies level) used) →
    outcome ≠ .error (.depthLimitExceeded options.depthLimit)

section Ending

variable {leftRoot rightRoot : Body} {options : CompareOptions} {relation : NestedRelation}
  {level levels : Nat} {state final : CompareState}

theorem Bounded.of_extends {stack stack' : ScopeStack} (hextends : stack.Extends stack')
    {next : Pending} (hbounded : Bounded levels stack next) : Bounded levels stack' next := by
  rcases next with ⟨level, left, right, via⟩ | ⟨level, left, right, via⟩
  · rw [Bounded, leftBodies_of_extends hextends]
    exact hbounded
  · intro scope' node hscope' hnode
    obtain ⟨scope, hscope, hscopes⟩ := hextends.scope?_back hscope'
    rw [leftBodies_of_extends hextends]
    exact hbounded scope node hscope (hscopes.left ▸ hnode)

theorem bounded_of_lookupPending {stack : ScopeStack} (hproper : stack.Proper leftRoot rightRoot)
    {found : Nat} {left right : String} {lookup : Lookup} {via : List UseStep}
    (hlookup : stack.lookupOutward? left right level level = some (found, lookup))
    (hnests : NestsWithin levels (stack.leftBodies level) left) {next : Pending}
    (hnext : next ∈ lookupPending found via lookup) : Bounded levels stack next := by
  unfold lookupPending at hnext
  split at hnext
  · obtain ⟨scope, skipped, hscope, horigin, _, hbodies, hskipped⟩ :=
      leftBodies_of_lookup hproper hlookup
    rw [hbodies] at hnests
    have hfound := hnests.of_skipped hskipped
    rw [List.mem_singleton.mp hnext]
    intro scope' node hscope' hnode
    rw [hscope, Option.some.injEq] at hscope'
    subst hscope'
    rw [leftBodies_eq hproper hscope] at hfound ⊢
    exact hfound.behind horigin hnode
  · cases hnext

theorem bounded_of_pendingValues {stack : ScopeStack} {lefts rights : List String}
    {via : List UseStep}
    (hnests : ∀ used ∈ lefts, NestsWithin levels (stack.leftBodies level) used) {next : Pending}
    (hnext : next ∈ pendingValues level lefts rights via) : Bounded levels stack next := by
  obtain ⟨left, hleft, _, _, rfl⟩ := mem_pendingValues hnext
  exact hnests left hleft

theorem CallsRun.staysWithin (hwithin : StaysWithin options leftRoot rightRoot levels relation)
    (hgrows : Grows relation) {calls : List GraphCall} {outcome : Outcome (Option GraphCall)}
    {left right : Body} (hrun : CallsRun relation level calls state outcome final)
    (hproper : state.stack.Proper leftRoot rightRoot)
    (hbodies : state.stack.HasBodies level left right)
    (hcarried : ∀ call ∈ calls, Carried left right call.left call.right)
    (hnests : ∀ call ∈ calls, ∃ below, levels = below + 1 ∧ ∀ used ∈ call.left.outputs,
      NestsWithin below (call.left.body :: state.stack.leftBodies level) used) :
    outcome ≠ .error (.depthLimitExceeded options.depthLimit) := by
  induction hrun with
  | finished => simp
  | matched hcall _ ih =>
      have hextends := hgrows _ _ _ _ _ _ hcall
      refine ih (hproper.of_extends hextends) (hbodies.of_extends hextends) ?_ ?_
      · exact fun call hmem => hcarried call (List.mem_cons_of_mem _ hmem)
      · rw [leftBodies_of_extends hextends]
        exact fun call hmem => hnests call (List.mem_cons_of_mem _ hmem)
  | differed _ => simp
  | stopped hcall =>
      obtain ⟨below, hlevels, houtputs⟩ := hnests _ List.mem_cons_self
      have hends := hwithin hcall hproper hbodies (hcarried _ List.mem_cons_self) hlevels houtputs
      intro herror
      cases herror
      exact hends rfl

/-- The calls for two nodes are not given up, if the search from the left one stays within the limit.
-/
theorem FreshNodes.staysWithin (hwithin : StaysWithin options leftRoot rightRoot levels relation)
    (hgrows : Grows relation) {left right : Nat} {scope : Scope} {leftNode rightNode : Node}
    {outcome : Outcome (Option GraphCall)} (hproper : state.stack.Proper leftRoot rightRoot)
    (hfresh : FreshNodes state.stack level left right scope leftNode rightNode)
    (hcalls : CallsRun relation level
      (attributePlan leftNode.attributes rightNode.attributes).calls state outcome final)
    (hnests : leftNode.NestsWithin levels (state.stack.leftBodies level)) :
    outcome ≠ .error (.depthLimitExceeded options.depthLimit) := by
  refine hcalls.staysWithin hwithin hgrows hproper ⟨scope, hfresh.scope_eq, rfl, rfl⟩ ?_ ?_
  · intro call hcall
    obtain ⟨hcarries, hcarries'⟩ := mem_attributePlan hcall
    exact ⟨⟨leftNode, List.mem_of_getElem? hfresh.left_eq, hcarries⟩,
      ⟨rightNode, List.mem_of_getElem? hfresh.right_eq, hcarries'⟩⟩
  · exact fun call hcall => hnests.graphs call.left (mem_attributePlan hcall).1

/-- A step within the limit is not given up, and leads to steps within the limit. -/
theorem StepRun.staysWithin (hwithin : StaysWithin options leftRoot rightRoot levels relation)
    (hgrows : Grows relation) {next : Pending} {outcome : Outcome (Option (List Pending))}
    (hrun : StepRun options relation state next outcome final)
    (hproper : state.stack.Proper leftRoot rightRoot)
    (hbounded : Bounded levels state.stack next) :
    outcome ≠ .error (.depthLimitExceeded options.depthLimit) ∧
      ∀ pending, outcome = .ok (some pending) →
        ∀ other ∈ pending, Bounded levels final.stack other := by
  cases hrun with
  | namesLead hlookup _ =>
      refine ⟨by simp, ?_⟩
      rintro _ ⟨⟩ other hother
      exact bounded_of_lookupPending hproper hlookup hbounded hother
  | partners _ _ =>
      refine ⟨by simp, ?_⟩
      rintro _ ⟨⟩ other hother
      cases hother
  | callStopped hfresh _ hcalls =>
      have hnests := hbounded _ _ hfresh.scope_eq hfresh.left_eq
      have hends := hfresh.staysWithin hwithin hgrows hproper hcalls hnests
      refine ⟨fun herror => ?_, by simp⟩
      cases herror
      exact hends rfl
  | @nodesPaired level left right via scope leftNode rightNode inner hfresh _ hcalls _ _ =>
      have hnests := hbounded _ _ hfresh.scope_eq hfresh.left_eq
      have hextends := (hcalls.grows hgrows).trans (extends_pair inner.stack level left right)
      refine ⟨by simp, ?_⟩
      rintro _ ⟨⟩ other hother
      exact (bounded_of_pendingValues hnests.inputs hother).of_extends hextends
  | namesLost | scopeLost | leftLost | rightLost | pairedTwice => exact ⟨by simp, by simp⟩
  | namesDiffer | conflict | nodesDiffer | callDiffered | attributesDiffer | inputCountsDiffer =>
      exact ⟨by simp, by simp⟩

/-- A descent within the limit is not given up. -/
theorem DrainRun.staysWithin (hwithin : StaysWithin options leftRoot rightRoot levels relation)
    (hgrows : Grows relation) {pending : List Pending} {outcome : Outcome Bool}
    (hrun : DrainRun options relation state pending outcome final)
    (hproper : state.stack.Proper leftRoot rightRoot)
    (hbounded : ∀ next ∈ pending, Bounded levels state.stack next) :
    outcome ≠ .error (.depthLimitExceeded options.depthLimit) := by
  induction hrun with
  | finished => simp
  | failed _ => simp
  | stopped hstep =>
      have hends := (hstep.staysWithin hwithin hgrows hproper (hbounded _ List.mem_cons_self)).1
      intro herror
      cases herror
      exact hends rfl
  | continued hstep _ ih =>
      have hextends := hstep.grows hgrows
      obtain ⟨_, hleads⟩ :=
        hstep.staysWithin hwithin hgrows hproper (hbounded _ List.mem_cons_self)
      refine ih (hproper.of_extends hextends) fun next hnext => ?_
      rcases List.mem_append.mp hnext with hled | hrest
      · exact hleads _ rfl next hled
      · exact (hbounded next (List.mem_cons_of_mem _ hrest)).of_extends hextends

theorem OutputsRun.staysWithin (hwithin : StaysWithin options leftRoot rightRoot levels relation)
    (hgrows : Grows relation) {lefts rights : List String} {outcome : Outcome Bool}
    (hrun : OutputsRun options relation level lefts rights state outcome final)
    (hproper : state.stack.Proper leftRoot rightRoot)
    (hnests : ∀ used ∈ lefts, NestsWithin levels (state.stack.leftBodies level) used) :
    outcome ≠ .error (.depthLimitExceeded options.depthLimit) := by
  cases hrun with
  | countsDiffer _ => simp
  | drained _ hdrain =>
      exact hdrain.staysWithin hwithin hgrows hproper fun _ hnext =>
        bounded_of_pendingValues hnests hnext

/-- The comparison of two bodies within the limit is not given up. -/
theorem BodiesRun.staysWithin (hwithin : StaysWithin options leftRoot rightRoot levels relation)
    (hgrows : Grows relation) {left right : Body} {outcome : Outcome Bool}
    (hrun : BodiesRun options relation level state outcome final)
    (hproper : state.stack.Proper leftRoot rightRoot)
    (hbodies : state.stack.HasBodies level left right)
    (hnests : ∀ used ∈ left.outputs, NestsWithin levels (state.stack.leftBodies level) used) :
    outcome ≠ .error (.depthLimitExceeded options.depthLimit) := by
  obtain ⟨scope, hscope, rfl, rfl⟩ := hbodies
  rcases hrun.outputs_or_paired hscope with houtputs | ⟨_, inner, houtputs, hpaired⟩
  · exact houtputs.staysWithin hwithin hgrows hproper hnests
  · obtain ⟨scope', hscope', _⟩ := (houtputs.grows hgrows).scope? hscope
    obtain ⟨matched, rfl⟩ := hpaired.ends hscope'
    simp

/-- Nested comparisons are not given up, if the search stays within the limit. -/
theorem nestedRun_staysWithin (options : CompareOptions) (leftRoot rightRoot : Body)
    (levels : Nat) : StaysWithin options leftRoot rightRoot levels (NestedRun options levels) := by
  induction levels with
  | zero =>
      intro level below graph graph' state final outcome left right _ _ _ _ hlevels _
      omega
  | succ levels ih =>
      intro level below graph graph' state final outcome left right hrun hproper hbodies hcarried
        hlevels hnests
      obtain rfl : levels = below := by omega
      rcases hrun with _ | ⟨_, inner, hrun, rfl⟩
      · simp
      · have hproper' := Proper.entered hproper hbodies hcarried
        refine hrun.staysWithin ih (nestedRun_grows options levels) hproper'
          (entered_hasBodies state level graph.body graph'.body) fun used hused => ?_
        rw [CompareState.stack_entered, leftBodies_push_depth hbodies.lt_depth hproper']
        exact hnests used hused

theorem leftBodies_initial (left right : Body) :
    (CompareState.initial left right).stack.leftBodies 0 = [left] := by
  have hroot : (CompareState.initial left right).stack.scope? 0 =
      some { parent := none, left, right } := rfl
  rw [leftBodies_eq (proper_initial left right) hroot, Option.elim_none]

end Ending

end CompareM

open CompareM

section Operands

variable {options : CompareOptions}

/-- The comparison of two operands ends with a verdict, if the search from the outputs of the left one
stays within the limit and does not come back to a node. -/
theorem Operands.exists_verdict {operands : Operands} (hcheck : operands.check options = .ok ())
    (hacyclic : operands.left.AcyclicScopes)
    (hnests : ∀ name ∈ operands.left.outputs,
      NestsWithin options.depthLimit [operands.left] name) :
    ∃ verdict, operands.compare options = .ok verdict := by
  refine (Operands.compare_ends_of_acyclic hcheck hacyclic).resolve_right fun hdepth => ?_
  have hrun := operands.ending_run options
  rw [Operands.ending_of_unfinished hdepth] at hrun
  cases hrun with
  | failed _ houtputs _ =>
      refine houtputs.staysWithin
        (nestedRun_staysWithin options operands.left operands.right options.depthLimit)
        (nestedRun_grows options options.depthLimit)
        (proper_initial operands.left operands.right) ?_ rfl
      rw [leftBodies_initial]
      exact hnests
  | checked _ houtputs _ hpaired =>
      obtain ⟨hscope, _⟩ :=
        root_eq_of_extends (houtputs.grows (nestedRun_grows options options.depthLimit))
      obtain ⟨matched, houtcome⟩ := hpaired.ends hscope
      cases houtcome

/-- Where graphs are nested in the left operand at most as deep as the limit, and what they capture
leads to no node that carries a graph, the comparison of well-formed operands ends with a verdict,
however many nodes there are. -/
theorem compare_within_depthLimit (options : CompareOptions) :
    (∀ left right : Function, left.checkWellFormed = .ok () → right.checkWellFormed = .ok () →
      left.body.AcyclicScopes → left.body.NestedAtMost options.depthLimit →
      left.body.PlainCaptures → ∃ verdict, left.compare options right = .ok verdict) ∧
    ∀ left right : Graph, left.checkWellFormed = .ok () → right.checkWellFormed = .ok () →
      left.body.AcyclicScopes → left.body.NestedAtMost options.depthLimit →
      left.body.PlainCaptures → ∃ verdict, left.compare options right = .ok verdict := by
  have hnests : ∀ body : Body, body.AcyclicScopes → body.NestedAtMost options.depthLimit →
      body.PlainCaptures → ∀ name ∈ body.outputs, NestsWithin options.depthLimit [body] name := by
    intro body hacyclic hnested hplain name hname
    exact nestsWithin_of_nestedAtMost hacyclic hplain .root hnested (fun _ _ _ => .nowhere)
      (.output hname)
  constructor
  · intro left right hleft hright hacyclic hnested hplain
    have hwell : (Operands.functions left right).WellFormed := ⟨hleft, hright⟩
    exact Operands.exists_verdict hwell.check hacyclic (hnests left.body hacyclic hnested hplain)
  · intro left right hleft hright hacyclic hnested hplain
    have hwell : (Operands.graphs left right).WellFormed := ⟨hleft, hright⟩
    exact Operands.exists_verdict hwell.check hacyclic (hnests left.body hacyclic hnested hplain)

/-- Two choices side by side; the branch of the second one is what the first one computes. -/
def Graph.chainedChoices : Graph where
  nodes := [
    { opType := "If", inputs := ["x"], outputs := ["a"]
      attributes := [⟨"body", .graph { outputs := ["x"] }⟩] },
    { opType := "If", inputs := ["x"], outputs := ["y"]
      attributes := [⟨"body", .graph { outputs := ["a"] }⟩] }]
  inputs := ["x"]
  outputs := ["y"]

/-- No graph is nested in another one, but a graph that captures what a node with a graph computes
takes two levels. -/
theorem Graph.compare_chainedChoices :
    Graph.chainedChoices.checkWellFormed = .ok () ∧ Graph.chainedChoices.body.AcyclicScopes ∧
      Graph.chainedChoices.body.NestedAtMost 1 ∧
      Graph.chainedChoices.compare { depthLimit := 1 } Graph.chainedChoices =
        .error (.unfinished (.depthLimitExceeded 1)) := by
  refine ⟨rfl, Body.acyclicScopes_of_inOrder rfl, ?_, rfl⟩
  rintro node hnode graph ⟨attr, hattr, hgraph⟩ inner hinner
  simp only [chainedChoices, body, List.mem_cons, List.not_mem_nil, or_false] at hnode
  rcases hnode with rfl | rfl
  · obtain rfl := List.mem_singleton.mp hattr
    obtain rfl := List.mem_singleton.mp hgraph
    cases hinner
  · obtain rfl := List.mem_singleton.mp hattr
    obtain rfl := List.mem_singleton.mp hgraph
    cases hinner

/-- The two choices nest graphs one level deep, and capture what a node without graphs computes: one
level is enough to compare them. Graphs without nesting take none. -/
theorem compare_within_depthLimit_choice :
    (∃ verdict, Function.choice.compare { depthLimit := 1 } Function.renamedChoice = .ok verdict) ∧
      ∃ verdict, Graph.reluTwice.compare { depthLimit := 0 } Graph.reluOnce = .ok verdict := by
  have hnested : Function.choice.body.NestedAtMost 1 := by
    rintro node hnode graph ⟨attr, hattr, hgraph⟩ inner hinner held ⟨attr', hattr', _⟩
    simp only [Function.choice, Function.body, List.mem_cons, List.not_mem_nil, or_false] at hnode
    rcases hnode with rfl | rfl
    · cases hattr
    · simp only [List.mem_cons, List.not_mem_nil, or_false] at hattr
      rcases hattr with rfl | rfl
      · obtain rfl := List.mem_singleton.mp hgraph
        obtain rfl := List.mem_singleton.mp hinner
        cases hattr'
      · obtain rfl := List.mem_singleton.mp hgraph
        obtain rfl := List.mem_singleton.mp hinner
        cases hattr'
  have hbare : Graph.reluTwice.body.NestedAtMost 0 := by
    rintro node hnode graph ⟨attr, hattr, _⟩
    simp only [Graph.reluTwice, Graph.body, List.mem_cons, List.not_mem_nil, or_false] at hnode
    rcases hnode with rfl | rfl
    · cases hattr
    · cases hattr
  constructor
  · exact (compare_within_depthLimit { depthLimit := 1 }).1 Function.choice Function.renamedChoice
      rfl rfl (Body.acyclicScopes_of_inOrder rfl) hnested (Body.plainCaptures_of_scopes rfl)
  · exact (compare_within_depthLimit { depthLimit := 0 }).2 Graph.reluTwice Graph.reluOnce rfl rfl
      (Body.acyclicScopes_of_inOrder rfl) hbare (Body.plainCaptures_of_scopes rfl)

end Operands

end OpGraph
