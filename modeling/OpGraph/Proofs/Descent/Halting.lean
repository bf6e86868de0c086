import OpGraph.Proofs.Descent.Filling
import OpGraph.Proofs.Descent.Moments

/-!
No comparison goes on for ever, whatever the operands are: nodes may use each other in a circle,
nested graphs may use the node that carries them, names may be defined twice or not at all. Moments
do not go on for ever, a lookup goes outwards only, and the uses that lead to what is pending are of
different left nodes. There is a verdict in the end, or the operands are not as required or nested
too deep. But a left node that depends on itself may come to be paired twice, and this is a fault.
-/

namespace OpGraph

open CompareM

/-- The uses that led to a pending comparison in the same descent, the innermost first. -/
def Pending.via : Pending → List UseStep
  | .values _ _ _ via => via
  | .nodes _ _ _ via => via

namespace ScopeStack

/-- There is a left node with this index at this level. -/
def HoldsLeft (stack : ScopeStack) (level index : Nat) : Prop :=
  ∃ scope node, stack.scope? level = some scope ∧ scope.left.nodes[index]? = some node

/-- Uses of left nodes that are paired, each of which is used once. -/
inductive Trail (stack : ScopeStack) : List (Nat × Nat) → List UseStep → Prop where
  | start : Trail stack [] []
  | use {level left right : Nat} {opType : String} {nodes : List (Nat × Nat)} {via : List UseStep} :
      Trail stack nodes via → (level, left) ∉ nodes → stack.Paired level left →
      stack.HoldsLeft level left →
      Trail stack ((level, left) :: nodes) (.nodes level left right opType :: via)

/-- The number of all left nodes in the scopes. -/
def nodeTotal (stack : ScopeStack) : Nat := (stack.scopes.flatMap fun scope => scope.left.nodes).length

/-- The left nodes in the scopes, by level and index. -/
def leftPlaces (stack : ScopeStack) : List (Nat × Nat) :=
  stack.scopes.zipIdx.flatMap fun (scope, level) =>
    (List.range scope.left.nodes.length).map fun index => (level, index)

variable {stack stack' : ScopeStack} {level index : Nat} {nodes : List (Nat × Nat)}
  {via : List UseStep}

theorem HoldsLeft.of_extends (hextends : stack.Extends stack')
    (hholds : stack.HoldsLeft level index) : stack'.HoldsLeft level index := by
  obtain ⟨scope, node, hscope, hnode⟩ := hholds
  obtain ⟨scope', hscope', hscopes⟩ := hextends.scope? hscope
  exact ⟨scope', node, hscope', by rwa [hscopes.left]⟩

theorem HoldsLeft.mem_leftPlaces (hholds : stack.HoldsLeft level index) :
    (level, index) ∈ stack.leftPlaces := by
  obtain ⟨scope, node, hscope, hnode⟩ := hholds
  refine List.mem_flatMap.mpr ⟨(scope, level), List.mem_zipIdx_iff_getElem?.mpr hscope, ?_⟩
  exact List.mem_map.mpr ⟨index, List.mem_range.mpr (List.getElem?_eq_some_iff.mp hnode).1, rfl⟩

theorem length_leftPlaces (stack : ScopeStack) : stack.leftPlaces.length = stack.nodeTotal := by
  have hmap : stack.scopes.map (fun scope => scope.left.nodes.length) =
      stack.scopes.zipIdx.map ((fun scope => scope.left.nodes.length) ∘ Prod.fst) := by
    rw [← List.map_map, List.zipIdx_map_fst]
  rw [leftPlaces, nodeTotal, List.length_flatMap, List.length_flatMap, hmap]
  simp only [List.length_map, List.length_range, Function.comp_def]

theorem Trail.of_extends (hextends : stack.Extends stack') (htrail : stack.Trail nodes via) :
    stack'.Trail nodes via := by
  induction htrail with
  | start => exact .start
  | use _ hnew hpaired hholds ih =>
      exact .use ih hnew (hpaired.of_extends hextends) (hholds.of_extends hextends)

theorem Trail.mem (htrail : stack.Trail nodes via) {place : Nat × Nat} (hplace : place ∈ nodes) :
    stack.Paired place.1 place.2 ∧ stack.HoldsLeft place.1 place.2 := by
  induction htrail with
  | start => cases hplace
  | use _ _ hpaired hholds ih =>
      rcases List.mem_cons.mp hplace with rfl | hrest
      · exact ⟨hpaired, hholds⟩
      · exact ih hrest

theorem Trail.nodup (htrail : stack.Trail nodes via) : nodes.Nodup := by
  induction htrail with
  | start => exact List.nodup_nil
  | use _ hnew _ _ ih => exact List.nodup_cons.mpr ⟨hnew, ih⟩

theorem Trail.length_eq (htrail : stack.Trail nodes via) : via.length = nodes.length := by
  induction htrail with
  | start => rfl
  | use _ _ _ _ ih => rw [List.length_cons, List.length_cons, ih]

/-- There are no more uses in a trail than there are left nodes. -/
theorem Trail.length_le (htrail : stack.Trail nodes via) : via.length ≤ stack.nodeTotal := by
  have hsubset : nodes ⊆ stack.leftPlaces :=
    fun _ hplace => (htrail.mem hplace).2.mem_leftPlaces
  rw [htrail.length_eq, ← stack.length_leftPlaces]
  exact (htrail.nodup.subperm hsubset).length_le

end ScopeStack

namespace CompareM

variable {options : CompareOptions} {relation : NestedRelation} {state final : CompareState}

theorem via_of_mem_pendingValues {level : Nat} {lefts rights : List String} {via : List UseStep}
    {next : Pending} (hnext : next ∈ pendingValues level lefts rights via) : next.via = via := by
  obtain ⟨place, hplace⟩ := List.mem_iff_getElem?.mp hnext
  obtain ⟨left, right, _, _, rfl⟩ := List.getElem?_zipWith_eq_some.mp hplace
  rfl

theorem via_of_mem_lookupPending {level : Nat} {lookup : Lookup} {via : List UseStep}
    {next : Pending} (hnext : next ∈ lookupPending level via lookup) : next.via = via := by
  unfold lookupPending at hnext
  split at hnext
  · rw [List.mem_singleton.mp hnext]
    rfl
  · cases hnext

/-- The nodes of a step are not among those that led to it, for these are paired. So the uses that
lead to what comes up next are of different nodes as well. -/
theorem StepRun.trail (hgrows : Grows relation) {next : Pending} {leads : List Pending}
    (hrun : StepRun options relation state next (.ok (some leads)) final)
    (htrail : ∃ nodes, state.stack.Trail nodes next.via) {other : Pending} (hother : other ∈ leads) :
    ∃ nodes, final.stack.Trail nodes other.via := by
  obtain ⟨nodes, htrail⟩ := htrail
  cases hrun with
  | namesLead _ _ =>
      rw [via_of_mem_lookupPending hother]
      exact ⟨nodes, htrail⟩
  | partners _ _ => cases hother
  | @nodesPaired level left right via scope leftNode rightNode inner hfresh _ hcalls _ _ =>
      have hcalled := hcalls.grows hgrows
      have hextends := hcalled.trans (ScopeStack.extends_pair inner.stack level left right)
      obtain ⟨scope', hscope', hscopes⟩ := hcalled.scope? hfresh.scope_eq
      have hpaired : (inner.stack.pair level left right).Paired level left := by
        rw [ScopeStack.Paired, ScopeStack.partner?_pair hscope', if_pos ⟨rfl, rfl⟩]
        exact Option.some_ne_none _
      have hnew : (level, left) ∉ nodes := fun hmem => (htrail.mem hmem).1
        ((ScopeStack.partner?_of_scope? hfresh.scope_eq).trans hfresh.unpaired)
      rw [via_of_mem_pendingValues hother]
      exact ⟨_, (htrail.of_extends hextends).use hnew hpaired
        (ScopeStack.HoldsLeft.of_extends hextends ⟨scope, leftNode, hfresh.scope_eq, hfresh.left_eq⟩)⟩

end CompareM

/-- The graphs that a step comes to are at the same place of nodes that are met together. -/
theorem Moment.Calls.traced {moment : Moment} {leftRoot rightRoot : Body} {level : Nat}
    {call : GraphCall} {inner : CompareState} {path : List UseStep}
    (hcalls : moment.Calls options level call inner path)
    (hproper : moment.state.stack.Proper leftRoot rightRoot) (htraced : moment.state.stack.Traced)
    (hmet : ∀ next ∈ moment.pending, moment.state.stack.Met next) :
    inner.stack.Traced ∧ inner.stack.HoldTogether level call.left call.right := by
  cases hcalls with
  | @made levels level left right via around rest state inner scope leftNode rightNode calls later
      call hfresh _ hplan hexec =>
      have hgrows := nestedRun_grows options levels
      have hrun := callsRun_of_exec hexec
      obtain ⟨scope', hscope', hmeet⟩ := hmet _ List.mem_cons_self
      obtain rfl : scope = scope' := Option.some.inj (hfresh.scope_eq.symm.trans hscope')
      have hholds : ∀ called ∈ (attributePlan leftNode.attributes rightNode.attributes).calls,
          state.stack.HoldTogether level called.left called.right := fun called hcalled =>
        ⟨scope, hscope', left, right, leftNode, rightNode, hmeet, hfresh.left_eq, hfresh.right_eq,
          carryTogether_of_mem hcalled⟩
      rw [hplan] at hholds
      refine ⟨(hrun.traced (nestedRun_traces options leftRoot rightRoot levels) hgrows hproper
        htraced fun called hcalled => hholds called (List.mem_append_left _ hcalled)).2, ?_⟩
      exact (hholds call (List.mem_append_right _ List.mem_cons_self)).of_extends
        (hrun.grows hgrows)

namespace Operands

variable {options : CompareOptions} {operands : Operands} {moment : Moment}

/-- All that a comparison comes by is met by the searches of the two operands in step. -/
theorem Passes.traced (hpasses : operands.Passes options moment) :
    moment.state.stack.Traced ∧ ∀ next ∈ moment.pending, moment.state.stack.Met next := by
  induction hpasses with
  | begins _ _ _ =>
      refine ⟨ScopeStack.traced_ofBodies _ _, fun next hnext => ?_⟩
      have hroot : (first options operands).state.stack.scope? 0 =
          some { parent := none, left := operands.left, right := operands.right } := rfl
      exact met_of_pendingValues hroot (fun _ _ _ hname hname' => .output hname hname') hnext
  | @follows moment next hpasses hfollows ih =>
      obtain ⟨htraced, hmet⟩ := ih
      have hproper := hpasses.reached.proper
      cases hfollows with
      | step hexec =>
          have hrun := stepRun_of_exec hexec
          obtain ⟨⟨_, hends, hleads⟩, htraced'⟩ := hrun.traced
            (nestedRun_traces options _ _ _) (nestedRun_grows options _) hproper htraced
            (hmet _ List.mem_cons_self)
          cases hends
          refine ⟨htraced', fun other hother => ?_⟩
          rcases List.mem_append.mp hother with hled | hrest
          · exact hleads _ rfl other hled
          · exact (hmet other (List.mem_cons_of_mem _ hrest)).of_extends
              (hrun.grows (nestedRun_grows options _))
      | nested hcalls _ _ _ =>
          obtain ⟨htraced', hholds⟩ := hcalls.traced hproper htraced hmet
          refine ⟨htraced'.push hholds, fun other hother => ?_⟩
          exact met_of_pendingValues (ScopeStack.scope?_push_depth _ _ _ _)
            (fun _ _ _ hname hname' => .output hname hname') hother

/-- The uses that led to what is pending in a descent are of different left nodes. -/
theorem Passes.trail (hpasses : operands.Passes options moment) :
    ∀ next ∈ moment.pending, ∃ nodes, moment.state.stack.Trail nodes next.via := by
  induction hpasses with
  | begins _ _ _ =>
      intro next hnext
      rw [via_of_mem_pendingValues hnext]
      exact ⟨[], .start⟩
  | @follows moment next hpasses hfollows ih =>
      cases hfollows with
      | step hexec =>
          have hrun := stepRun_of_exec hexec
          have hgrows := nestedRun_grows options
          intro other hother
          rcases List.mem_append.mp hother with hled | hrest
          · exact hrun.trail (hgrows _) (ih _ List.mem_cons_self) hled
          · obtain ⟨nodes, htrail⟩ := ih other (List.mem_cons_of_mem _ hrest)
            exact ⟨nodes, htrail.of_extends (hrun.grows (hgrows _))⟩
      | nested _ _ _ _ =>
          intro other hother
          rw [via_of_mem_pendingValues hother]
          exact ⟨[], .start⟩

/-- What is pending at a moment ends, and takes no more steps than it weighs. -/
theorem Passes.drain_ends (hpasses : operands.Passes options moment) :
    ∃ outcome final, (∃ matched, EndsWith options matched outcome) ∧
      (operands.left.AcyclicScopes → outcome ≠ .error (.fault .pairedTwice)) ∧
      ∀ steps, moment.weight ≤ steps →
        exec (drain options (compareNested options moment.levels) steps moment.pending)
          moment.state = (outcome, final) := by
  obtain ⟨htraced, hmet⟩ := hpasses.traced
  have hgrows := nestedRun_grows options moment.levels
  have hrun := drain_run options (compareNested_run options moment.levels) hgrows
    (Nat.le_refl moment.weight)
  have hproper := hpasses.reached.proper
  have hends := (hrun.traced (nestedRun_traces options _ _ _) hgrows hproper htraced hmet).1
  have honce := fun hacyclic => hrun.pairsOnce hacyclic
    (nestedRun_pairsOnce options operands.right hacyclic moment.levels)
    (nestedRun_reachesOnly options operands.left operands.right moment.levels) hgrows hproper
  exact ⟨_, _, hends, honce, fun steps hsteps => exec_drain_eq hsteps (Nat.le_refl moment.weight)⟩

/-- The comparison of two operands ends, and so does all that it consists of. -/
structure Terminates (options : CompareOptions) (operands : Operands) : Prop where
  /-- There is a verdict, or an operand is not as required, or the graphs are nested too deep, or a
  left node depends on itself and is paired twice. -/
  ends : (∃ verdict, operands.compare options = .ok verdict) ∨
    (∃ violation, operands.compare options = .error (.notWellFormed violation)) ∨
    operands.compare options = .error (.unfinished (.depthLimitExceeded options.depthLimit)) ∨
    ¬ operands.left.AcyclicScopes ∧
      operands.compare options = .error (.unfinished (.fault .pairedTwice))
  /-- A descent ends for good after so many steps, with an answer or for its depth, or because a left
  node depends on itself and is paired twice. -/
  descents : ∀ moment, operands.Passes options moment → ∃ outcome final,
    (∃ matched, EndsWith options matched outcome) ∧
      (operands.left.AcyclicScopes → outcome ≠ .error (.fault .pairedTwice)) ∧
      ∀ steps, moment.weight ≤ steps →
        exec (drain options (compareNested options moment.levels) steps moment.pending)
          moment.state = (outcome, final)
  /-- A scope is enclosed by one of a lower level. -/
  enclosed : ∀ moment, operands.Passes options moment → ∀ level parent scope,
    moment.state.stack.scope? level = some scope → scope.parent = some parent → parent < level
  /-- A lookup that is pending comes to a scope that decides. -/
  lookups : ∀ moment, operands.Passes options moment → ∀ level left right via,
    .values level left right via ∈ moment.pending →
    ∃ found lookup, moment.state.stack.lookupOutward? left right level level =
      some (found, lookup) ∧ ∀ parent, lookup ≠ .outward parent
  /-- The uses that led to what is pending are no more than there are nodes. -/
  trails : ∀ moment, operands.Passes options moment → ∀ next ∈ moment.pending,
    next.via.length ≤ moment.state.stack.nodeTotal

end Operands

/-- Whatever the operands are, comparing them does not go on for ever, nor do its descents, its
lookups, its descents inside each other and the ways back along the uses. It ends with a verdict or a
proper error, unless a left node depends on itself. -/
theorem compare_terminates (options : CompareOptions) :
    WellFounded (Moment.Follows options) ∧ ∀ operands : Operands, operands.Terminates options := by
  refine ⟨Moment.wellFounded_follows options, fun operands => ⟨?_, ?_, ?_, ?_, ?_⟩⟩
  · obtain hcheck | ⟨violation, hcheck⟩ := operands.check_ends options
    · exact (Operands.compare_ends hcheck).imp_right Or.inr
    · refine Or.inr (Or.inl ⟨violation, ?_⟩)
      rw [Operands.compare_eq, hcheck]
      rfl
  · exact fun moment hpasses => hpasses.drain_ends
  · exact fun moment hpasses level parent scope hscope hparent =>
      hpasses.reached.proper.parent_lt hscope hparent
  · intro moment hpasses level left right via hpending
    obtain ⟨scope, hscope, _⟩ := hpasses.traced.2 _ hpending
    have hends : moment.state.stack.lookupOutward? left right level level ≠ none :=
      ScopeStack.lookupOutward?_ne_none hpasses.reached.proper.parent_lt hscope (Nat.le_refl level)
    obtain ⟨⟨found, lookup⟩, hlookup⟩ := Option.ne_none_iff_exists'.mp hends
    exact ⟨found, lookup, hlookup, ScopeStack.lookupOutward?_decides hlookup⟩
  · intro moment hpasses next hnext
    obtain ⟨nodes, htrail⟩ := hpasses.trail next hnext
    exact htrail.length_le

/-- Comparing the choice that uses itself with itself is stopped by a fault: there is neither a verdict
nor a proper error. -/
theorem Graph.compare_selfUsing_self :
    Graph.selfUsing.checkWellFormed = .ok () ∧
      Graph.selfUsing.compare {} Graph.selfUsing = .error (.unfinished (.fault .pairedTwice)) :=
  ⟨rfl, rfl⟩

/-- Two nodes that use each other. -/
def Graph.ring : Graph where
  nodes := [(Node.ofType "Relu").withInputs ["b"] |>.withOutputs ["a"],
    (Node.ofType "Relu").withInputs ["a"] |>.withOutputs ["b"]]
  outputs := ["a"]

example : Graph.ring.compare {} Graph.ring =
    .ok (.equivalent ⟨[(0, 0), (1, 1)], by decide⟩) := rfl

end OpGraph
