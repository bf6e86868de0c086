import OpGraph.Proofs.Descent.Accounting
import OpGraph.Proofs.Descent.Guarantees
import OpGraph.Proofs.Descent.Tracing

/-!
A comparison that ends well has looked at all that takes part, on both sides. So two functions are
not found equivalent if one of them has a node with data that is never the same as anything, or if a
node with such data takes part further in, even if both operands are the same function.
-/

namespace OpGraph

namespace CompareM

open ScopeStack

/-- A comparison of graphs that ends well accounts for what it paired, and finds graphs that are
clear. -/
def AccountsFor (all : Bool) (leftRoot rightRoot : Body) (relation : NestedRelation) : Prop :=
  ∀ ⦃level : Nat⦄ ⦃graph graph' : Graph⦄ ⦃state final : CompareState⦄ ⦃left right : Body⦄,
    relation level graph graph' state (.ok true) final →
    state.stack.Proper leftRoot rightRoot → state.stack.HasBodies level left right →
    Carried left right graph graph' →
    ∃ known, Accounts all state.stack final.stack known ∧
      ClearGraphs all (final.stack.Covers known level) graph graph'

section Accounting

variable {all : Bool} {leftRoot rightRoot : Body} {options : CompareOptions}
  {relation : NestedRelation} {level : Nat} {state final : CompareState}
  {known : LevelPairs}

theorem CallsRun.accounts (haccounts : AccountsFor all leftRoot rightRoot relation)
    (hgrows : Grows relation) {calls : List GraphCall} {left right : Body}
    {outcome : Outcome (Option GraphCall)}
    (hrun : CallsRun relation level calls state outcome final) (houtcome : outcome = .ok none)
    (hproper : state.stack.Proper leftRoot rightRoot)
    (hbodies : state.stack.HasBodies level left right)
    (hcarried : ∀ call ∈ calls, Carried left right call.left call.right) :
    ∃ known, Accounts all state.stack final.stack known ∧ ∀ call ∈ calls,
      ClearGraphs all (final.stack.Covers known level) call.left call.right := by
  induction hrun with
  | finished => exact ⟨_, Accounts.refl all _, by simp⟩
  | matched hcall hrest ih =>
      have hfirst := hgrows _ _ _ _ _ _ hcall
      have hlater := hrest.grows hgrows
      obtain ⟨known, hknown, hclear⟩ :=
        haccounts hcall hproper hbodies (hcarried _ List.mem_cons_self)
      obtain ⟨known', hknown', hclears⟩ := ih houtcome (hproper.of_extends hfirst)
        (hbodies.of_extends hfirst) fun call hmem => hcarried call (List.mem_cons_of_mem _ hmem)
      refine ⟨_, hknown.trans hlater hknown', fun call hmem => ?_⟩
      rcases List.mem_cons.mp hmem with rfl | hrest
      · exact hclear.mono fun _ _ hcovers => hcovers.mono hlater (LevelPairs.le_union_left _ _)
      · exact (hclears call hrest).mono fun _ _ hcovers =>
          hcovers.mono (Extends.refl _) (LevelPairs.le_union_right _ _)
  | differed _ => cases houtcome
  | stopped _ => cases houtcome

/-- If all values of two lists of the same length have been looked at, the lists are covered. -/
theorem tied_of_pendingValues {stack : ScopeStack} {lefts rights : List String} {via : List UseStep}
    (hlength : lefts.length = rights.length)
    (hknows : ∀ next ∈ pendingValues level lefts rights via, stack.Knows known next) :
    Tied (stack.Covers known level) (· ∈ lefts) (· ∈ rights) := by
  have hplace : ∀ ⦃place : Nat⦄ ⦃left right : String⦄, lefts[place]? = some left →
      rights[place]? = some right → stack.Covers known level left right := by
    intro place left right hleft hright
    exact hknows (.values level left right via) (List.mem_of_getElem?
      (List.getElem?_zipWith_eq_some.mpr ⟨left, right, hleft, hright, rfl⟩))
  constructor
  · intro left hleft
    obtain ⟨place, hleft⟩ := List.mem_iff_getElem?.mp hleft
    obtain ⟨right, hright⟩ := exists_getElem?_of_length_eq hlength hleft
    exact ⟨right, List.mem_of_getElem? hright, hplace hleft hright⟩
  · intro right hright
    obtain ⟨place, hright⟩ := List.mem_iff_getElem?.mp hright
    obtain ⟨left, hleft⟩ := exists_getElem?_of_length_eq hlength.symm hright
    exact ⟨left, List.mem_of_getElem? hleft, hplace hleft hright⟩

/-- A step has looked at what it is about, and accounts for what it paired, once this holds for all
that it leads to. -/
theorem StepRun.accounts (hleft : leftRoot.Distinct) (hright : rightRoot.Distinct)
    (haccounts : AccountsFor all leftRoot rightRoot relation) (hgrows : Grows relation)
    {next : Pending} {pending : List Pending} {inner : CompareState}
    (hrun : StepRun options relation state next (.ok (some pending)) inner)
    (hproper : state.stack.Proper leftRoot rightRoot)
    (hextends : inner.stack.Extends final.stack)
    (hrest : Accounts all inner.stack final.stack known)
    (hknows : ∀ other ∈ pending, final.stack.Knows known other) :
    ∃ known', known ≤ known' ∧
      Accounts all state.stack final.stack known' ∧ final.stack.Knows known' next := by
  cases hrun with
  | namesLead hlookup hrule =>
      exact ⟨known, le_rfl, hrest, (covers_of_lookup hlookup hrule hknows).mono hextends le_rfl⟩
  | partners hscope hpartner =>
      refine ⟨known, le_rfl, hrest, hrest.partners (hextends.partner? ?_)⟩
      rw [partner?_of_scope? hscope, hpartner]
  | @nodesPaired level left right via scope leftNode rightNode inner hfresh hrule hcalls
      hdifference hlength =>
      have hmiddle : inner.stack.Extends (inner.paired level left right).stack :=
        extends_pair inner.stack level left right
      have hlater := hmiddle.trans hextends
      obtain ⟨scope', hscope', hscopes⟩ := (hcalls.grows hgrows).scope? hfresh.scope_eq
      have hleftMem := List.mem_of_getElem? hfresh.left_eq
      have hrightMem := List.mem_of_getElem? hfresh.right_eq
      obtain ⟨first, hfirst, hclear⟩ := hcalls.accounts haccounts hgrows rfl hproper
        ⟨scope, hfresh.scope_eq, rfl, rfl⟩ fun call hcall =>
          ⟨⟨leftNode, hleftMem, (mem_attributePlan hcall).1⟩,
            ⟨rightNode, hrightMem, (mem_attributePlan hcall).2⟩⟩
      have hnodes : final.stack.NodesAt level left right leftNode rightNode :=
        NodesAt.of_extends ((hcalls.grows hgrows).trans hlater)
          ⟨scope, hfresh.scope_eq, hfresh.left_eq, hfresh.right_eq⟩
      have hnodup := hleft.attributes _ (hproper.left hfresh.scope_eq) _ hleftMem
      have hnodup' := hright.attributes _ (hproper.right hfresh.scope_eq) _ hrightMem
      have hmore : known ≤ first.union (known.union (.only level left right)) :=
        fun _ _ _ hpair => Or.inr (Or.inl hpair)
      have hclears : ClearNodes all
          (final.stack.Covers (first.union (known.union (.only level left right))) level)
          leftNode rightNode := by
        refine clearNodes_of_plan hnodup hnodup' hdifference (fun call hcall => ?_) ?_
        · exact (hclear call hcall).mono fun _ _ hcovers =>
            hcovers.mono hlater (LevelPairs.le_union_left _ _)
        · exact (tied_of_pendingValues hlength hknows).mono fun _ _ hcovers =>
            hcovers.mono (Extends.refl _) hmore
      exact ⟨_, hmore, hfirst.trans_pair hscope' hextends hrest ⟨_, _, hnodes, hclears⟩,
        Or.inr (Or.inr ⟨rfl, rfl, rfl⟩)⟩

/-- A descent that ends well has looked at all that was pending, and accounts for what it paired. -/
theorem DrainRun.accounts (hleft : leftRoot.Distinct) (hright : rightRoot.Distinct)
    (haccounts : AccountsFor all leftRoot rightRoot relation) (hgrows : Grows relation)
    {pending : List Pending} {outcome : Outcome Bool}
    (hrun : DrainRun options relation state pending outcome final) (houtcome : outcome = .ok true)
    (hproper : state.stack.Proper leftRoot rightRoot) :
    ∃ known, Accounts all state.stack final.stack known ∧
      ∀ next ∈ pending, final.stack.Knows known next := by
  induction hrun with
  | finished => exact ⟨_, Accounts.refl all _, by simp⟩
  | failed _ => cases houtcome
  | stopped _ => cases houtcome
  | continued hstep hrest ih =>
      have hextends := hrest.grows hgrows
      obtain ⟨known, hknown, hknows⟩ := ih houtcome (hproper.of_extends (hstep.grows hgrows))
      obtain ⟨known', hmore, hknown', hnext⟩ := hstep.accounts hleft hright haccounts hgrows hproper
        hextends hknown fun other hother => hknows other (List.mem_append_left _ hother)
      refine ⟨known', hknown', fun other hother => ?_⟩
      rcases List.mem_cons.mp hother with rfl | hmem
      · exact hnext
      · exact (hknows other (List.mem_append_right _ hmem)).mono hmore

/-- A comparison of the outputs of two bodies that ends well accounts for what it paired. The nodes of
the known pairs of these bodies are clear, and the bodies use the same from around them. -/
theorem OutputsRun.accounts (hleft : leftRoot.Distinct) (hright : rightRoot.Distinct)
    (haccounts : AccountsFor all leftRoot rightRoot relation) (hgrows : Grows relation)
    {left right : Body}
    (hrun : OutputsRun options relation level left.outputs right.outputs state (.ok true) final)
    (hproper : state.stack.Proper leftRoot rightRoot)
    (hbodies : state.stack.HasBodies level left right)
    (hunpaired : ∀ index, ¬ state.stack.Paired level index) :
    ∃ known, Accounts all state.stack final.stack known ∧
      (∀ ⦃index index' : Nat⦄, known level index index' →
        final.stack.Clears all known level index index') ∧
      Tied (final.stack.Covers known level) left.Seeks right.Seeks := by
  have hextends := hrun.grows hgrows
  rcases hrun with _ | ⟨hlength, hdrain⟩
  obtain ⟨known, hknown, hknows⟩ := hdrain.accounts hleft hright haccounts hgrows rfl hproper
  have hclear : ∀ ⦃index index' : Nat⦄, known level index index' →
      final.stack.Clears all known level index index' := by
    intro index index' hpair
    refine (hknown.clear hpair).resolve_left fun hpartner => ?_
    exact hunpaired index (paired_of_partner? hpartner)
  exact ⟨known, hknown, hclear, tied_seeks (hbodies.of_extends hextends) hclear
    (tied_of_pendingValues hlength hknows)⟩

/-- A comparison of two graphs in a scope of their own that ends well accounts for what it paired
around it, and the graphs are clear. -/
theorem BodiesRun.accounts (hleft : leftRoot.Distinct) (hright : rightRoot.Distinct) {levels : Nat}
    (haccounts : AccountsFor options.pairAllNodes leftRoot rightRoot (NestedRun options levels))
    {left right : Body} {graph graph' : Graph}
    (hrun : BodiesRun options (NestedRun options levels) state.stack.depth
      (state.entered level graph.body graph'.body) (.ok true) final)
    (hproper : state.stack.Proper leftRoot rightRoot)
    (hbodies : state.stack.HasBodies level left right)
    (hcarried : Carried left right graph graph') (hbare : graph.Bare) (hbare' : graph'.Bare) :
    ∃ known, Accounts options.pairAllNodes state.stack final.stack.pop known ∧
      ClearGraphs options.pairAllNodes (final.stack.pop.Covers known level) graph graph' := by
  have hgrows := nestedRun_grows options levels
  have hentered := Proper.entered hproper hbodies hcarried
  have hextends := hrun.grows hgrows
  have hproper' := hentered.of_extends hextends
  obtain ⟨scope, hscope, hscopes⟩ :=
    hextends.scope? (scope?_push_depth state.stack level graph.body graph'.body)
  obtain ⟨inner, houtputs, hstack⟩ :=
    hrun.outputsRun (scope?_push_depth state.stack level graph.body graph'.body)
  obtain ⟨known, hknown, hclear, htied⟩ := houtputs.accounts hleft hright haccounts hgrows hentered
    (entered_hasBodies state level graph.body graph'.body)
    fun index => unpaired_entered state level index graph.body graph'.body
  rw [← hstack] at hknown hclear htied
  have hcover : options.pairAllNodes = true →
      (∀ index < scope.left.nodes.length, ∃ index', known state.stack.depth index index') ∧
        ∀ index' < scope.right.nodes.length, ∃ index, known state.stack.depth index index' := by
    intro hall
    obtain ⟨scope', hscope', hcover⟩ :=
      hrun.covers hall (inRangeAt_entered state level graph.body graph'.body)
    obtain rfl := Option.some.inj (hscope.symm.trans hscope')
    exact hknown.exists_known hscope hcover
  have hgraphScope := hproper'.left hscope
  have hgraphScope' := hproper'.right hscope
  rw [hscopes.left] at hgraphScope
  rw [hscopes.right] at hgraphScope'
  have hunique : graph.body.UniqueScopes := fun body hbody =>
    hleft.names body (hgraphScope.trans hbody)
  have hunique' : graph'.body.UniqueScopes := fun body hbody =>
    hright.names body (hgraphScope'.trans hbody)
  obtain ⟨hgraph, hgraph'⟩ := clear_of_tied hscope hscopes.left hscopes.right hbare hbare' hunique
    hunique' hclear htied hcover
  have hlevel : level + 1 < final.stack.depth := by
    have hlt := hbodies.lt_depth
    rw [hextends.depth_eq, CompareState.stack_entered, depth_push]
    omega
  have hcaptures := tied_captures hscope hscopes.left hscopes.right hscopes.parent htied
  exact ⟨_, Accounts.of_entered hproper' hextends hknown, hgraph, hgraph',
    hcaptures.mono fun _ _ hcovers => hcovers.pop hproper' hlevel⟩

theorem nestedRun_accounts (options : CompareOptions) (hleft : leftRoot.Distinct)
    (hright : rightRoot.Distinct) (levels : Nat) :
    AccountsFor options.pairAllNodes leftRoot rightRoot (NestedRun options levels) := by
  induction levels with
  | zero =>
      intro level graph graph' state final left right hrun _ _ _
      rcases hrun with _ | ⟨_, houtcome, _⟩
      cases houtcome
  | succ levels ih =>
      intro level graph graph' state final left right hrun hproper hbodies hcarried
      rcases hrun with _ | ⟨hheader, inner, hrun, rfl⟩
      obtain ⟨_, hbare, hbare'⟩ := headerDifference?_eq_none_iff.mp hheader
      exact hrun.accounts hleft hright ih hproper hbodies hcarried hbare hbare'

end Accounting

end CompareM

open CompareM

section Operands

variable {options : CompareOptions} {left right : Function}

/-- No node of two functions that are found equivalent is unmatchable. -/
theorem Function.not_unmatchable_of_compare (hleft : left.checkWellFormed = .ok ())
    (hright : right.checkWellFormed = .ok ()) {pairing : Pairing}
    (hcompare : left.compare options right = .ok (.equivalent pairing)) :
    (∀ node ∈ left.nodes, ¬ node.Unmatchable options.pairAllNodes) ∧
      ∀ node ∈ right.nodes, ¬ node.Unmatchable options.pairAllNodes := by
  have hwell : (Operands.functions left right).WellFormed := ⟨hleft, hright⟩
  have hcover := @Operands.cover_of_compare _ (.functions left right) _ rfl hcompare
  obtain ⟨_, final, houtputs, rfl, _⟩ :=
    @Operands.outputs_of_compare _ (.functions left right) _ hcompare
  have hgrows := nestedRun_grows options options.depthLimit
  obtain ⟨hroot, hrootLeft, hrootRight⟩ := root_eq_of_extends (houtputs.grows hgrows)
  obtain ⟨known, hknown, hclear, _⟩ := OutputsRun.accounts hwell.left_distinct hwell.right_distinct
    (nestedRun_accounts options hwell.left_distinct hwell.right_distinct options.depthLimit) hgrows
    houtputs (proper_initial left.body right.body) ⟨_, rfl, rfl, rfl⟩
    fun index hpaired => hpaired (partner?_initial left.body right.body 0 index)
  have hclears := ScopeStack.not_unmatchable_of_known hroot hclear
    (hknown.exists_known hroot (by rwa [hrootLeft, hrootRight]))
  rwa [hrootLeft, hrootRight] at hclears

/-- Two well-formed functions, one of which has an unmatchable node, are not found equivalent: they
differ, or the comparison is given up for its depth, or a node of the left one depends on itself and
is paired twice. This holds for a function and itself, too. -/
theorem Function.compare_unmatchable (options : CompareOptions) {left right : Function}
    (hleft : left.checkWellFormed = .ok ()) (hright : right.checkWellFormed = .ok ())
    (hnode : (∃ node ∈ left.nodes, node.Unmatchable options.pairAllNodes) ∨
      ∃ node ∈ right.nodes, node.Unmatchable options.pairAllNodes) :
    (∃ difference?, left.compare options right = .ok (.different difference?)) ∨
      left.compare options right =
        .error (.unfinished (.depthLimitExceeded options.depthLimit)) ∨
      ¬ left.body.AcyclicScopes ∧
        left.compare options right = .error (.unfinished (.fault .pairedTwice)) := by
  have hwell : (Operands.functions left right).WellFormed := ⟨hleft, hright⟩
  refine (Operands.compare_ends hwell.check).imp_left ?_
  rintro ⟨pairing | difference?, hcompare⟩
  · obtain ⟨hclear, hclear'⟩ := Function.not_unmatchable_of_compare hleft hright hcompare
    rcases hnode with ⟨node, hmem, hbad⟩ | ⟨node, hmem, hbad⟩
    · exact absurd hbad (hclear node hmem)
    · exact absurd hbad (hclear' node hmem)
  · exact ⟨difference?, hcompare⟩

/-- A constant that is a tensor. -/
def Graph.constant : Graph where
  nodes := [{ opType := "Constant", outputs := ["c"], attributes := [⟨"value", .tensor {}⟩] }]
  outputs := ["c"]

/-- A choice of which one branch is the constant. -/
def Function.constantChoice : Function where
  name := "f"
  inputs := ["x"]
  outputs := ["y"]
  nodes := [{ opType := "If", inputs := ["x"], outputs := ["y"]
              attributes := [⟨"then_branch", .graph Graph.constant⟩] }]

/-- A choice of which one branch gives the input, beside a choice with the constant that nothing
uses. -/
def Function.idleChoice : Function where
  name := "f"
  inputs := ["x"]
  outputs := ["y"]
  nodes := [{ opType := "If", inputs := ["x"], outputs := ["y"]
              attributes := [⟨"then_branch", .graph {
                nodes := [{ opType := "If", outputs := ["d"]
                            attributes := [⟨"then_branch", .graph Graph.constant⟩] }]
                outputs := ["x"] }⟩] }]

/-- A constant whose tensor is a parameter of the function. -/
def Function.tensorParameter : Function where
  name := "f"
  outputs := ["y"]
  parameters := ["value"]
  nodes := [{ opType := "Constant", outputs := ["y"]
              attributes := [⟨"value", .reference "value" .tensor⟩] }]

theorem Graph.constant_reaches : Graph.constant.body.Reaches 0 :=
  ⟨"c", 0, .output List.mem_cons_self, .output (by decide) rfl rfl⟩

/-- The choice with the constant is not found equivalent to itself. -/
theorem Function.compare_unmatchable_constantChoice :
    Function.constantChoice.checkWellFormed = .ok () ∧
      (∃ node ∈ Function.constantChoice.nodes, node.Unmatchable false) ∧
      ∃ difference?, Function.constantChoice.compare {} Function.constantChoice =
        .ok (.different difference?) := by
  have hcarries : (Function.constantChoice.nodes[0]).Carries Graph.constant :=
    ⟨_, List.mem_cons_self, List.mem_cons_self⟩
  have hnode : (Function.constantChoice.nodes[0]).Unmatchable false :=
    .carried hcarries rfl (Or.inr Graph.constant_reaches)
      (.held List.mem_cons_self (.payload rfl))
  refine ⟨rfl, ⟨_, List.mem_cons_self, hnode⟩, ?_⟩
  rcases @Function.compare_unmatchable {} Function.constantChoice Function.constantChoice rfl rfl
    (Or.inl ⟨_, List.mem_cons_self, hnode⟩) with hdiffers | hdepth | ⟨_, hfault⟩
  · exact hdiffers
  · cases hdepth
  · cases hfault

/-- What nothing uses in a nested graph keeps no function from being found equivalent to itself, even
if the constant in it is reached in its own graph. Nor does a reference to a parameter. -/
theorem Function.compare_idleChoice_tensorParameter :
    (Function.idleChoice.checkWellFormed = .ok () ∧
      (∃ pairing, Function.idleChoice.compare {} Function.idleChoice = .ok (.equivalent pairing)) ∧
      ∃ node ∈ Function.idleChoice.nodes, ∃ branch, node.Carries branch ∧
        ∃ idle ∈ branch.nodes, idle.Carries Graph.constant ∧ Graph.constant.body.Reaches 0 ∧
          ∃ constant, Graph.constant.nodes[0]? = some constant ∧
            ∃ attr ∈ constant.attributes, attr.value.isOpaque = true) ∧
    Function.tensorParameter.checkWellFormed = .ok () ∧
      (∃ pairing, Function.tensorParameter.compare {} Function.tensorParameter =
        .ok (.equivalent pairing)) ∧
      ∃ node ∈ Function.tensorParameter.nodes, ∃ attr ∈ node.attributes,
        attr.value.kind.isOpaque = true := by
  refine ⟨⟨rfl, ⟨⟨[(0, 0)], by decide⟩, rfl⟩, ?_⟩, rfl, ⟨⟨[(0, 0)], by decide⟩, rfl⟩, ?_⟩
  · exact ⟨_, List.mem_cons_self, _, ⟨_, List.mem_cons_self, List.mem_cons_self⟩, _,
      List.mem_cons_self, ⟨_, List.mem_cons_self, List.mem_cons_self⟩, Graph.constant_reaches,
      _, rfl, _, List.mem_cons_self, rfl⟩
  · exact ⟨_, List.mem_cons_self, _, List.mem_cons_self, rfl⟩

end Operands

end OpGraph
