import OpGraph.Proofs.Descent.Limits
import OpGraph.Proofs.Descent.Raising

/-!
Graphs that refer to nothing outside compare the same in an attribute as by themselves. The functions
that carry them have one node each, and all that is compared of these nodes is the graphs; so the
comparison of the functions is that of the graphs, one level further in.
-/

namespace OpGraph

open CompareM

/-- The function without inputs whose only node has the graph in an attribute, and whose output is
that of the node. -/
def Graph.carrier (graph : Graph) (opType attr output : String) : Function where
  nodes := [{ opType, outputs := [output], attributes := [⟨attr, .graph graph⟩] }]
  outputs := [output]

/-- How a difference of two graphs is told of the functions that carry them. -/
def Difference.carried (opType attr : String) (difference : Difference) : Difference :=
  { difference with
    path := difference.path.map UseStep.raised ++ [.subgraph attr 0, .nodes 0 0 0 opType] }

/-- The results for two graphs, at so many levels, and for the functions that carry them, at one more
level. -/
inductive CarriedResult (opType attr : String) (levels : Nat) :
    Except NoVerdict Verdict → Except NoVerdict Verdict → Prop where
  | equivalent (pairing : Pairing) :
      CarriedResult opType attr levels (.ok (.equivalent pairing))
        (.ok (.equivalent ⟨[(0, 0)], by decide⟩))
  | different (difference? : Option Difference) :
      CarriedResult opType attr levels (.ok (.different difference?))
        (.ok (.different (difference?.map (Difference.carried opType attr))))
  | tooDeep :
      CarriedResult opType attr levels (.error (.unfinished (.depthLimitExceeded levels)))
        (.error (.unfinished (.depthLimitExceeded (levels + 1))))
  | pairedTwice :
      CarriedResult opType attr levels (.error (.unfinished (.fault .pairedTwice)))
        (.error (.unfinished (.fault .pairedTwice)))

section Carriers

variable {options : CompareOptions} {left right : Graph} {opType attr output : String}

theorem Graph.carrier_origin? (graph : Graph) (opType attr : String) (houtput : output ≠ "") :
    (graph.carrier opType attr output).body.origin? output = some (.output 0 0) := by
  simp [carrier, Function.body, Body.origin?, Body.definitions, inputDefinitions, Node.definitions,
    houtput]

theorem Graph.carrier_origin?_blank (graph : Graph) (opType attr : String) (houtput : output ≠ "") :
    (graph.carrier opType attr output).body.origin? "" = none := by
  simp [carrier, Function.body, Body.origin?, Body.definitions, inputDefinitions, Node.definitions,
    houtput]

theorem attributePlan_carrier (left right : Graph) (attr : String) :
    attributePlan [⟨attr, .graph left⟩] [⟨attr, .graph right⟩] =
      ⟨[⟨attr, 0, left, right⟩], none⟩ := by
  have hplan : valuePlan attr (.graph left) (.graph right) = ⟨[⟨attr, 0, left, right⟩], none⟩ := rfl
  simp [attributePlan, namedPlan, lastNamed?, hplan]

variable (left right opType attr output) in
/-- The state in which the functions that carry two graphs start to be compared. -/
def carriersInitial : CompareState :=
  .initial (left.carrier opType attr output).body (right.carrier opType attr output).body

theorem freshNodes_carrier :
    FreshNodes (carriersInitial left right opType attr output).stack 0 0 0
      (carriersInitial left right opType attr output).stack.root
      { opType, outputs := [output], attributes := [⟨attr, .graph left⟩] }
      { opType, outputs := [output], attributes := [⟨attr, .graph right⟩] } :=
  ⟨rfl, rfl, rfl, rfl⟩

/-- The nodes that carry two graphs match if these do. -/
theorem exec_headsMatch_carrier {levels : Nat} {via : List UseStep} (state : CompareState) :
    exec (headsMatch options (compareNested options levels) 0
        { opType, outputs := [output], attributes := [⟨attr, .graph left⟩] }
        { opType, outputs := [output], attributes := [⟨attr, .graph right⟩] } via) state =
      exec (do
        if ← compareNested options levels 0 left right then return true
        else
          extendPath (.subgraph attr 0 :: via)
          return false) state := by
  have hrule : nodeRule? { opType, outputs := [output], attributes := [⟨attr, .graph left⟩] }
      { opType, outputs := [output], attributes := [⟨attr, .graph right⟩] } = none :=
    nodeRule?_eq_none_iff.mpr ⟨rfl, rfl⟩
  rw [exec_headsMatch, hrule]
  simp only [attributePlan_carrier, makeCalls, exec_bind]
  rcases exec (compareNested options levels 0 left right) state with ⟨error | matched, final⟩
  · rfl
  · cases matched <;> rfl

/-- The outputs of the functions are compared by the call for the graphs that they carry. -/
theorem exec_compareOutputs_carrier (levels : Nat) (left right : Graph) (opType attr : String)
    (houtput : output ≠ "") :
    exec (compareOutputs options (compareNested options levels) 0 [output] [output])
        (carriersInitial left right opType attr output) =
      exec (do
        if ← compareNested options levels 0 left right then
          pair 0 0 0
          return true
        else
          extendPath [.subgraph attr 0, .nodes 0 0 0 opType]
          return false) (carriersInitial left right opType attr output) := by
  have hroot : (carriersInitial left right opType attr output).stack.lookup? 0 output output =
      some (.here (.output 0 0) (.output 0 0)) := by
    simp [carriersInitial, CompareState.initial, ScopeStack.ofBodies, ScopeStack.lookup?,
      ScopeStack.scope?, ScopeStack.scopes, Scope.lookup, Graph.carrier_origin? _ _ _ houtput]
  have hlookup := ScopeStack.lookupOutward?_of_lookup hroot (by simp) 0
  have hvalues : pendingValues 0 [output] [output] [] = [.values 0 output output []] := rfl
  have hrule : lookupRule? output output (.here (.output 0 0) (.output 0 0)) = none := rfl
  rw [exec_compareOutputs_eq, exec_bind, exec_valuesStep, if_pos rfl, hvalues]
  simp only [exec_settle_values, hlookup, hrule]
  rw [exec_settle_fresh freshNodes_carrier, exec_bind, exec_headsMatch_carrier, exec_bind, exec_bind]
  rcases exec (compareNested options levels 0 left right)
    (carriersInitial left right opType attr output) with ⟨error | matched, final⟩
  · rfl
  · cases matched with
    | false => rfl
    | true =>
        simp only [exec_pure, if_true, exec_bind, exec_pair]
        cases final.stack.partner? 0 0 with
        | none => exact exec_settle_nil
        | some partner => rfl

/-- If the graphs differ, the functions that carry them differ likewise. -/
theorem differed_carried {final final' : CompareState} (hrecorded : final.RecordedRaised final')
    (levels : Nat) :
    CarriedResult opType attr levels (.ok (final.verdict false))
      (.ok ((final'.extended [.subgraph attr 0, .nodes 0 0 0 opType]).verdict false)) := by
  have hdifference : (final'.extended [.subgraph attr 0, .nodes 0 0 0 opType]).difference =
      final.difference.map (Difference.carried opType attr) := by
    rw [CompareState.RecordedRaised] at hrecorded
    rw [CompareState.extended, hrecorded, Option.map_map]
    rfl
  have hdifferent := @CarriedResult.different opType attr levels final.difference
  rw [← hdifference] at hdifferent
  exact hdifferent

/-- The functions that carry two graphs are compared by the call for these. -/
theorem ending_carriers (options : CompareOptions) (left right : Graph) (opType attr : String)
    (houtput : output ≠ "") :
    (Operands.functions (left.carrier opType attr output)
        (right.carrier opType attr output)).ending options =
      exec (do
        if ← compareNested options options.depthLimit 0 left right then
          pair 0 0 0
          requireAllPaired options 0
        else
          extendPath [.subgraph attr 0, .nodes 0 0 0 opType]
          return false) (carriersInitial left right opType attr output) := by
  have hending : (Operands.functions (left.carrier opType attr output)
      (right.carrier opType attr output)).ending options =
        exec (matchBodies options options.depthLimit true 0 [output] [output])
          (carriersInitial left right opType attr output) := rfl
  rw [hending, matchBodies, exec_bind, exec_compareOutputs_carrier _ _ _ _ _ houtput, exec_bind,
    exec_bind]
  rcases exec (compareNested options options.depthLimit 0 left right)
    (carriersInitial left right opType attr output) with ⟨error | matched, final⟩
  · rfl
  · cases matched with
    | false => rfl
    | true =>
        simp only [exec_pure, if_true, exec_bind, exec_pair]
        cases final.stack.partner? 0 0 <;> rfl

/-- In the functions that carry them, the graphs have the same answer as at the root. -/
theorem compareNested_carrier (options : CompareOptions) (levels : Nat)
    (hleft : left.body.SelfContained) (hright : right.body.SelfContained) (opType attr : String)
    (houtput : output ≠ "") :
    EndAlike (Answers CompareState.RecordedRaised fun _ final' => final'.stack =
        (carriersInitial left right opType attr output).stack)
      (exec (underHeaders options left right
        (compareBodies options (compareNested options levels) 0)) (.initial left.body right.body))
      (exec (compareNested options (levels + 1) 0 left right)
        (carriersInitial left right opType attr output)) := by
  have hblank : (carriersInitial left right opType attr output).stack.root.lookup "" "" =
      .nowhere := by
    simp [carriersInitial, CompareState.initial, ScopeStack.ofBodies, Scope.lookup,
      Graph.carrier_origin?_blank _ _ _ houtput]
  have hinitial : (CompareState.initial left.body right.body).Raised left.body right.body
      (carriersInitial left right opType attr output).stack.root (.ofBodies left.body right.body)
      ((carriersInitial left right opType attr output).entered 0 left.body right.body) := by
    refine ⟨ScopeStack.proper_ofBodies _ _, ?_, .refl _, ScopeStack.traced_ofBodies _ _, rfl⟩
    intro level scope hscope _
    obtain rfl := List.mem_singleton.mp (List.mem_of_getElem? hscope)
    exact ⟨hleft.definesSought, hright.definesSought⟩
  have hrecorded : (CompareState.initial left.body right.body).RecordedRaised
      (carriersInitial left right opType attr output) := rfl
  have hinner : AnswerRaised left.body right.body
      (carriersInitial left right opType attr output).stack.root (.ofBodies left.body right.body)
      (exec (compareBodies options (compareNested options levels) 0)
        (.initial left.body right.body))
      (exec (compareBodies options (compareNested options levels) 1)
        ((carriersInitial left right opType attr output).entered 0 left.body right.body)) :=
    compareBodies_raised hblank (nestedRaised levels hblank) rfl hinitial
  rw [compareNested]
  apply underHeaders_alike (hrecorded.rejections options _ [])
  intro _
  rw [exec_inScope]
  have hdepth : (carriersInitial left right opType attr output).stack.depth = 1 := rfl
  rw [hdepth]
  generalize exec (compareBodies options (compareNested options levels) 0)
    (.initial left.body right.body) = ends at hinner ⊢
  generalize exec (compareBodies options (compareNested options levels) 1)
    ((carriersInitial left right opType attr output).entered 0 left.body right.body) = ends'
    at hinner ⊢
  cases hinner with
  | stopped => exact .stopped
  | ended hanswers =>
      cases hanswers with
      | differed hrecorded => exact .ended (.differed hrecorded)
      | @matched final final' hfinal =>
          refine .ended (.matched ?_)
          rw [CompareState.stack_popped, hfinal.eq]
          exact ScopeStack.pop_raised_of_extends hfinal.grown _

/-- With another limit, and at as many levels, graphs at the root are given up or compared in the same
way. -/
theorem rootGraphs_cutShort (options : CompareOptions) (levels limit limit' : Nat)
    (left right : Graph) :
    CutShort ⟨(· = .depthLimitExceeded limit), False⟩ (· = false)
      (exec (underHeaders (options.withDepthLimit limit) left right
        (compareBodies (options.withDepthLimit limit)
          (compareNested (options.withDepthLimit limit) levels) 0))
        (.initial left.body right.body))
      (exec (underHeaders (options.withDepthLimit limit') left right
        (compareBodies (options.withDepthLimit limit')
          (compareNested (options.withDepthLimit limit') levels) 0))
        (.initial left.body right.body)) := by
  have hheaders : underHeaders (options.withDepthLimit limit) =
      underHeaders (options.withDepthLimit limit') := underHeaders_congr rfl
  have hscope : (CompareState.initial left.body right.body).stack.scope? 0 =
      some { parent := none, left := left.body, right := right.body } := rfl
  have hnested := compareNested_withDepthLimit options limit limit' (Nat.le_refl levels)
  rw [hheaders]
  apply underHeaders_cutShort
  rw [exec_compareBodies hscope, exec_compareBodies hscope]
  apply matchBodies_cutShort _ hnested _ hscope
  · rfl
  · exact Or.inl rfl

/-- The result for two graphs is read off their comparison with one more level allowed, but with no
more graphs inside each other: it is the same, but that another limit is named if they are given up.
-/
theorem Graph.compare_of_raised (hrequired : options.requireWellFormed = false)
    {outcome : Outcome Bool} {final : CompareState}
    (hexec : exec (underHeaders (options.withDepthLimit (options.depthLimit + 1)) left right
      (compareBodies (options.withDepthLimit (options.depthLimit + 1))
        (compareNested (options.withDepthLimit (options.depthLimit + 1)) options.depthLimit) 0))
      (.initial left.body right.body) = (outcome, final)) :
    (outcome ≠ .error (.depthLimitExceeded (options.depthLimit + 1)) →
        left.compare options right = (outcome.map final.verdict).mapError .unfinished) ∧
      (outcome = .error (.depthLimitExceeded (options.depthLimit + 1)) →
        left.compare options right =
          .error (.unfinished (.depthLimitExceeded options.depthLimit))) := by
  have hcompare : left.compare options right =
      ((exec (compareRootGraphs options left right) (.initial left.body right.body)).1.map
        (exec (compareRootGraphs options left right)
          (.initial left.body right.body)).2.verdict).mapError .unfinished := by
    rw [Graph.compare, CompareOptions.checkOperands_of_not_required hrequired]
    rfl
  have hcut := rootGraphs_cutShort options options.depthLimit options.depthLimit
    (options.depthLimit + 1) left right
  have hcut' := rootGraphs_cutShort options options.depthLimit (options.depthLimit + 1)
    options.depthLimit left right
  rw [hexec] at hcut hcut'
  change CutShort _ _ (exec (compareRootGraphs options left right) _) _ at hcut
  change CutShort _ _ _ (exec (compareRootGraphs options left right) _) at hcut'
  rcases hroot : exec (compareRootGraphs options left right) (.initial left.body right.body) with
    ⟨outcome', final'⟩
  rw [hroot] at hcut hcut' hcompare
  constructor
  · intro hends
    rcases hcut' with hcut' | hsame
    · rcases outcome with error | matched
      · obtain rfl : error = _ := hcut'
        exact absurd rfl hends
      · exact hcut'.1.elim
    · cases hsame
      exact hcompare
  · rintro rfl
    rcases hcut with hends | hsame
    · rcases outcome' with error | matched
      · obtain rfl : error = _ := hends
        exact hcompare
      · exact hends.1.elim
    · cases hsame
      have hlimit : options.depthLimit + 1 = options.depthLimit :=
        @Operands.limit_eq_of_compare options (.graphs left right) _ hcompare
      omega

end Carriers

/-- Two graphs in which every name is defined inside of the graph compare the same in an attribute as
by themselves. The functions that carry them, with one more level of graphs inside each other, are
equivalent if the graphs are; they differ if the graphs do, by the same rule and along the same way,
one level further in, then that to the graphs; they are given up if the graphs are; and they are
stopped for a node that is paired twice if the graphs are. -/
theorem Graph.compare_carrier (options : CompareOptions)
    (hrequired : options.requireWellFormed = false) {left right : Graph}
    (hleft : left.body.SelfContained) (hright : right.body.SelfContained) (opType attr : String)
    {output : String} (houtput : output ≠ "") :
    CarriedResult opType attr options.depthLimit (left.compare options right)
      ((left.carrier opType attr output).compare (options.withDepthLimit (options.depthLimit + 1))
        (right.carrier opType attr output)) := by
  have hlockstep := compareNested_carrier (options.withDepthLimit (options.depthLimit + 1))
    options.depthLimit hleft hright opType attr houtput
  rcases hexec : exec (underHeaders (options.withDepthLimit (options.depthLimit + 1)) left right
    (compareBodies (options.withDepthLimit (options.depthLimit + 1))
      (compareNested (options.withDepthLimit (options.depthLimit + 1)) options.depthLimit) 0))
    (.initial left.body right.body) with ⟨outcome, final⟩
  rcases hexec' : exec (compareNested (options.withDepthLimit (options.depthLimit + 1))
    (options.depthLimit + 1) 0 left right) (carriersInitial left right opType attr output) with
    ⟨outcome', final'⟩
  obtain ⟨hsame, htooDeep⟩ := Graph.compare_of_raised hrequired hexec
  have hcarriers : (left.carrier opType attr output).compare
      (options.withDepthLimit (options.depthLimit + 1)) (right.carrier opType attr output) = _ :=
    @Operands.compare_of_check (options.withDepthLimit (options.depthLimit + 1))
      (.functions (left.carrier opType attr output) (right.carrier opType attr output))
      (CompareOptions.checkOperands_of_not_required hrequired)
  have hending := ending_carriers (options.withDepthLimit (options.depthLimit + 1)) left right opType
    attr houtput
  obtain ⟨_, hends⟩ := Operands.ending_ends (options.withDepthLimit (options.depthLimit + 1))
    (.functions (left.carrier opType attr output) (right.carrier opType attr output))
  have hlimit : (options.withDepthLimit (options.depthLimit + 1)).depthLimit =
      options.depthLimit + 1 := rfl
  rw [hlimit, exec_bind, hexec'] at hending
  rw [hexec, hexec'] at hlockstep
  rw [hcarriers, hending]
  cases hlockstep with
  | @stopped error _ _ =>
      rw [hending] at hends
      cases hends with
      | tooDeep =>
          rw [htooDeep rfl]
          exact .tooDeep
      | pairedTwice =>
          rw [hsame (by simp)]
          exact .pairedTwice
  | ended hanswers =>
      cases hanswers with
      | differed hrecorded =>
          rw [hsame (by simp)]
          exact differed_carried hrecorded _
      | matched hstack =>
          rw [hsame (by simp)]
          obtain ⟨_, difference?⟩ := final'
          cases hstack
          exact .equivalent _

/-- The chained choices, but for a node in the graph of the first one. -/
def Graph.chainedChoicesRelu : Graph where
  nodes := [
    { opType := "If", inputs := ["x"], outputs := ["a"]
      attributes := [⟨"body", .graph
        { nodes := [(Node.ofType "Relu").withInputs ["x"] |>.withOutputs ["r"]]
          outputs := ["r"] }⟩] },
    { opType := "If", inputs := ["x"], outputs := ["y"]
      attributes := [⟨"body", .graph { outputs := ["a"] }⟩] }]
  inputs := ["x"]
  outputs := ["y"]

/-- The choices differ in the graph of the first one, which the graph of the second one captures. In an
attribute they do so one level further in; and at one level, where the choices are given up, they are
given up at two levels in an attribute. -/
theorem Graph.compare_carrier_chainedChoices :
    CarriedResult "Loop" "body" 2
        (.ok (.different (some ⟨.scopeAsymmetry "x" "r",
          [.subgraph "body" 0, .nodes 0 0 0 "If", .subgraph "body" 0, .nodes 0 1 1 "If"]⟩)))
        ((Graph.chainedChoices.carrier "Loop" "body" "z").compare { depthLimit := 3, trace := true }
          (Graph.chainedChoicesRelu.carrier "Loop" "body" "z")) ∧
      CarriedResult "Loop" "body" 1 (.error (.unfinished (.depthLimitExceeded 1)))
        ((Graph.chainedChoices.carrier "Loop" "body" "z").compare { depthLimit := 2, trace := true }
          (Graph.chainedChoicesRelu.carrier "Loop" "body" "z")) := by
  have hleft : Graph.chainedChoices.body.SelfContained :=
    (Graph.standsAlone rfl).selfContained
  have hright : Graph.chainedChoicesRelu.body.SelfContained :=
    (Graph.standsAlone rfl).selfContained
  exact ⟨Graph.compare_carrier { depthLimit := 2, trace := true } rfl hleft hright "Loop" "body"
      (by decide),
    Graph.compare_carrier { depthLimit := 1, trace := true } rfl hleft hright "Loop" "body"
      (by decide)⟩

end OpGraph
