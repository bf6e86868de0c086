import OpGraph.Proofs.Descent.Presentation

/-!
The outcome of a comparison is independent of how the operands are presented. Names of values, places
of nodes, labels, and names of graphs and functions may be changed in either operand, at any depth,
without a change of the verdict; only the pairs are told by the new places of the nodes.
-/

namespace OpGraph

/-- Two results are the same, but for the places of the nodes in the operands: the same failure,
equivalence under the same pairs, or a difference. It is recorded in both or in none. -/
inductive SameOutcome (left? right? : Nat → Option Nat) :
    Except NoVerdict Verdict → Except NoVerdict Verdict → Prop where
  | unfinished {failure : NoVerdict} : SameOutcome left? right? (.error failure) (.error failure)
  | equivalent {pairing pairing' : Pairing} : pairing.MovedBy pairing' left? right? →
      SameOutcome left? right? (.ok (.equivalent pairing)) (.ok (.equivalent pairing'))
  | different {difference difference' : Option Difference} :
      difference.isSome = difference'.isSome →
      SameOutcome left? right? (.ok (.different difference)) (.ok (.different difference'))

/-- How two operands are presented. -/
def Presentations.ofOperands (left right : Presentation) : Presentations where
  depth := 1
  scope _ := ⟨left, right⟩

namespace CompareM

open ScopeStack

section Roots

variable {options : CompareOptions} {left right : Presentation}

theorem initial_presented {leftBody leftBody' rightBody rightBody' : Body}
    (hleft : left.Presents [] leftBody leftBody')
    (hright : right.Presents [] rightBody rightBody') :
    (CompareState.initial leftBody rightBody).PresentedAs (.ofOperands left right)
      (.initial leftBody' rightBody') where
  stack :=
    { depth_eq := rfl
      depth_eq' := rfl
      scopes := by
        intro level scope scope' hscope hscope'
        cases level with
        | zero =>
            cases hscope
            cases hscope'
            exact ⟨rfl, nofun, hleft, hright, .nil⟩
        | succ level => cases hscope }
  recorded := rfl

theorem rootGraphs_presented {leftGraph leftGraph' rightGraph rightGraph' : Graph}
    (hleft : left.Presents [] leftGraph.body leftGraph'.body)
    (hright : right.Presents [] rightGraph.body rightGraph'.body)
    (hheader : headerDifference? leftGraph rightGraph = headerDifference? leftGraph' rightGraph') :
    AnswerPresented (.ofOperands left right)
      (exec (compareRootGraphs options leftGraph rightGraph)
        (.initial leftGraph.body rightGraph.body))
      (exec (compareRootGraphs options leftGraph' rightGraph')
        (.initial leftGraph'.body rightGraph'.body)) := by
  have hinitial := initial_presented hleft hright
  rw [compareRootGraphs, compareRootGraphs]
  refine underHeaders_alike ?_ fun _ =>
    compareBodies_presented (nestedPresented options options.depthLimit) hinitial
  exact rejections_alike hheader hinitial.recorded [] []

theorem rootFunctions_presented {leftFunction leftFunction' rightFunction rightFunction' : Function}
    (hleft : left.Presents [] leftFunction.body leftFunction'.body)
    (hright : right.Presents [] rightFunction.body rightFunction'.body)
    (hsignature : signatureDifference? leftFunction rightFunction =
      signatureDifference? leftFunction' rightFunction') :
    AnswerPresented (.ofOperands left right)
      (exec (compareRootFunctions options leftFunction rightFunction)
        (.initial leftFunction.body rightFunction.body))
      (exec (compareRootFunctions options leftFunction' rightFunction')
        (.initial leftFunction'.body rightFunction'.body)) := by
  have hinitial := initial_presented hleft hright
  have houtputs : leftFunction'.outputs = leftFunction.outputs.map left.names :=
    hleft.renamed.outputs
  have houtputs' : rightFunction'.outputs = rightFunction.outputs.map right.names :=
    hright.renamed.outputs
  rw [compareRootFunctions, compareRootFunctions, ← hsignature]
  cases signatureDifference? leftFunction rightFunction with
  | some rule => exact answerPresented_rejected hinitial.recorded rule rule [] []
  | none =>
      simp only [houtputs, houtputs']
      exact (compareOutputs_presented (nestedPresented options options.depthLimit)
        (hleft.foundAlike fun name => Or.inl) (hright.foundAlike fun name => Or.inl)
        hinitial).andThen fun inner inner' hinner => requireAllPaired_presented hinner

/-- Comparisons that have the same answer in two presentations have the same outcome. -/
theorem sameOutcome_of_answerPresented {leftBody leftBody' rightBody rightBody' : Body}
    {compare compare' : CompareM Bool}
    (hanswer : AnswerPresented (.ofOperands left right)
      (exec compare (.initial leftBody rightBody))
      (exec compare' (.initial leftBody' rightBody'))) :
    SameOutcome left.place? right.place?
      ((CompareM.verdict leftBody rightBody compare).mapError .unfinished)
      ((CompareM.verdict leftBody' rightBody' compare').mapError .unfinished) := by
  rw [verdict_eq, verdict_eq]
  generalize exec compare (.initial leftBody rightBody) = ends at hanswer
  generalize exec compare' (.initial leftBody' rightBody') = ends' at hanswer
  cases hanswer with
  | stopped => exact .unfinished
  | @ended _ _ final final' hanswers =>
      cases hanswers with
      | differed hdiffer => exact .different hdiffer
      | matched hfinal =>
          have hroots : final.stack.root.PresentedAs (.ofOperands left right) 0
              final'.stack.root := hfinal.stack.scopes rfl rfl
          exact .equivalent hroots.pairing

end Roots

section Signatures

variable {left left' right right' : Function} {leftPlace? rightPlace? : Nat → Option Nat}

theorem signatureDifference?_rearranged (hleft : left.Rearranged left' leftPlace?)
    (hright : right.Rearranged right' rightPlace?) :
    signatureDifference? left right = signatureDifference? left' right' := by
  obtain ⟨⟨names, hbody⟩, hparameters, himports⟩ := hleft
  obtain ⟨⟨names', hbody'⟩, hparameters', himports'⟩ := hright
  have hinputs : left.inputs.length = left'.inputs.length := hbody.inputs_length
  have hinputs' : right.inputs.length = right'.inputs.length := hbody'.inputs_length
  have hnodes : left.nodes.length = left'.nodes.length := hbody.bijection.count_eq
  have hnodes' : right.nodes.length = right'.nodes.length := hbody'.bijection.count_eq
  rw [signatureDifference?, signatureDifference?, hinputs, hinputs', hparameters, hparameters',
    himports, himports', hnodes, hnodes']

end Signatures

end CompareM

open CompareM

/-- However well-formed operands are presented, whatever the options, the outcome of their comparison
is the same: the same error with the same limit, the same verdict, and the same pairs of nodes at
their new places. -/
theorem compare_presentation_independent (options : CompareOptions)
    (leftPlace? rightPlace? : Nat → Option Nat) :
    (∀ left left' right right' : Function, left.checkWellFormed = .ok () →
      right.checkWellFormed = .ok () → left.Rearranged left' leftPlace? →
      right.Rearranged right' rightPlace? →
      SameOutcome leftPlace? rightPlace? (left.compare options right)
        (left'.compare options right')) ∧
    ∀ left left' right right' : Graph, left.checkWellFormed = .ok () →
      right.checkWellFormed = .ok () → left.Rearranged left' leftPlace? →
      right.Rearranged right' rightPlace? →
      SameOutcome leftPlace? rightPlace? (left.compare options right)
        (left'.compare options right') := by
  constructor
  · intro left left' right right' hcheck hcheck' hleft hright
    obtain ⟨names, hrenamed⟩ := hleft.body
    obtain ⟨names', hrenamed'⟩ := hright.body
    rw [Function.compare, Function.compare, CompareOptions.checkOperands_eq_ok hcheck hcheck',
      CompareOptions.checkOperands_eq_ok (hleft.checkWellFormed hcheck)
        (hright.checkWellFormed hcheck')]
    exact sameOutcome_of_answerPresented (rootFunctions_presented
      (Presentation.presents_root (Function.standsAlone hcheck) hrenamed)
      (Presentation.presents_root (Function.standsAlone hcheck') hrenamed')
      (signatureDifference?_rearranged hleft hright))
  · intro left left' right right' hcheck hcheck' hleft hright
    obtain ⟨names, hrenamed⟩ := hleft.body
    obtain ⟨names', hrenamed'⟩ := hright.body
    rw [Graph.compare, Graph.compare, CompareOptions.checkOperands_eq_ok hcheck hcheck',
      CompareOptions.checkOperands_eq_ok (hleft.checkWellFormed hcheck)
        (hright.checkWellFormed hcheck')]
    exact sameOutcome_of_answerPresented (rootGraphs_presented
      (Presentation.presents_root (Graph.standsAlone hcheck) hrenamed)
      (Presentation.presents_root (Graph.standsAlone hcheck') hrenamed')
      (headerDifference?_alike hrenamed.inputs_length hrenamed'.inputs_length
        hleft.initializers hright.initializers hleft.sparseInitializers hright.sparseInitializers))

section Choices

/-- Two nodes that change places. -/
def swappedPlace? : Nat → Option Nat
  | 0 => some 1
  | 1 => some 0
  | _ => none

theorem nodeBijection_swappedPlace? : NodeBijection swappedPlace? 2 2 where
  in_range
    | 0, _, hplace => by cases hplace; decide
    | 1, _, hplace => by cases hplace; decide
    | _ + 2, _, hplace => by cases hplace
  total
    | 0, _ => ⟨1, rfl⟩
    | 1, _ => ⟨0, rfl⟩
    | _ + 2, hlt => by omega
  injective index index' place hplace hplace' := by
    have hback : ∀ index, swappedPlace? index = some place → swappedPlace? place = some index
      | 0, hplace => by cases hplace; rfl
      | 1, hplace => by cases hplace; rfl
      | _ + 2, hplace => by cases hplace
    exact Option.some.inj ((hback index hplace).symm.trans (hback index' hplace'))
  onto
    | 0, _ => ⟨1, rfl⟩
    | 1, _ => ⟨0, rfl⟩
    | _ + 2, hlt => by omega

/-- A branch that does one operation, with another label and another name for its result. -/
theorem graphRearranged_branch {outer : String → String} (opType label result result' : String)
    (inputs : List String) (homitted : ∀ name, outer name = "" ↔ name = "")
    (hresult : result ≠ "") (hresult' : result' ≠ "") (hfree : ∀ name, outer name ≠ result')
    (hinputs : result ∉ inputs) :
    GraphRearranged outer
      { nodes := [{ opType, inputs, outputs := [result] }]
        outputs := [result] }
      { name := label
        nodes := [{ opType, inputs := inputs.map outer, outputs := [result'] }]
        outputs := [result'] } := by
  let names : String → String := fun name => if name = result then result' else outer name
  have hnew : names result = result' := if_pos rfl
  have hold : ∀ name, name ≠ result → names name = outer name := fun name hne => if_neg hne
  refine graphRearranged_iff.mpr ⟨names, ownPlace? 1, ⟨nodeBijection_ownPlace? 1, fun name => ?_,
    ?_, rfl, by simp [Graph.body, hnew], ?_⟩, ⟨fun name hname => hold name ?_, fun name _ => ?_⟩,
    rfl, rfl⟩
  · by_cases hname : name = result
    · rw [hname, hnew]
      exact iff_of_false hresult' hresult
    · rw [hold name hname]
      exact homitted name
  · intro name hname name' hname' _
    simp only [Graph.body, Body.definedNames] at hname hname'
    simp_all
  · intro index index' node node' hplace hnode hnode'
    obtain ⟨hindex, rfl⟩ := ownPlace?_eq_some_iff.mp hplace
    obtain rfl : index = 0 := by omega
    cases hnode
    cases hnode'
    refine ⟨rfl, rfl, List.map_congr_left fun name hname => ?_, by simp [hnew], .nil⟩
    exact (hold name fun heq => hinputs (heq ▸ hname)).symm
  · rintro rfl
    exact hname (by simp [Graph.body, Body.definedNames, hresult])
  · simpa [Graph.body, Body.definedNames] using fun heq => absurd heq (hfree name)

/-- A graph that passes on what it captures, with another label. -/
theorem graphRearranged_passing {outer : String → String} (label : String) (outputs : List String)
    (homitted : ∀ name, outer name = "" ↔ name = "") :
    GraphRearranged outer { outputs } { name := label, outputs := outputs.map outer } := by
  refine graphRearranged_iff.mpr ⟨outer, ownPlace? 0, ⟨nodeBijection_ownPlace? 0, homitted, nofun,
    rfl, rfl, ?_⟩, ⟨fun name _ => rfl, fun name _ => nofun⟩, rfl, rfl⟩
  intro index _ _ _ hplace
  exact absurd (ownPlace?_eq_some_iff.mp hplace).1 (Nat.not_lt_zero index)

/-- Other names for the values of the choices. -/
def choiceNames : String → String
  | "c" => "p"
  | "x" => "v"
  | "a" => "r"
  | "y" => "out"
  | name => name

theorem choiceNames_eq_empty_iff (name : String) : choiceNames name = "" ↔ name = "" := by
  unfold choiceNames
  split <;> simp

theorem choiceNames_ne (name : String) : choiceNames name ≠ "a" := by
  unfold choiceNames
  split <;> simp_all

/-- The choice with its nodes in another order, under other names and with labels. Inside of the
branches, `a` has become the name of the result. -/
def Function.presentedChoice : Function where
  name := "pick"
  domain := "example"
  inputs := ["p", "v"]
  outputs := ["out"]
  nodes := [
    { name := "which", opType := "If", inputs := ["p"], outputs := ["out"]
      attributes := [
        ⟨"then_branch", .graph
          { name := "first"
            nodes := [{ opType := "Add", inputs := ["r", "v"], outputs := ["a"] }]
            outputs := ["a"] }⟩,
        ⟨"else_branch", .graph
          { name := "second"
            nodes := [{ opType := "Neg", inputs := ["r"], outputs := ["a"] }]
            outputs := ["a"] }⟩] },
    { opType := "Relu", inputs := ["v"], outputs := ["r"] }]

theorem Function.rearranged_choice :
    Function.choice.Rearranged Function.presentedChoice swappedPlace? := by
  refine ⟨⟨choiceNames, nodeBijection_swappedPlace?, choiceNames_eq_empty_iff, ?_, rfl, rfl, ?_⟩, rfl,
    rfl⟩
  · decide
  · intro index index' node node' hplace hnode hnode'
    match index with
    | 0 =>
        cases hplace
        cases hnode
        cases hnode'
        exact ⟨rfl, rfl, rfl, rfl, .nil⟩
    | 1 =>
        cases hplace
        cases hnode
        cases hnode'
        have hthen := graphRearranged_branch "Add" "first" "t" "a" ["a", "x"]
          choiceNames_eq_empty_iff (by decide) (by decide) choiceNames_ne (by decide)
        have helse := graphRearranged_branch "Neg" "second" "e" "a" ["a"]
          choiceNames_eq_empty_iff (by decide) (by decide) choiceNames_ne (by decide)
        exact ⟨rfl, rfl, rfl, rfl, .cons ⟨rfl, .graph hthen⟩ (.cons ⟨rfl, .graph helse⟩ .nil)⟩
    | _ + 2 => cases hplace

/-- The chained choices with their nodes in another order, under other names and with labels. -/
def Graph.presentedChoices : Graph where
  name := "choices"
  nodes := [
    { opType := "If", inputs := ["v"], outputs := ["out"]
      attributes := [⟨"body", .graph { name := "second", outputs := ["r"] }⟩] },
    { name := "which", opType := "If", inputs := ["v"], outputs := ["r"]
      attributes := [⟨"body", .graph { name := "first", outputs := ["v"] }⟩] }]
  inputs := ["v"]
  outputs := ["out"]

theorem Graph.rearranged_chainedChoices :
    Graph.chainedChoices.Rearranged Graph.presentedChoices swappedPlace? := by
  refine ⟨⟨choiceNames, nodeBijection_swappedPlace?, choiceNames_eq_empty_iff, ?_, rfl, rfl, ?_⟩, rfl,
    rfl⟩
  · decide
  · intro index index' node node' hplace hnode hnode'
    match index with
    | 0 =>
        cases hplace
        cases hnode
        cases hnode'
        have hgraph := graphRearranged_passing "first" ["x"] choiceNames_eq_empty_iff
        exact ⟨rfl, rfl, rfl, rfl, .cons ⟨rfl, .graph hgraph⟩ .nil⟩
    | 1 =>
        cases hplace
        cases hnode
        cases hnode'
        have hgraph := graphRearranged_passing "second" ["a"] choiceNames_eq_empty_iff
        exact ⟨rfl, rfl, rfl, rfl, .cons ⟨rfl, .graph hgraph⟩ .nil⟩
    | _ + 2 => cases hplace

/-- The choice is found equivalent in another presentation, too, with its nodes where they have gone
to; and the chained choices are given up on at the same limit. -/
theorem compare_presentation_independent_choices :
    (∃ pairing : Pairing, Function.presentedChoice.compare {} Function.renamedChoice =
        .ok (.equivalent pairing) ∧
      pairing.partner? 0 = some 0 ∧ pairing.partner? 1 = some 1) ∧
    Graph.presentedChoices.compare { depthLimit := 1 } Graph.chainedChoices =
      .error (.unfinished (.depthLimitExceeded 1)) := by
  have hchoice : Function.choice.compare {} Function.renamedChoice =
      .ok (.equivalent ⟨[(0, 1), (1, 0)], by decide⟩) := rfl
  have hchained : Graph.chainedChoices.compare { depthLimit := 1 } Graph.chainedChoices =
      .error (.unfinished (.depthLimitExceeded 1)) := rfl
  have houtcome := (compare_presentation_independent {} swappedPlace? (ownPlace? 2)).1
    Function.choice Function.presentedChoice Function.renamedChoice Function.renamedChoice rfl rfl
    Function.rearranged_choice Function.renamedChoice.rearranged_self
  have houtcome' :=
    (compare_presentation_independent { depthLimit := 1 } swappedPlace? (ownPlace? 2)).2
      Graph.chainedChoices Graph.presentedChoices Graph.chainedChoices Graph.chainedChoices rfl rfl
      Graph.rearranged_chainedChoices Graph.chainedChoices.rearranged_self
  rw [hchoice] at houtcome
  rw [hchained] at houtcome'
  constructor
  · generalize Function.presentedChoice.compare {} Function.renamedChoice = result at houtcome
    cases houtcome with
    | equivalent hmoved =>
        exact ⟨_, rfl, hmoved.partner?_eq_some_iff.mpr ⟨1, 0, rfl, rfl, rfl⟩,
          hmoved.partner?_eq_some_iff.mpr ⟨0, 1, rfl, rfl, rfl⟩⟩
  · generalize Graph.presentedChoices.compare { depthLimit := 1 } Graph.chainedChoices = result
      at houtcome'
    cases houtcome' with
    | unfinished => rfl

end Choices

end OpGraph
