import OpGraph.Proofs.Descent.Completeness
import OpGraph.Proofs.Descent.Guarantees
import OpGraph.Proofs.Matching.Isomorphism

/-!
Functions between which there is an isomorphism are found equivalent, under the pairs of this
isomorphism; or the comparison is given up, for the depth of the nesting. It never answers that
they differ.
-/

namespace OpGraph

open CompareM

/-- Two functions that differ in neither the number of their inputs nor their formal parameters nor
the operator sets that they import, whatever the order of these. -/
structure Function.SameSignature (left right : Function) : Prop where
  inputs : left.inputs.length = right.inputs.length
  parameters : ∀ name, name ∈ left.parameters ↔ name ∈ right.parameters
  imports : ∀ opset, opset ∈ left.opsetImports ↔ opset ∈ right.opsetImports

section Signatures

variable {lefts rights imports : List OpsetImport} {domain : String} {version : Int64}

theorem sameNames_eq_true_iff {lefts rights : List String} :
    sameNames lefts rights = true ↔ ∀ name, name ∈ lefts ↔ name ∈ rights := by
  rw [sameNames, Bool.and_eq_true, List.all_eq_true, List.all_eq_true]
  simp only [List.contains_iff_mem]
  exact ⟨fun hboth name => ⟨hboth.1 name, hboth.2 name⟩,
    fun hiff => ⟨fun name => (hiff name).mp, fun name => (hiff name).mpr⟩⟩

/-- Where each domain is imported once, its version is that of the import. -/
theorem importedVersion?_eq_some_iff (hnodup : (imports.map OpsetImport.domain).Nodup) :
    importedVersion? imports domain = some version ↔ ⟨domain, version⟩ ∈ imports := by
  rw [importedVersion?, Option.map_eq_some_iff]
  constructor
  · rintro ⟨opset, hopset, rfl⟩
    have hmem := List.mem_reverse.mp (List.mem_of_find?_eq_some hopset)
    have hdomain : opset.domain = domain := by simpa using List.find?_some hopset
    exact hdomain ▸ hmem
  · intro hmem
    cases hfound : imports.reverse.find? (·.domain == domain) with
    | none =>
        have hnot := List.find?_eq_none.mp hfound _ (List.mem_reverse.mpr hmem)
        simp at hnot
    | some opset =>
        have hopset := List.mem_reverse.mp (List.mem_of_find?_eq_some hfound)
        have hdomain : opset.domain = domain := by simpa using List.find?_some hfound
        rw [List.inj_on_of_nodup_map hnodup hopset hmem hdomain]
        exact ⟨_, rfl, rfl⟩

theorem sameImports_of_mem_iff (hlefts : (lefts.map OpsetImport.domain).Nodup)
    (hrights : (rights.map OpsetImport.domain).Nodup)
    (hiff : ∀ opset, opset ∈ lefts ↔ opset ∈ rights) : sameImports lefts rights = true := by
  rw [sameImports, List.all_eq_true]
  intro opset _
  have hsame : importedVersion? lefts opset.domain = importedVersion? rights opset.domain := by
    refine Option.ext fun version => ?_
    rw [importedVersion?_eq_some_iff hlefts, importedVersion?_eq_some_iff hrights]
    exact hiff _
  simp [hsame]

theorem Function.SameSignature.difference?_eq_none {left right : Function}
    (hsignature : left.SameSignature right) (hleft : left.checkWellFormed = .ok ())
    (hright : right.checkWellFormed = .ok ()) (hnodes : left.nodes.length = right.nodes.length) :
    signatureDifference? left right = none := by
  obtain ⟨himports, _⟩ := Function.checkWellFormed_eq_ok_iff.mp hleft
  obtain ⟨himports', _⟩ := Function.checkWellFormed_eq_ok_iff.mp hright
  exact signatureDifference?_eq_none_iff.mpr ⟨hsignature.inputs,
    sameNames_eq_true_iff.mpr hsignature.parameters,
    sameImports_of_mem_iff himports himports' hsignature.imports, hnodes⟩

end Signatures

section Roots

variable {options : CompareOptions} {rule : GraphRule} {left right : Body}
  {partner? : Nat → Option Nat}

theorem layers_initial {level : Nat} {scope : Scope}
    (hscope : (CompareState.initial left right).stack.scope? level = some scope) :
    (CompareState.initial left right).stack.layers (fun _ => partner?) level =
      [⟨left, right, partner?⟩] := by
  rw [ScopeStack.layers_eq (proper_initial left right) hscope, scope?_initial hscope,
    Option.elim_none]

/-- At the start no nodes are paired. -/
theorem pairsAmong_initial (partner? : Nat → Nat → Option Nat) :
    PairsAmong partner? (CompareState.initial left right).stack := by
  intro level index index' hpair
  rw [partner?_initial] at hpair
  cases hpair

theorem BodiesAgree.partnersAgree
    (hrange : ∀ index index', partner? index = some index' →
      index < left.nodes.length ∧ index' < right.nodes.length)
    (hagree : BodiesAgree rule [] left right partner?) :
    PartnersAgree rule (CompareState.initial left right).stack fun _ => partner? := by
  constructor
  · intro level index index' scope hscope hpartner
    rw [scope?_initial hscope]
    exact hrange index index' hpartner
  · intro level index index' scope node node' hscope hpartner hnode hnode'
    rw [layers_initial hscope]
    rw [scope?_initial hscope] at hnode hnode'
    exact hagree.nodes index index' node node' hpartner hnode hnode'

theorem unpaired_initial (left right : Body) (level index : Nat) :
    ¬ (CompareState.initial left right).stack.Paired level index :=
  fun hpaired => hpaired (partner?_initial left right level index)

/-- The outputs of operands that agree are compared well, or the comparison is given up, and the
pairs are of partners. -/
theorem outputsRun_of_bodiesAgree (hleft : left.Distinct) (hright : right.Distinct)
    (hrule : rule.ConfirmedBy options)
    (hrange : ∀ index index', partner? index = some index' →
      index < left.nodes.length ∧ index' < right.nodes.length)
    (hagree : BodiesAgree rule [] left right partner?) {outcome : Outcome Bool}
    {final : CompareState}
    (hrun : OutputsRun options (NestedRun options options.depthLimit) 0 left.outputs right.outputs
      (.initial left right) outcome final) :
    EndsWith options true outcome ∧ PairsAmong (fun _ => partner?) final.stack := by
  refine hrun.accepts hleft hright (nestedRun_accepts hleft hright hrule options.depthLimit)
    (nestedRun_grows options options.depthLimit) (proper_initial left right)
    (hagree.partnersAgree hrange) (pairsAmong_initial _) ?_
  rw [@layers_initial left right partner? 0 _ rfl]
  exact hagree.outputs

/-- Where the left operand reaches all nodes that have partners, the pairs at the root are these, if
all pairs are of partners. -/
theorem root_partner?_eq (hleft : left.Distinct) (hright : right.Distinct) {final : CompareState}
    (hrun : OutputsRun options (NestedRun options options.depthLimit) 0 left.outputs right.outputs
      (.initial left right) (.ok true) final)
    (hamong : PairsAmong (fun _ => partner?) final.stack)
    (hreached : ∀ index index', partner? index = some index' → left.Reaches index) (index : Nat) :
    final.stack.root.pairing.partner? index = partner? index := by
  have hgrows := nestedRun_grows options options.depthLimit
  obtain ⟨hscope, _⟩ := root_eq_of_extends (hrun.grows hgrows)
  rw [← ScopeStack.partner?_of_scope? hscope]
  exact hrun.partner?_eq hleft hright (nestedRun_fills options hleft hright options.depthLimit)
    hgrows (proper_initial left right) ⟨_, rfl, rfl, rfl⟩ (unpaired_initial left right 0) hamong
    hreached index

theorem partner?_eq_of_bodiesAgree (hleft : left.Distinct) (hright : right.Distinct)
    (hrule : rule.ConfirmedBy options)
    (hrange : ∀ index index', partner? index = some index' →
      index < left.nodes.length ∧ index' < right.nodes.length)
    (hagree : BodiesAgree rule [] left right partner?)
    (hreached : ∀ index index', partner? index = some index' → left.Reaches index)
    {final : CompareState}
    (hrun : OutputsRun options (NestedRun options options.depthLimit) 0 left.outputs right.outputs
      (.initial left right) (.ok true) final) (index : Nat) :
    final.stack.root.pairing.partner? index = partner? index :=
  root_partner?_eq hleft hright hrun
    (outputsRun_of_bodiesAgree hleft hright hrule hrange hagree hrun).2 hreached index

end Roots

section Operands

variable {options : CompareOptions} {rule : GraphRule} {partner? : Nat → Option Nat}
  {verdict : Verdict}

/-- Operands that agree under partners of their nodes are found equivalent, if there is a verdict at
all and all nodes take part where they have to. The pairs are the partners if these are of nodes that
are reached. -/
theorem Operands.eq_equivalent_of_bodiesAgree {operands : Operands} (hwell : operands.WellFormed)
    (hrule : rule.ConfirmedBy options) (hopening : operands.openingRule? = none)
    (hrange : ∀ index index', partner? index = some index' →
      index < operands.left.nodes.length ∧ index' < operands.right.nodes.length)
    (hcovered : operands.pairsAllNodes options = true →
      CoveredBodies operands.left operands.right partner?)
    (hagree : BodiesAgree rule [] operands.left operands.right partner?)
    (hcompare : operands.compare options = .ok verdict) :
    ∃ pairing, verdict = .equivalent pairing ∧
      ((∀ index index', partner? index = some index' → operands.left.Reaches index) →
        ∀ index, pairing.partner? index = partner? index) := by
  have hdistinct := hwell.left_distinct
  have hdistinct' := hwell.right_distinct
  obtain ⟨matched, final, hrun, rfl⟩ := Operands.run_of_compare hcompare
  cases hrun with
  | openingsDiffer hdiffer =>
      rw [hopening] at hdiffer
      cases hdiffer
  | failed _ houtputs hfailed =>
      obtain ⟨hends, _⟩ :=
        outputsRun_of_bodiesAgree hdistinct hdistinct' hrule hrange hagree houtputs
      cases hends
      exact absurd rfl hfailed
  | matched _ houtputs _ =>
      exact ⟨_, rfl, fun hreached =>
        partner?_eq_of_bodiesAgree hdistinct hdistinct' hrule hrange hagree hreached houtputs⟩
  | checked _ houtputs hall hpaired =>
      obtain ⟨hscope, hbodyLeft, hbodyRight⟩ :=
        root_eq_of_extends (houtputs.grows (nestedRun_grows options options.depthLimit))
      obtain ⟨hcover, hreached⟩ := hcovered hall
      have hpairs := partner?_eq_of_bodiesAgree hdistinct hdistinct' hrule hrange hagree hreached
        houtputs
      have hmatched := hpaired.eq_ok_of_cover hscope (by
        rw [funext hpairs, hbodyLeft, hbodyRight]
        exact hcover)
      obtain rfl := Except.ok.inj hmatched
      exact ⟨_, rfl, fun _ => by rw [hpaired.stack_eq]; exact hpairs⟩

/-- Graphs that agree are found equivalent, if there is a verdict at all. -/
theorem Graph.eq_equivalent_of_graphsAgree {left right : Graph}
    (hleft : left.checkWellFormed = .ok ()) (hright : right.checkWellFormed = .ok ())
    (hrule : rule.ConfirmedBy options) (hagree : GraphsAgree rule [] left right)
    (hcompare : left.compare options right = .ok verdict) :
    ∃ pairing, verdict = .equivalent pairing := by
  obtain ⟨_, _, hgraphs, hbodies⟩ := graphsAgree_iff.mp hagree
  obtain ⟨pairing, hequivalent, _⟩ := @Operands.eq_equivalent_of_bodiesAgree _ _ _ _
    (.graphs left right) ⟨hleft, hright⟩ hrule (headerDifference?_of_graphsAgree hrule hagree)
    (hrule.confirmable _ _ _ hgraphs).in_range (fun hall => hrule.covered hall _ _ _ hgraphs)
    hbodies hcompare
  exact ⟨pairing, hequivalent⟩

end Operands

section Functions

variable {options : CompareOptions} {left right : Function} {partner? : Nat → Option Nat}

/-- Isomorphic functions of the same signature are never found to differ, if the left one reaches
all of its nodes: their comparison is given up for the depth of the nesting, or its pairs are those
of the isomorphism. Only if a node of the left one depends on itself, the comparison may be stopped
for pairing a node twice. -/
theorem Function.compare_complete (hleft : left.checkWellFormed = .ok ())
    (hright : right.checkWellFormed = .ok ()) (hall : options.pairAllNodes = false)
    (hsignature : left.SameSignature right) (hcomparable : left.body.Comparable)
    (hcomparable' : right.body.Comparable)
    (hreached : ∀ index < left.nodes.length, left.body.Reaches index)
    (hiso : left.body.Isomorphism right.body partner?) :
    left.compare options right =
        .error (.unfinished (.depthLimitExceeded options.depthLimit)) ∨
      (∃ pairing : Pairing, left.compare options right = .ok (.equivalent pairing) ∧
        ∀ index, pairing.partner? index = partner? index) ∨
      ¬ left.body.AcyclicScopes ∧
        left.compare options right = .error (.unfinished (.fault .pairedTwice)) := by
  have hwell : (Operands.functions left right).WellFormed := ⟨hleft, hright⟩
  have hrange := hiso.bijection.in_range
  have hpartners : ∀ index index', partner? index = some index' → left.body.Reaches index :=
    fun index index' hpartner => hreached index (hrange index index' hpartner).1
  have hagree : BodiesAgree ConfirmableGraphs [] left.body right.body partner? :=
    hiso.bodiesAgree ⟨hwell.left_distinct.names, hcomparable⟩
      ⟨hwell.right_distinct.names, hcomparable'⟩
  rcases @Operands.compare_ends options _ hwell.check with ⟨verdict, hcompare⟩ | hdepth | hfault
  · obtain ⟨pairing, rfl, hpairs⟩ := Operands.eq_equivalent_of_bodiesAgree hwell
      (confirmableGraphs_confirmedBy hall)
      (hsignature.difference?_eq_none hleft hright hiso.bijection.count_eq) hrange
      (fun _ => ⟨hiso.bijection.cover, hpartners⟩) hagree hcompare
    exact Or.inr (Or.inl ⟨pairing, hcompare, hpairs hpartners⟩)
  · exact Or.inl hdepth
  · exact Or.inr (Or.inr hfault)

/-- A graph that adds a value computed outside of it to its input. -/
def Graph.addCaptured (captured input output : String) : Graph where
  nodes := [{ opType := "Add", inputs := [captured, input], outputs := [output] }]
  inputs := [input]
  outputs := [output]

/-- A value, and a loop whose body captures it. -/
def Function.loop : Function where
  inputs := ["x"]
  outputs := ["y"]
  nodes := [
    { opType := "Relu", inputs := ["x"], outputs := ["a"] },
    { opType := "Loop", inputs := ["x"], outputs := ["y"]
      attributes := [⟨"body", .graph (Graph.addCaptured "a" "i" "t")⟩] }]

/-- The same with other names, and with the nodes in another order. -/
def Function.renamedLoop : Function where
  inputs := ["v"]
  outputs := ["w"]
  nodes := [
    { opType := "Loop", inputs := ["v"], outputs := ["w"]
      attributes := [⟨"body", .graph (Graph.addCaptured "b" "k" "s")⟩] },
    { opType := "Relu", inputs := ["v"], outputs := ["b"] }]

/-- Which nodes of the two functions are partners. -/
def loopPairing : Pairing := ⟨[(0, 1), (1, 0)], by decide⟩

theorem isomorphism_loop :
    Function.loop.body.Isomorphism Function.renamedLoop.body loopPairing.partner? := by
  have hbijection : NodeBijection loopPairing.partner? 2 2 :=
    Pairing.bijection_of_entries (by decide) rfl rfl
  have hinput : Corresponds
      [⟨Function.loop.body, Function.renamedLoop.body, loopPairing.partner?⟩] "x" "v" :=
    .of_origins ⟨by decide, by decide⟩ rfl rfl (.input 0)
  have hcaptured : Corresponds
      [⟨Function.loop.body, Function.renamedLoop.body, loopPairing.partner?⟩] "a" "b" :=
    .of_origins ⟨by decide, by decide⟩ rfl rfl (.output 0 rfl)
  have houtput : Corresponds
      [⟨Function.loop.body, Function.renamedLoop.body, loopPairing.partner?⟩] "y" "w" :=
    .of_origins ⟨by decide, by decide⟩ rfl rfl (.output 0 rfl)
  have hinner : GraphsMatch isomorphismRule
      [⟨Function.loop.body, Function.renamedLoop.body, loopPairing.partner?⟩]
      (Graph.addCaptured "a" "i" "t") (Graph.addCaptured "b" "k" "s") := by
    refine .intro (Pairing.mk [(0, 0)] (by decide)).partner? rfl
      (Pairing.bijection_of_entries (by decide) rfl rfl)
      (.cons (.of_origins ⟨by decide, by decide⟩ rfl rfl (.output 0 rfl)) .nil) ?_
    intro index index' node node' _ hnode hnode'
    obtain rfl := List.mem_singleton.mp (List.mem_of_getElem? hnode)
    obtain rfl := List.mem_singleton.mp (List.mem_of_getElem? hnode')
    refine .intro rfl rfl (.cons (Or.inl (.of_outer rfl rfl hcaptured)) (.cons (Or.inl ?_) .nil))
      (fun name => Iff.rfl) (by simp)
    exact .of_origins ⟨by decide, by decide⟩ rfl rfl (.input 0)
  refine ⟨hbijection, .cons houtput .nil, ?_⟩
  intro index index' node node' hpartner hnode hnode'
  obtain ⟨hindex, _⟩ := hbijection.in_range index index' hpartner
  rcases (by omega : index = 0 ∨ index = 1) with rfl | rfl
  · cases hpartner
    cases hnode
    cases hnode'
    exact .intro rfl rfl (.cons (Or.inl hinput) .nil) (fun name => Iff.rfl) (by simp)
  · cases hpartner
    cases hnode
    cases hnode'
    refine .intro rfl rfl (.cons (Or.inl hinput) .nil) (fun name => Iff.rfl) ?_
    intro attr hattr attr' hattr' _
    obtain rfl := List.mem_singleton.mp hattr
    obtain rfl := List.mem_singleton.mp hattr'
    exact .graph hinner

theorem reaches_loop : ∀ index < Function.loop.nodes.length, Function.loop.body.Reaches index := by
  have hlast : Function.loop.body.Needs "y" := .output List.mem_cons_self
  have hdefines : Function.loop.body.Defines "y" (.output 1 0) :=
    Body.defines_of_origin? (by decide) rfl
  have hcaptured : (Graph.addCaptured "a" "i" "t").body.Needs "a" :=
    .input (.output List.mem_cons_self) (Body.defines_of_origin? (by decide) rfl) rfl
      List.mem_cons_self
  have hfirst : Function.loop.body.Needs "a" :=
    .captured hlast hdefines rfl ⟨_, List.mem_cons_self, List.mem_cons_self⟩ hcaptured
      (Body.lacks_of_origin?_eq_none rfl)
  intro index hindex
  rcases (by change index < 2 at hindex; omega : index = 0 ∨ index = 1) with rfl | rfl
  · exact ⟨"a", 0, hfirst, Body.defines_of_origin? (by decide) rfl⟩
  · exact ⟨"y", 0, hlast, hdefines⟩

/-- The isomorphism between the two loops is found; without any nesting the comparison is given up.
-/
theorem Function.compare_complete_loop :
    (∃ pairing : Pairing,
      Function.loop.compare {} Function.renamedLoop = .ok (.equivalent pairing) ∧
        ∀ index, pairing.partner? index = loopPairing.partner? index) ∧
      Function.loop.compare { depthLimit := 0 } Function.renamedLoop =
        .error (.unfinished (.depthLimitExceeded 0)) := by
  have hcomplete := fun (options : CompareOptions) (hall : options.pairAllNodes = false) =>
    @Function.compare_complete options Function.loop Function.renamedLoop _ rfl rfl hall
      ⟨rfl, fun _ => Iff.rfl, fun _ => Iff.rfl⟩ (Body.comparable_of_scopes rfl)
      (Body.comparable_of_scopes rfl) reaches_loop isomorphism_loop
  constructor
  · rcases hcomplete {} rfl with hdepth | hok | ⟨_, hfault⟩
    · cases hdepth
    · exact hok
    · cases hfault
  · rcases hcomplete { depthLimit := 0 } rfl with hdepth | ⟨pairing, hok, _⟩ | ⟨_, hfault⟩
    · exact hdepth
    · cases hok
    · cases hfault

/-- The choice that uses itself, as a function. -/
def Function.selfUsing : Function where
  name := "f"
  outputs := ["a"]
  nodes := Graph.selfUsing.nodes

/-- Each of the two nodes is its own partner. -/
def selfUsingPairing : Pairing := ⟨[(0, 0), (1, 1)], by decide⟩

theorem isomorphism_selfUsing :
    Function.selfUsing.body.Isomorphism Function.selfUsing.body selfUsingPairing.partner? := by
  have hbijection : NodeBijection selfUsingPairing.partner? 2 2 :=
    Pairing.bijection_of_entries (by decide) rfl rfl
  have houtput : Corresponds
      [⟨Function.selfUsing.body, Function.selfUsing.body, selfUsingPairing.partner?⟩] "a" "a" :=
    .of_origins ⟨by decide, by decide⟩ rfl rfl (.output 0 rfl)
  have hcaptured : Corresponds
      [⟨Function.selfUsing.body, Function.selfUsing.body, selfUsingPairing.partner?⟩] "c" "c" :=
    .of_origins ⟨by decide, by decide⟩ rfl rfl (.output 0 rfl)
  have hinner : GraphsMatch isomorphismRule
      [⟨Function.selfUsing.body, Function.selfUsing.body, selfUsingPairing.partner?⟩]
      { outputs := ["c"] } { outputs := ["c"] } :=
    .intro (Pairing.mk [] (by decide)).partner? rfl
      (Pairing.bijection_of_entries (by decide) rfl rfl)
      (.cons (.of_outer rfl rfl hcaptured) .nil) (fun _ _ _ _ hpartner => by cases hpartner)
  refine ⟨hbijection, .cons houtput .nil, ?_⟩
  intro index index' node node' hpartner hnode hnode'
  obtain ⟨hindex, _⟩ := hbijection.in_range index index' hpartner
  rcases (by omega : index = 0 ∨ index = 1) with rfl | rfl
  · cases hpartner
    cases hnode
    cases hnode'
    refine .intro rfl rfl .nil (fun name => Iff.rfl) ?_
    intro attr hattr attr' hattr' _
    obtain rfl := List.mem_singleton.mp hattr
    obtain rfl := List.mem_singleton.mp hattr'
    exact .graph hinner
  · cases hpartner
    cases hnode
    cases hnode'
    exact .intro rfl rfl (.cons (Or.inl houtput) .nil) (fun name => Iff.rfl) (by simp)

theorem reaches_selfUsing :
    ∀ index < Function.selfUsing.nodes.length, Function.selfUsing.body.Reaches index := by
  have hfirst : Function.selfUsing.body.Needs "a" := .output List.mem_cons_self
  have hdefines : Function.selfUsing.body.Defines "a" (.output 0 0) :=
    Body.defines_of_origin? (by decide) rfl
  have hsecond : Function.selfUsing.body.Needs "c" :=
    .captured hfirst hdefines rfl ⟨_, List.mem_cons_self, List.mem_cons_self⟩
      (.output List.mem_cons_self) (Body.lacks_of_origin?_eq_none rfl)
  intro index hindex
  rcases (by change index < 2 at hindex; omega : index = 0 ∨ index = 1) with rfl | rfl
  · exact ⟨"a", 0, hfirst, hdefines⟩
  · exact ⟨"c", 0, hsecond, Body.defines_of_origin? (by decide) rfl⟩

/-- A well-formed function that is isomorphic to itself and reaches all of its nodes, but uses itself:
the comparison comes back to the choice while it compares the attributes of the choice. -/
theorem Function.compare_selfUsing_isomorphic :
    Function.selfUsing.checkWellFormed = .ok () ∧
      Function.selfUsing.SameSignature Function.selfUsing ∧
      Function.selfUsing.body.Comparable ∧
      (∀ index < Function.selfUsing.nodes.length, Function.selfUsing.body.Reaches index) ∧
      Function.selfUsing.body.Isomorphism Function.selfUsing.body selfUsingPairing.partner? ∧
      Function.selfUsing.compare {} Function.selfUsing =
        .error (.unfinished (.fault .pairedTwice)) :=
  ⟨rfl, ⟨rfl, fun _ => Iff.rfl, fun _ => Iff.rfl⟩, Body.comparable_of_scopes rfl, reaches_selfUsing,
    isomorphism_selfUsing, rfl⟩

end Functions

end OpGraph
