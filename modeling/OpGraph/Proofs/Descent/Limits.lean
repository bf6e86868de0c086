import OpGraph.Proofs.Descent.Cutoffs
import OpGraph.Proofs.Descent.Depth
import OpGraph.Proofs.Descent.Halting

/-!
What the options change that may end a comparison early. The limit on the depth decides only whether
a comparison is given up, never what its verdict is. To require that all nodes are paired may make
operands differ that are found equivalent otherwise; it changes neither the pairs nor anything else.
-/

namespace OpGraph

namespace CompareM

variable {cutoff : Cutoff} {options options' : CompareOptions} {levels levels' level : Nat}
  {state : CompareState}

/-- The check of two bodies is cut short if it differs in this only, that all nodes have to be
paired. -/
theorem matchBodies_cutShort (htrace : options.trace = options'.trace)
    (hnested : NestedCutShort cutoff (compareNested options levels) (compareNested options' levels'))
    {all all' : Bool} (hall : all = all' ∨ cutoff.differs ∧ all' = false) {scope : Scope}
    (hscope : state.stack.scope? level = some scope) (lefts rights : List String) :
    CutShort cutoff (· = false) (exec (matchBodies options levels all level lefts rights) state)
      (exec (matchBodies options' levels' all' level lefts rights) state) := by
  rw [matchBodies, matchBodies, ← compareOutputs_congr htrace, ← requireAllPaired_congr htrace]
  apply (compareOutputs_cutShort hnested lefts rights).andThen
  intro inner hexec
  rcases hall with rfl | ⟨hdiffers, rfl⟩
  · exact .refl _
  · cases all with
    | false => exact .refl _
    | true =>
        -- the check changes no state if it succeeds
        have hextends := (outputsRun_of_exec hexec).grows (nestedRun_grows options levels)
        obtain ⟨scope', hscope', _⟩ := hextends.scope? hscope
        simp only [if_true, Bool.false_eq_true, if_false, exec_requireAllPaired, hscope']
        cases unpairedRule? scope' with
        | none => exact .refl _
        | some rule => exact Or.inl ⟨hdiffers, rfl⟩

/-- One more level of graphs inside each other is cut short if those further inside are. -/
theorem compareNested_cutShort (htrace : options.trace = options'.trace)
    (hnested : NestedCutShort cutoff (compareNested options levels) (compareNested options' levels'))
    (hall : options.pairAllNodes = options'.pairAllNodes ∨
      cutoff.differs ∧ options'.pairAllNodes = false) :
    NestedCutShort cutoff (compareNested options (levels + 1))
      (compareNested options' (levels' + 1)) := by
  intro level left right state
  rw [compareNested, compareNested, ← underHeaders_congr htrace]
  apply underHeaders_cutShort
  apply CutShort.inScope
  have hscope := ScopeStack.scope?_push_depth state.stack level left.body right.body
  rw [exec_compareBodies hscope, exec_compareBodies hscope]
  exact matchBodies_cutShort htrace hnested hall hscope _ _

/-- With a lower limit, and at no more levels, graphs are given up or compared in the same way. -/
theorem compareNested_withDepthLimit (options : CompareOptions) (lower upper : Nat)
    (hle : levels ≤ levels') :
    NestedCutShort ⟨(· = .depthLimitExceeded lower), False⟩
      (compareNested (options.withDepthLimit lower) levels)
      (compareNested (options.withDepthLimit upper) levels') := by
  induction levels generalizing levels' with
  | zero =>
      intro level left right state
      have hheaders : underHeaders (options.withDepthLimit lower) =
          underHeaders (options.withDepthLimit upper) := underHeaders_congr rfl
      cases levels' with
      | zero =>
          rw [compareNested, compareNested, hheaders]
          exact underHeaders_cutShort (Or.inl rfl)
      | succ levels' =>
          rw [compareNested, compareNested, hheaders]
          exact underHeaders_cutShort (Or.inl rfl)
  | succ levels ih =>
      obtain ⟨fewer, rfl⟩ : ∃ fewer, levels' = fewer + 1 := ⟨levels' - 1, by omega⟩
      exact compareNested_cutShort rfl (ih (Nat.le_of_succ_le_succ hle)) (Or.inl rfl)

/-- If all nodes have to be paired, graphs are found to differ or compared in the same way. -/
theorem compareNested_withPairAllNodes (options : CompareOptions) (levels : Nat) :
    NestedCutShort ⟨fun _ => False, True⟩
      (compareNested (options.withPairAllNodes true) levels)
      (compareNested (options.withPairAllNodes false) levels) := by
  induction levels with
  | zero => exact fun level left right state => .refl _
  | succ levels ih => exact compareNested_cutShort rfl ih (Or.inr ⟨trivial, rfl⟩)

end CompareM

open CompareM

namespace Operands

variable {cutoff : Cutoff} {options options' : CompareOptions} {operands : Operands}

/-- The check of the operands depends on one option only. -/
theorem check_congr (operands : Operands)
    (hrequire : options.requireWellFormed = options'.requireWellFormed) :
    operands.check options = operands.check options' := by
  cases operands with
  | functions left right =>
      rw [check, check, CompareOptions.checkOperands, CompareOptions.checkOperands, hrequire]
  | graphs left right =>
      rw [check, check, CompareOptions.checkOperands, CompareOptions.checkOperands, hrequire]

theorem ending_cutShort (operands : Operands) (htrace : options.trace = options'.trace)
    (hnested : NestedCutShort cutoff (compareNested options options.depthLimit)
      (compareNested options' options'.depthLimit))
    (hall : options.pairAllNodes = options'.pairAllNodes ∨
      cutoff.differs ∧ options'.pairAllNodes = false) :
    CutShort cutoff (· = false) (operands.ending options) (operands.ending options') := by
  have hpairs : operands.pairsAllNodes options = operands.pairsAllNodes options' ∨
      cutoff.differs ∧ operands.pairsAllNodes options' = false := by
    cases operands with
    | functions left right => exact Or.inl rfl
    | graphs left right => exact hall
  rw [ending, ending, run, run]
  cases operands.openingRule? with
  | some rule =>
      have hreject : reject options = reject options' := by
        cases options
        cases options'
        cases htrace
        rfl
      rw [hreject]
      exact .refl _
  | none => exact matchBodies_cutShort htrace hnested hpairs rfl _ _

/-- The result of a comparison that may be cut short is that of the other one, unless it is. -/
theorem compare_of_cutShort (hcheck : operands.check options = operands.check options')
    (hending : CutShort cutoff (· = false) (operands.ending options) (operands.ending options')) :
    operands.compare options = operands.compare options' ∨
      (∃ error, cutoff.stops error ∧ operands.compare options = .error (.unfinished error)) ∨
        cutoff.differs ∧
          ∃ difference?, operands.compare options = .ok (.different difference?) := by
  rw [compare_eq, compare_eq, hcheck]
  cases operands.check options' with
  | error failure =>
      -- neither side gets to its ending
      exact Or.inl (Eq.trans (b := Except.error failure) rfl rfl)
  | ok _ =>
      rcases hending with hends | hsame
      · right
        rcases hexec : operands.ending options with ⟨error | matched, final⟩
        · rw [hexec] at hends
          exact Or.inl ⟨error, hends, rfl⟩
        · rw [hexec] at hends
          obtain ⟨hdiffers, rfl⟩ := hends
          exact Or.inr ⟨hdiffers, final.difference, rfl⟩
      · rw [hsame]
        exact Or.inl rfl

/-- A comparison that is given up for its depth tells the limit that it was given. -/
theorem limit_eq_of_compare {limit : Nat}
    (hcompare : operands.compare options = .error (.unfinished (.depthLimitExceeded limit))) :
    limit = options.depthLimit := by
  obtain ⟨matched, hends⟩ := operands.ending_ends options
  rw [ending_of_unfinished hcompare] at hends
  cases hends
  rfl

end Operands

/-- With a lower limit on the depth, a comparison is given up or has the same result, to the pairs and
the recorded difference. So a verdict stays when the limit is raised, and what is given up with a
limit is given up with every lower one. -/
theorem compare_raise_depthLimit (options : CompareOptions) (operands : Operands)
    {lower upper : Nat} (hle : lower ≤ upper) :
    (operands.compare (options.withDepthLimit lower) =
        .error (.unfinished (.depthLimitExceeded lower)) ∨
      operands.compare (options.withDepthLimit lower) =
        operands.compare (options.withDepthLimit upper)) ∧
      (∀ verdict, operands.compare (options.withDepthLimit lower) = .ok verdict →
        operands.compare (options.withDepthLimit upper) = .ok verdict) ∧
      ∀ limit, operands.compare (options.withDepthLimit upper) =
          .error (.unfinished (.depthLimitExceeded limit)) →
        limit = upper ∧ operands.compare (options.withDepthLimit lower) =
          .error (.unfinished (.depthLimitExceeded lower)) := by
  have hcheck : operands.check (options.withDepthLimit lower) =
      operands.check (options.withDepthLimit upper) := operands.check_congr rfl
  have hending : CutShort ⟨(· = .depthLimitExceeded lower), False⟩ (· = false)
      (operands.ending (options.withDepthLimit lower))
      (operands.ending (options.withDepthLimit upper)) :=
    operands.ending_cutShort rfl (compareNested_withDepthLimit options lower upper hle) (Or.inl rfl)
  have hresult : operands.compare (options.withDepthLimit lower) =
        .error (.unfinished (.depthLimitExceeded lower)) ∨
      operands.compare (options.withDepthLimit lower) =
        operands.compare (options.withDepthLimit upper) := by
    rcases Operands.compare_of_cutShort hcheck hending with hsame | ⟨_, rfl, hstopped⟩ | ⟨hfalse, _⟩
    · exact Or.inr hsame
    · exact Or.inl hstopped
    · exact hfalse.elim
  refine ⟨hresult, ?_, ?_⟩
  · intro verdict hverdict
    rcases hresult with hstopped | hsame
    · rw [hstopped] at hverdict
      cases hverdict
    · exact hsame.symm.trans hverdict
  · intro limit hstopped
    refine ⟨Operands.limit_eq_of_compare hstopped, ?_⟩
    rcases hresult with hstopped' | hsame
    · exact hstopped'
    · have hstopped' := hsame.trans hstopped
      obtain rfl : limit = lower := Operands.limit_eq_of_compare hstopped'
      exact hstopped'

/-- The chained choices take two levels. The verdict at two levels is that at three; and as they are
given up at one level, so they are at none. -/
theorem compare_raise_depthLimit_chainedChoices :
    Graph.chainedChoices.compare { depthLimit := 3 } Graph.chainedChoices =
        .ok (.equivalent ⟨[(0, 0), (1, 1)], by decide⟩) ∧
      Graph.chainedChoices.compare { depthLimit := 0 } Graph.chainedChoices =
        .error (.unfinished (.depthLimitExceeded 0)) :=
  ⟨(compare_raise_depthLimit {} (.graphs Graph.chainedChoices Graph.chainedChoices)
      (show 2 ≤ 3 by decide)).2.1 _ rfl,
    ((compare_raise_depthLimit {} (.graphs Graph.chainedChoices Graph.chainedChoices)
      (show 0 ≤ 1 by decide)).2.2 1 rfl).2⟩

/-- If all nodes have to be paired, operands that are found equivalent are so without this, under the
same pairs, and operands that differ without it differ with it. A comparison that ends with an error
without it ends with this error, or finds before that the operands differ. -/
theorem compare_requiring_all_pairs (options : CompareOptions) (operands : Operands) :
    (∀ pairing, operands.compare (options.withPairAllNodes true) = .ok (.equivalent pairing) →
      operands.compare (options.withPairAllNodes false) = .ok (.equivalent pairing)) ∧
    (∀ difference?,
      operands.compare (options.withPairAllNodes false) = .ok (.different difference?) →
      ∃ difference?',
        operands.compare (options.withPairAllNodes true) = .ok (.different difference?')) ∧
    ∀ failure, operands.compare (options.withPairAllNodes false) = .error failure →
      operands.compare (options.withPairAllNodes true) = .error failure ∨
        ∃ difference?,
          operands.compare (options.withPairAllNodes true) = .ok (.different difference?) := by
  have hcheck : operands.check (options.withPairAllNodes true) =
      operands.check (options.withPairAllNodes false) := operands.check_congr rfl
  have hending : CutShort ⟨fun _ => False, True⟩ (· = false)
      (operands.ending (options.withPairAllNodes true))
      (operands.ending (options.withPairAllNodes false)) :=
    operands.ending_cutShort rfl (compareNested_withPairAllNodes options options.depthLimit)
      (Or.inr ⟨trivial, rfl⟩)
  have hresult : operands.compare (options.withPairAllNodes true) =
        operands.compare (options.withPairAllNodes false) ∨
      ∃ difference?,
        operands.compare (options.withPairAllNodes true) = .ok (.different difference?) := by
    rcases Operands.compare_of_cutShort hcheck hending with hsame | ⟨_, hfalse, _⟩ | ⟨_, hdiffers⟩
    · exact Or.inl hsame
    · exact hfalse.elim
    · exact Or.inr hdiffers
  refine ⟨?_, ?_, ?_⟩
  · intro pairing hstrict
    rcases hresult with hsame | ⟨_, hdiffers⟩
    · exact hsame.symm.trans hstrict
    · rw [hdiffers] at hstrict
      cases hstrict
  · intro difference? hdiffers
    rcases hresult with hsame | hdiffers'
    · exact ⟨difference?, hsame.trans hdiffers⟩
    · exact hdiffers'
  · intro failure hfailure
    rcases hresult with hsame | hdiffers
    · exact Or.inl (hsame.trans hfailure)
    · exact Or.inr hdiffers

/-- The chained choices are equivalent to themselves when all nodes have to be paired, so they are when
this is not required. They differ from a graph of one node when it is not, so they do when it is. At
one level they are given up when it is not, so they are given up, or differ, when it is. -/
theorem compare_requiring_all_pairs_chainedChoices :
    Graph.chainedChoices.compare {} Graph.chainedChoices =
        .ok (.equivalent ⟨[(0, 0), (1, 1)], by decide⟩) ∧
      (∃ difference?, Graph.chainedChoices.compare { pairAllNodes := true } Graph.reluOnce =
        .ok (.different difference?)) ∧
      (Graph.chainedChoices.compare { depthLimit := 1, pairAllNodes := true } Graph.chainedChoices =
          .error (.unfinished (.depthLimitExceeded 1)) ∨
        ∃ difference?,
          Graph.chainedChoices.compare { depthLimit := 1, pairAllNodes := true }
            Graph.chainedChoices = .ok (.different difference?)) :=
  ⟨(compare_requiring_all_pairs {} (.graphs Graph.chainedChoices Graph.chainedChoices)).1 _ rfl,
    (compare_requiring_all_pairs {} (.graphs Graph.chainedChoices Graph.reluOnce)).2.1 _ rfl,
    (compare_requiring_all_pairs { depthLimit := 1 }
      (.graphs Graph.chainedChoices Graph.chainedChoices)).2.2 _ rfl⟩

end OpGraph
