import OpGraph.Proofs.Attributes.Joining

/-!
# Which graphs are compared, and what comes of it

The comparison of attributes hands pairs of graphs to a comparison given by the caller, which may
have a state and may fail. Each call is put on record with its answer. The record shows the pairs of
the attributes that are joined, in order: all of them, or those up to the first that fails or that
answers that the graphs differ, and this answer decides what is reported. What else differs is
settled by the attributes alone, and shows only after all calls for the attributes before it have
succeeded.
-/

namespace OpGraph

section Records

variable {ε σ : Type}

/-- A call on record: the graphs that were handed over, and the answer. -/
structure AnsweredCall (ε : Type) where
  left : Graph
  right : Graph
  answer : Except ε Bool

/-- The record of a planned call with this answer. -/
def GraphCall.answered (call : GraphCall) (answer : Except ε Bool) : AnsweredCall ε :=
  ⟨call.left, call.right, answer⟩

/-- The same comparison of graphs, with each call put on record. -/
def recorded (graphsMatch : Graph → Graph → ExceptT ε (StateM σ) Bool) (left right : Graph) :
    ExceptT ε (StateM (σ × List (AnsweredCall ε))) Bool :=
  ExceptT.mk fun (state, made) =>
    let result := (graphsMatch left right).run state
    (result.1, (result.2, made ++ [⟨left, right, result.1⟩]))

/-- The calls are made one after the other: each answer is given in the state that the calls before
it have left, and the last one leaves the final state. -/
inductive Threads (graphsMatch : Graph → Graph → ExceptT ε (StateM σ) Bool) :
    σ → List (AnsweredCall ε) → σ → Prop where
  | nil (state : σ) : Threads graphsMatch state [] state
  | cons {call : AnsweredCall ε} {calls : List (AnsweredCall ε)} {state inner final : σ} :
      (graphsMatch call.left call.right).run state = (call.answer, inner) →
      Threads graphsMatch inner calls final → Threads graphsMatch state (call :: calls) final

/-- How the calls that are planned may end, and with which outcome: all succeed, and the difference
shows that was left to find; or a call fails, or finds that two graphs differ, and is the last. -/
inductive CallsEnd (planned : List GraphCall) (other? : Option AttributeDifference) :
    List (AnsweredCall ε) → Except ε (Option AttributeDifference) → Prop where
  | succeed : CallsEnd planned other? (planned.map (·.answered (.ok true))) (.ok other?)
  | fail (before after : List GraphCall) (call : GraphCall) (error : ε) :
      planned = before ++ call :: after →
      CallsEnd planned other?
        (before.map (·.answered (.ok true)) ++ [call.answered (.error error)]) (.error error)
  | differ (before after : List GraphCall) (call : GraphCall) :
      planned = before ++ call :: after →
      CallsEnd planned other?
        (before.map (·.answered (.ok true)) ++ [call.answered (.ok false)])
        (.ok (some (.subgraph call.name call.index)))

end Records

section Recording

variable {ε σ : Type} {graphsMatch : Graph → Graph → ExceptT ε (StateM σ) Bool}

theorem run_recorded {left right : Graph} {state inner : σ} {answer : Except ε Bool}
    (hrun : (graphsMatch left right).run state = (answer, inner))
    (earlier : List (AnsweredCall ε)) :
    (recorded graphsMatch left right).run (state, earlier) =
      (answer, (inner, earlier ++ [⟨left, right, answer⟩])) := by
  change (((graphsMatch left right).run state).1, ((graphsMatch left right).run state).2,
    earlier ++ [⟨left, right, ((graphsMatch left right).run state).1⟩]) = _
  rw [hrun]

/-- What is reported of a call that finds a difference, or else of what differs besides. -/
def reportedDifference? (other? : Option AttributeDifference) :
    Option GraphCall → Option AttributeDifference
  | some call => some (.subgraph call.name call.index)
  | none => other?

/-- Calls are recorded after those that are on record already, in the state that they are made in.
-/
theorem exists_run_makeCalls (graphsMatch : Graph → Graph → ExceptT ε (StateM σ) Bool)
    (calls : List GraphCall) : ∀ (state : σ) (earlier : List (AnsweredCall ε)),
    ∃ outcome final made,
      (makeCalls graphsMatch calls).run state = (outcome, final) ∧
      (makeCalls (recorded graphsMatch) calls).run (state, earlier) =
        (outcome, (final, earlier ++ made)) ∧
      Threads graphsMatch state made final ∧
      ∀ other?, CallsEnd calls other? made (outcome.map (reportedDifference? other?)) := by
  induction calls with
  | nil =>
      intro state earlier
      exact ⟨.ok none, state, [], rfl, by rw [List.append_nil]; rfl, .nil state,
        fun _ => .succeed⟩
  | cons call calls ih =>
      intro state earlier
      rcases hrun : (graphsMatch call.left call.right).run state with ⟨answer, inner⟩
      simp only [run_makeCalls_cons, hrun, run_recorded hrun]
      rcases answer with error | _ | _
      · exact ⟨.error error, inner, [call.answered (.error error)], rfl, rfl,
          .cons hrun (.nil inner), fun _ => .fail [] calls call error rfl⟩
      · exact ⟨.ok (some call), inner, [call.answered (.ok false)], rfl, rfl,
          .cons hrun (.nil inner), fun _ => .differ [] calls call rfl⟩
      · obtain ⟨outcome, final, made, hplain, hmade, hthreads, hends⟩ :=
          ih inner (earlier ++ [call.answered (.ok true)])
        refine ⟨outcome, final, call.answered (.ok true) :: made, hplain, ?_,
          .cons hrun hthreads, fun other? => ?_⟩
        · exact hmade.trans (by rw [List.append_assoc]; rfl)
        -- This call only stands before the calls to come, which end as they would without it.
        · generalize hend : outcome.map (reportedDifference? other?) = result
          have hcalls := hends other?
          rw [hend] at hcalls
          cases hcalls with
          | succeed => exact .succeed
          | fail before after last error hplanned =>
              exact .fail (call :: before) after last error (congrArg (call :: ·) hplanned)
          | differ before after last hplanned =>
              exact .differ (call :: before) after last (congrArg (call :: ·) hplanned)

/-- If nothing differs, every call has answered that the graphs match. -/
theorem CallsEnd.answer_eq_ok_true {planned : List GraphCall} {other? : Option AttributeDifference}
    {made : List (AnsweredCall ε)} (hends : CallsEnd planned other? made (.ok none)) :
    ∀ call ∈ made, call.answer = .ok true := by
  cases hends with
  | succeed =>
      intro call hcall
      obtain ⟨planned, _, rfl⟩ := List.mem_map.mp hcall
      rfl

/-- The difference that lies in no pair of graphs is never one of graphs. -/
theorem ComparedUpTo.ne_subgraph {lefts rights : List Attribute}
    {joined : List (Attribute × Attribute)} {other? : Option AttributeDifference}
    (hcompared : ComparedUpTo lefts rights joined other?) (name : String) (index : Nat) :
    other? ≠ some (.subgraph name index) := by
  have hplan := @attributePlan_ne_subgraph name index lefts rights
  rwa [hcompared.attributePlan_eq] at hplan

/-- Attributes are compared by calls for the pairs of graphs of those that are joined, in order, up
to the first that fails or finds a difference; that one is reported, and otherwise what else
differs. -/
theorem compareAttributes_calls (graphsMatch : Graph → Graph → ExceptT ε (StateM σ) Bool)
    (lefts rights : List Attribute) (state : σ) :
    (∃ joined other?, ComparedUpTo lefts rights joined other?) ∧
    ∃ outcome final made,
      (compareAttributes graphsMatch lefts rights).run state = (outcome, final) ∧
      (compareAttributes (recorded graphsMatch) lefts rights).run (state, []) =
        (outcome, (final, made)) ∧
      Threads graphsMatch state made final ∧
      (∀ joined other?, ComparedUpTo lefts rights joined other? →
        CallsEnd (joined.flatMap fun pair => pair.1.graphPairs pair.2) other? made outcome ∧
          ∀ name index, other? ≠ some (.subgraph name index)) ∧
      (outcome = .ok none → ∀ call ∈ made, call.answer = .ok true) := by
  refine ⟨exists_comparedUpTo lefts rights, ?_⟩
  obtain ⟨outcome, final, made, hplain, hrecord, hthreads, hends⟩ :=
    exists_run_makeCalls graphsMatch (attributePlan lefts rights).calls state []
  have hend := hends (attributePlan lefts rights).difference?
  refine ⟨outcome.map (reportedDifference? (attributePlan lefts rights).difference?), final, made,
    ?_, ?_, hthreads, fun joined other? hcompared => ?_, fun hnone => ?_⟩
  · rw [compareAttributes_eq, run_followPlan, hplain]
    rcases outcome with error | _ | call <;> rfl
  · rw [compareAttributes_eq, run_followPlan, hrecord]
    rcases outcome with error | _ | call <;> rfl
  · rw [hcompared.attributePlan_eq] at hend ⊢
    exact ⟨hend, hcompared.ne_subgraph⟩
  · rw [hnone] at hend
    exact hend.answer_eq_ok_true

end Recording

end OpGraph
