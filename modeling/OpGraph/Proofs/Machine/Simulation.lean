import OpGraph.Proofs.Machine.Ranges

/-!
The machine does what the comparison does. Each part of a comparison is a way that the machine takes:
it ends in the same state, about to go on with what came before the part, or about to leave with the
same outcome. Only the trail has grown, and what the comparison keeps as the way to a task is what the
machine reads off the trail.
-/

namespace OpGraph

open CompareM

/-- The way along the trail from a place is this one, if a trail is kept. -/
def Retraces (options : CompareOptions) (trail : List TrailEntry) (entry : Option Nat)
    (via : List UseStep) : Prop :=
  options.trace = true → trailPath? trail trail.length entry = some via

/-- The task stands for a pending comparison. -/
inductive Task.StandsFor (options : CompareOptions) (trail : List TrailEntry) :
    Task → Pending → Prop where
  | values {level : Nat} {left right : String} {entry : Option Nat} {via : List UseStep} :
      Retraces options trail entry via →
      StandsFor options trail (.values level left right entry) (.values level left right via)
  | nodes {level left right : Nat} {entry : Option Nat} {via : List UseStep} :
      Retraces options trail entry via →
      StandsFor options trail (.nodes level left right entry) (.nodes level left right via)

section Trails

variable {options : CompareOptions} {trail : List TrailEntry} {entry : Option Nat}
  {via : List UseStep}

/-- A way along the trail stays the same when the trail grows. -/
theorem trailPath?_append {moves moves' : Nat} (hpath : trailPath? trail moves entry = some via)
    (hmoves : moves ≤ moves') (more : List TrailEntry) :
    trailPath? (trail ++ more) moves' entry = some via := by
  induction moves generalizing moves' entry via with
  | zero =>
      cases entry with
      | none => cases moves' <;> exact hpath
      | some place => cases hpath
  | succ moves ih =>
      cases entry with
      | none => cases moves' <;> exact hpath
      | some place =>
          obtain ⟨fewer, rfl⟩ : ∃ fewer, moves' = fewer + 1 := ⟨moves' - 1, by omega⟩
          rw [trailPath?] at hpath ⊢
          cases hget : trail[place]? with
          | none => simp [hget] at hpath
          | some found =>
              have hlt := (List.getElem?_eq_some_iff.mp hget).1
              rw [List.getElem?_append_left hlt, hget]
              simp only [hget, Option.map_eq_some_iff] at hpath ⊢
              obtain ⟨rest, hrest, hvia⟩ := hpath
              exact ⟨rest, ih hrest (Nat.le_of_succ_le_succ hmoves), hvia⟩

theorem Retraces.append (hreads : Retraces options trail entry via) (more : List TrailEntry) :
    Retraces options (trail ++ more) entry via :=
  fun htrace => trailPath?_append (hreads htrace) (by simp) more

theorem Retraces.none : Retraces options trail none [] := by
  intro _
  cases trail.length <;> rfl

theorem Task.StandsFor.append {task : Task} {next : Pending}
    (hstands : task.StandsFor options trail next) (more : List TrailEntry) :
    task.StandsFor options (trail ++ more) next := by
  cases hstands with
  | values hreads => exact .values (hreads.append more)
  | nodes hreads => exact .nodes (hreads.append more)

theorem valueTasks_standFor (hreads : Retraces options trail entry via) (level : Nat)
    (lefts rights : List String) :
    List.Forall₂ (Task.StandsFor options trail) (valueTasks level lefts rights entry)
      (pendingValues level lefts rights via) := by
  induction lefts generalizing rights with
  | nil => exact .nil
  | cons left lefts ih =>
      cases rights with
      | nil => exact .nil
      | cons right rights => exact .cons (.values hreads) (ih rights)

theorem lookupTasks_standFor (hreads : Retraces options trail entry via) (level : Nat)
    (lookup : Lookup) :
    List.Forall₂ (Task.StandsFor options trail) (lookupTasks level entry lookup)
      (lookupPending level via lookup) := by
  rcases lookup with ⟨_ | _, _ | _⟩ | _ | _ | _
  case here.output.output => exact .cons (.nodes hreads) .nil
  all_goals exact .nil

end Trails

namespace Machine

variable {options : CompareOptions} {machine : Machine}

/-- The machine in another state, with a longer trail, about to do something else. -/
def moved (machine : Machine) (state : CompareState) (more : List TrailEntry) (control : Control) :
    Machine :=
  { machine with state, trail := machine.trail ++ more, control }

/-- The machine comes to a state in which it is about to do something. -/
def ComesTo (options : CompareOptions) (machine : Machine) (state : CompareState)
    (control : Control) : Prop :=
  ∃ more, Comes options machine (machine.moved state more control)

theorem moved_moved (state state' : CompareState) (more more' : List TrailEntry)
    (control control' : Control) :
    (machine.moved state more control).moved state' more' control' =
      machine.moved state' (more ++ more') control' := by
  simp only [moved, List.append_assoc]

theorem moved_nil (control : Control) :
    machine.moved machine.state [] control = machine.goes control := by
  rw [moved, List.append_nil]
  rfl

theorem comesTo_here {control : Control} (hcontrol : machine.control = control) :
    machine.ComesTo options machine.state control := by
  refine ⟨[], ?_⟩
  rw [moved_nil, goes, ← hcontrol]

theorem comesTo_of_next {state : CompareState} {control : Control}
    (hnext : machine.next? options = some { machine with state, control }) :
    machine.ComesTo options state control := by
  refine ⟨[], .single ?_⟩
  rw [hnext, moved, List.append_nil]

theorem comesTo_of_moved {state state' : CompareState} {more : List TrailEntry}
    {control control' : Control} (hfirst : Comes options machine (machine.moved state more control))
    (hthen : (machine.moved state more control).ComesTo options state' control') :
    machine.ComesTo options state' control' := by
  obtain ⟨more', hsecond⟩ := hthen
  rw [moved_moved] at hsecond
  exact ⟨more ++ more', hfirst.trans hsecond⟩

theorem comesTo_of_goes {state : CompareState} {control control' : Control}
    (hfirst : Comes options machine (machine.goes control))
    (hthen : (machine.goes control).ComesTo options state control') :
    machine.ComesTo options state control' := by
  rw [← moved_nil] at hfirst hthen
  exact comesTo_of_moved hfirst hthen

/-- What each step keeps holds on all the way. -/
theorem InOrder.comes (hmachine : machine.InOrder options) {final : Machine}
    (hcomes : Comes options machine final) : final.InOrder options := by
  induction hcomes with
  | refl => exact hmachine
  | tail _ hstep ih =>
      rcases ih.next with ⟨hsuspended, outcome, hcontrol⟩ | ⟨next, hnext, hordered⟩
      · simp only [next?, hcontrol, leave?, hsuspended] at hstep
        cases hstep
      · cases hnext.symm.trans hstep
        exact hordered

section Giving

variable {entry : Option Nat} {via : List UseStep}

/-- Two nodes are visited: the way to them is the use of them and the way before. -/
theorem exists_visit (hreads : Retraces options machine.trail entry via) (use : UseStep) :
    ∃ more, (∀ control, (machine.visit options ⟨use, entry⟩).goes control =
        machine.moved machine.state more control) ∧
      Retraces options (machine.trail ++ more) (machine.nextEntry options) (use :: via) := by
  rw [visit, nextEntry]
  cases htrace : options.trace with
  | false =>
      refine ⟨[], fun control => (moved_nil control).symm, fun htrue => ?_⟩
      rw [htrace] at htrue
      cases htrue
  | true =>
      refine ⟨[⟨use, entry⟩], fun _ => rfl, fun _ => ?_⟩
      have hplace : (machine.trail ++ [⟨use, entry⟩])[machine.trail.length]? = some ⟨use, entry⟩ := by
        simp
      simp only [if_true, List.length_append, List.length_singleton, trailPath?, hplace]
      rw [trailPath?_append (hreads htrace) (Nat.le_refl _)]
      rfl

/-- With a difference, the machine ends in the state that the comparison ends in. -/
theorem comesTo_of_fail {rule : FailedRule} (hcontrol : machine.control = .fail rule entry)
    (hreads : Retraces options machine.trail entry via) :
    machine.ComesTo options (machine.state.rejected options rule via) (.leave (.ok false)) := by
  apply comesTo_of_next
  rw [next?, hcontrol]
  simp only
  by_cases hrecords : options.trace && machine.state.difference.isNone
  · apply fail?_eq_some
    rw [if_pos hrecords]
    exact hreads (Bool.and_eq_true_iff.mp hrecords).1
  · have hsame : machine.state.rejected options rule via = machine.state.rejected options rule [] := by
      rw [CompareState.rejected, CompareState.rejected, if_neg hrecords, if_neg hrecords]
    rw [hsame]
    exact fail?_eq_some (if_neg hrecords) rule

theorem blame?_eq (hunrecorded : options.trace = false → machine.state.difference = none)
    (hreads : Retraces options machine.trail entry via) (call : GraphCall) :
    machine.blame? entry call = some { machine with
      state := machine.state.extended (.subgraph call.name call.index :: via)
      control := .leave (.ok false) } := by
  cases hdifference : machine.state.difference with
  | none =>
      have hsame : machine.state.extended (.subgraph call.name call.index :: via) =
          machine.state.extended [.subgraph call.name call.index] := by
        rw [CompareState.extended, CompareState.extended, hdifference]
        rfl
      rw [hsame]
      apply blame?_eq_some
      rw [hdifference]
      rfl
  | some difference =>
      have htrace : options.trace = true := by
        by_contra hfalse
        rw [hunrecorded (Bool.eq_false_iff.mpr hfalse)] at hdifference
        cases hdifference
      apply blame?_eq_some
      rw [hdifference]
      exact hreads htrace

end Giving

end Machine

end OpGraph
