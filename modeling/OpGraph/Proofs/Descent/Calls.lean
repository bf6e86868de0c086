import OpGraph.Compare.Attributes
import OpGraph.Proofs.Matching.Relation

/-!
The comparison of attributes, taken apart. Which graphs it hands to the comparison given by the
caller, and which difference it finds if they all match, depends on the attributes alone. So it is
the same as planning these calls first and making them then, up to the first that fails. The plan
looks at no graph itself, so it stays the same whatever graphs stand in the place of others.
-/

namespace OpGraph

/-- Two graphs that are to be compared: the name of the attribute, and the place of the graphs in
it. -/
structure GraphCall where
  name : String
  index : Nat
  left : Graph
  right : Graph

/-- The calls to make, and the difference that shows when all of them have succeeded. -/
structure AttributePlan where
  calls : List GraphCall
  difference? : Option AttributeDifference

/-- The calls for the graphs of two lists, the first of which have the given index. -/
def graphCalls (name : String) : Nat → List Graph → List Graph → List GraphCall
  | index, left :: lefts, right :: rights =>
      ⟨name, index, left, right⟩ :: graphCalls name (index + 1) lefts rights
  | _, _, _ => []

/-- The plan for two values of an attribute. -/
def valuePlan (name : String) (left right : AttributeValue) : AttributePlan :=
  if left.isOpaque then ⟨[], some (.unsupported name left.kind)⟩
  else if right.isOpaque then ⟨[], some (.unsupported name right.kind)⟩
  else match left, right with
    | .graph leftGraph, .graph rightGraph => ⟨graphCalls name 0 [leftGraph] [rightGraph], none⟩
    | .graphs lefts, .graphs rights =>
        if lefts.length = rights.length then ⟨graphCalls name 0 lefts rights, none⟩
        else ⟨[], some (.graphCount name lefts.length rights.length)⟩
    | leftValue, rightValue => ⟨[], plainDifference? name leftValue rightValue⟩

/-- The plan for the attributes of a list: up to the first that differs by itself. -/
def namedPlan (lefts : List Attribute) : List Attribute → AttributePlan
  | [] => ⟨[], none⟩
  | right :: rights =>
      match lastNamed? lefts right.name with
      | none => ⟨[], some (.missing right.name)⟩
      | some left =>
          match valuePlan right.name left.value right.value with
          | ⟨calls, some difference⟩ => ⟨calls, some difference⟩
          | ⟨calls, none⟩ =>
              ⟨calls ++ (namedPlan lefts rights).calls, (namedPlan lefts rights).difference?⟩

/-- The plan for two lists of attributes. -/
def attributePlan (lefts rights : List Attribute) : AttributePlan :=
  if lefts.length = rights.length then namedPlan lefts rights
  else ⟨[], some (.count lefts.length rights.length)⟩

section Differences

variable {name : String} {place : Nat}

theorem plainDifference?_ne_subgraph (attrName : String) (left right : AttributeValue) :
    plainDifference? attrName left right ≠ some (.subgraph name place) := by
  unfold plainDifference? kindDifference
  grind

theorem valuePlan_ne_subgraph (name : String) (place : Nat) (attrName : String)
    (left right : AttributeValue) :
    (valuePlan attrName left right).difference? ≠ some (.subgraph name place) := by
  unfold valuePlan
  by_cases hleft : left.isOpaque
  · simp [hleft]
  · by_cases hright : right.isOpaque
    · simp [hleft, hright]
    · simp only [hleft, hright, Bool.false_eq_true, if_false]
      split
      · simp
      · split <;> simp
      · exact plainDifference?_ne_subgraph attrName left right

theorem namedPlan_ne_subgraph (lefts rights : List Attribute) :
    (namedPlan lefts rights).difference? ≠ some (.subgraph name place) := by
  induction rights with
  | nil => simp [namedPlan]
  | cons right rights ih =>
      rw [namedPlan]
      cases lastNamed? lefts right.name with
      | none => simp
      | some left =>
          have hvalue := valuePlan_ne_subgraph name place right.name left.value right.value
          rcases hplan : valuePlan right.name left.value right.value with
            ⟨calls, difference? | difference⟩
          · simp only [hplan]
            exact ih
          · rw [hplan] at hvalue
            simpa only [hplan] using hvalue

/-- Only a call finds that two graphs differ; the plan itself never says so. -/
theorem attributePlan_ne_subgraph (lefts rights : List Attribute) :
    (attributePlan lefts rights).difference? ≠ some (.subgraph name place) := by
  unfold attributePlan
  split
  · exact namedPlan_ne_subgraph lefts rights
  · simp

end Differences

section Making

variable {m : Type → Type} [Monad m]

/-- Makes the calls up to the first that fails, and gives this one. -/
def makeCalls (graphsMatch : Graph → Graph → m Bool) : List GraphCall → m (Option GraphCall)
  | [] => return none
  | call :: calls => do
      if ← graphsMatch call.left call.right then makeCalls graphsMatch calls
      else return some call

/-- Makes the calls of a plan, and gives the first difference. -/
def followPlan (graphsMatch : Graph → Graph → m Bool) (plan : AttributePlan) :
    m (Option AttributeDifference) := do
  match ← makeCalls graphsMatch plan.calls with
  | some call => return some (.subgraph call.name call.index)
  | none => return plan.difference?

variable [LawfulMonad m] {graphsMatch : Graph → Graph → m Bool}

theorem followPlan_nil (difference? : Option AttributeDifference) :
    followPlan graphsMatch ⟨[], difference?⟩ = pure difference? := by
  simp [followPlan, makeCalls]

theorem makeCalls_append (calls rest : List GraphCall) :
    makeCalls graphsMatch (calls ++ rest) = (do
      match ← makeCalls graphsMatch calls with
      | some call => return some call
      | none => makeCalls graphsMatch rest) := by
  induction calls with
  | nil => simp [makeCalls]
  | cons call calls ih =>
      simp only [List.cons_append, makeCalls, ih, bind_assoc]
      refine bind_congr fun matched => ?_
      cases matched <;> simp

theorem compareGraphs_eq (name : String) (index : Nat) (lefts rights : List Graph) :
    compareGraphs graphsMatch name index lefts rights =
      followPlan graphsMatch ⟨graphCalls name index lefts rights, none⟩ := by
  induction lefts generalizing index rights with
  | nil => simp [compareGraphs, graphCalls, followPlan, makeCalls]
  | cons left lefts ih =>
      cases rights with
      | nil => simp [compareGraphs, graphCalls, followPlan, makeCalls]
      | cons right rights =>
          simp only [compareGraphs, graphCalls, followPlan, makeCalls, bind_assoc]
          refine bind_congr fun matched => ?_
          cases matched with
          | false => simp
          | true => simpa [followPlan] using ih (index + 1) rights

theorem compareAttribute_eq (left right : Attribute) :
    compareAttribute graphsMatch left right =
      followPlan graphsMatch (valuePlan right.name left.value right.value) := by
  unfold compareAttribute valuePlan
  by_cases hleft : left.value.isOpaque
  · simp [hleft, followPlan_nil]
  · by_cases hright : right.value.isOpaque
    · simp [hleft, hright, followPlan_nil]
    · simp only [hleft, hright, Bool.false_eq_true, if_false]
      generalize left.value = leftValue
      generalize right.value = rightValue
      cases leftValue with
      | graph leftGraph =>
          cases rightValue with
          | graph rightGraph => exact compareGraphs_eq right.name 0 [leftGraph] [rightGraph]
          | _ => exact (followPlan_nil _).symm
      | graphs lefts =>
          cases rightValue with
          | graphs rights =>
              by_cases hlength : lefts.length = rights.length
              · simpa [hlength] using compareGraphs_eq right.name 0 lefts rights
              · simp [hlength, followPlan_nil]
          | _ => exact (followPlan_nil _).symm
      | _ => exact (followPlan_nil _).symm

theorem compareNamed_eq (lefts rights : List Attribute) :
    compareNamed graphsMatch lefts rights = followPlan graphsMatch (namedPlan lefts rights) := by
  induction rights with
  | nil => exact (followPlan_nil _).symm
  | cons right rights ih =>
      rw [compareNamed, namedPlan]
      cases lastNamed? lefts right.name with
      | none => exact (followPlan_nil _).symm
      | some left =>
          simp only [compareAttribute_eq, ih]
          rcases valuePlan right.name left.value right.value with ⟨calls, difference? | difference⟩
          · simp only [followPlan, makeCalls_append, bind_assoc]
            refine bind_congr fun failed => ?_
            cases failed <;> simp
          · simp only [followPlan, bind_assoc]
            refine bind_congr fun failed => ?_
            cases failed <;> simp

/-- Comparing attributes is following their plan. -/
theorem compareAttributes_eq (lefts rights : List Attribute) :
    compareAttributes graphsMatch lefts rights =
      followPlan graphsMatch (attributePlan lefts rights) := by
  unfold compareAttributes attributePlan
  split
  · exact compareNamed_eq lefts rights
  · exact (followPlan_nil _).symm

end Making

section Alike

variable {same same' : Graph → Graph → Prop} {name : String}

/-- Two values are the same but for the graphs that they hold, which correspond one by one. -/
inductive AttributeValue.Alike (same : Graph → Graph → Prop) :
    AttributeValue → AttributeValue → Prop where
  | plain {value : AttributeValue} : (∀ graph, value ≠ .graph graph) →
      (∀ graphs, value ≠ .graphs graphs) → Alike same value value
  | graph {left right : Graph} : same left right → Alike same (.graph left) (.graph right)
  | graphs {lefts rights : List Graph} : List.Forall₂ same lefts rights →
      Alike same (.graphs lefts) (.graphs rights)

structure Attribute.Alike (same : Graph → Graph → Prop) (left right : Attribute) : Prop where
  name : left.name = right.name
  value : left.value.Alike same right.value

/-- Two calls at the same place of attributes, for graphs that correspond. -/
structure GraphCall.Alike (same same' : Graph → Graph → Prop) (call call' : GraphCall) : Prop where
  name : call.name = call'.name
  index : call.index = call'.index
  left : same call.left call'.left
  right : same' call.right call'.right

structure AttributePlan.Alike (same same' : Graph → Graph → Prop) (plan plan' : AttributePlan) :
    Prop where
  calls : List.Forall₂ (GraphCall.Alike same same') plan.calls plan'.calls
  difference : plan.difference? = plan'.difference?

theorem graphCalls_alike {lefts rights lefts' rights' : List Graph}
    (hlefts : List.Forall₂ same lefts lefts') (hrights : List.Forall₂ same' rights rights')
    (name : String) (index : Nat) :
    List.Forall₂ (GraphCall.Alike same same') (graphCalls name index lefts rights)
      (graphCalls name index lefts' rights') := by
  induction hlefts generalizing rights rights' index with
  | nil => simp [graphCalls]
  | cons hleft _ ih =>
      cases hrights with
      | nil => simp [graphCalls]
      | cons hright hrights =>
          rw [graphCalls, graphCalls]
          exact .cons ⟨rfl, rfl, hleft, hright⟩ (ih hrights (index + 1))

theorem valuePlan_graphs {lefts rights : List Graph} (hlength : lefts.length = rights.length) :
    valuePlan name (.graphs lefts) (.graphs rights) = ⟨graphCalls name 0 lefts rights, none⟩ := by
  have hplan : valuePlan name (.graphs lefts) (.graphs rights) =
      if lefts.length = rights.length then ⟨graphCalls name 0 lefts rights, none⟩
      else ⟨[], some (.graphCount name lefts.length rights.length)⟩ := rfl
  rw [hplan, if_pos hlength]

theorem valuePlan_graphs_ne {lefts rights : List Graph} (hlength : lefts.length ≠ rights.length) :
    valuePlan name (.graphs lefts) (.graphs rights) =
      ⟨[], some (.graphCount name lefts.length rights.length)⟩ := if_neg hlength

theorem calls_valuePlan_of_plain {left right : AttributeValue} (hgraph : ∀ graph, left ≠ .graph graph)
    (hgraphs : ∀ graphs, left ≠ .graphs graphs) : (valuePlan name left right).calls = [] := by
  unfold valuePlan
  split
  · rfl
  split
  · rfl
  split
  · exact absurd rfl (hgraph _)
  · exact absurd rfl (hgraphs _)
  · rfl

/-- Values are planned for in the same way, whatever graphs they hold. -/
theorem valuePlan_alike {left right left' right' : AttributeValue} (hleft : left.Alike same left')
    (hright : right.Alike same' right') (name : String) :
    (valuePlan name left right).Alike same same' (valuePlan name left' right') := by
  cases hleft with
  | plain hgraph hgraphs =>
      refine ⟨?_, ?_⟩
      · rw [calls_valuePlan_of_plain hgraph hgraphs, calls_valuePlan_of_plain hgraph hgraphs]
        exact .nil
      · cases hright with
        | plain _ _ => rfl
        | graph _ | graphs _ =>
            cases left with
            | graph graph => exact absurd rfl (hgraph graph)
            | graphs graphs => exact absurd rfl (hgraphs graphs)
            | _ => rfl
  | graph hgraph =>
      cases hright with
      | plain hgraph' hgraphs' =>
          cases right with
          | graph graph => exact absurd rfl (hgraph' graph)
          | graphs graphs => exact absurd rfl (hgraphs' graphs)
          | _ => exact ⟨.nil, rfl⟩
      | graph hgraph' => exact ⟨graphCalls_alike (.cons hgraph .nil) (.cons hgraph' .nil) name 0, rfl⟩
      | graphs _ => exact ⟨.nil, rfl⟩
  | @graphs lefts lefts' hgraphs =>
      cases hright with
      | plain hgraph' hgraphs' =>
          cases right with
          | graph graph => exact absurd rfl (hgraph' graph)
          | graphs graphs => exact absurd rfl (hgraphs' graphs)
          | _ => exact ⟨.nil, rfl⟩
      | graph _ => exact ⟨.nil, rfl⟩
      | @graphs rights rights' hgraphs' =>
          have hlength := hgraphs.length_eq
          have hlength' := hgraphs'.length_eq
          by_cases hcount : lefts.length = rights.length
          · rw [valuePlan_graphs hcount, valuePlan_graphs (by omega)]
            exact ⟨graphCalls_alike hgraphs hgraphs' name 0, rfl⟩
          · rw [valuePlan_graphs_ne hcount, valuePlan_graphs_ne (by omega), hlength, hlength']
            exact ⟨.nil, rfl⟩

theorem lastNamed?_alike {lefts lefts' : List Attribute}
    (hlefts : List.Forall₂ (Attribute.Alike same) lefts lefts') (name : String) :
    Option.Rel (Attribute.Alike same) (lastNamed? lefts name) (lastNamed? lefts' name) := by
  have hreverse : List.Forall₂ (Attribute.Alike same) lefts.reverse lefts'.reverse :=
    List.rel_reverse hlefts
  rw [lastNamed?, lastNamed?]
  generalize lefts.reverse = lefts at hreverse
  generalize lefts'.reverse = lefts' at hreverse
  induction hreverse with
  | nil => exact .none
  | @cons attr attr' _ _ hattr _ ih =>
      rw [List.find?_cons, List.find?_cons, ← hattr.name]
      cases attr.name == name with
      | true => exact .some hattr
      | false => exact ih

theorem namedPlan_alike {lefts rights lefts' rights' : List Attribute}
    (hlefts : List.Forall₂ (Attribute.Alike same) lefts lefts')
    (hrights : List.Forall₂ (Attribute.Alike same') rights rights') :
    (namedPlan lefts rights).Alike same same' (namedPlan lefts' rights') := by
  induction hrights with
  | nil => exact ⟨.nil, rfl⟩
  | @cons right right' _ _ hright _ ih =>
      have hlast := lastNamed?_alike hlefts right.name
      rw [namedPlan, namedPlan, ← hright.name]
      generalize lastNamed? lefts right.name = left? at hlast
      generalize lastNamed? lefts' right.name = left?' at hlast
      cases hlast with
      | none => exact ⟨.nil, rfl⟩
      | @some left left' hleft =>
          have hplan := valuePlan_alike hleft.value hright.value right.name
          simp only
          generalize valuePlan right.name left.value right.value = plan at hplan
          generalize valuePlan right.name left'.value right'.value = plan' at hplan
          obtain ⟨calls, difference?⟩ := plan
          obtain ⟨calls', difference?'⟩ := plan'
          obtain ⟨hcalls, hdifference⟩ := hplan
          obtain rfl : difference? = difference?' := hdifference
          cases difference? with
          | some difference => exact ⟨hcalls, rfl⟩
          | none => exact ⟨List.rel_append hcalls ih.calls, ih.difference⟩

/-- Attributes are planned for in the same way, whatever graphs they hold. -/
theorem attributePlan_alike {lefts rights lefts' rights' : List Attribute}
    (hlefts : List.Forall₂ (Attribute.Alike same) lefts lefts')
    (hrights : List.Forall₂ (Attribute.Alike same') rights rights') :
    (attributePlan lefts rights).Alike same same' (attributePlan lefts' rights') := by
  rw [attributePlan, attributePlan, hlefts.length_eq, hrights.length_eq]
  split
  · exact namedPlan_alike hlefts hrights
  · exact ⟨.nil, rfl⟩

end Alike

end OpGraph
