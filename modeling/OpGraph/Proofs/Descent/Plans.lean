import OpGraph.Proofs.Descent.Calls
import OpGraph.Proofs.Matching.Tandem
import Mathlib.Data.List.Perm.Subperm

/-!
What the plan for the attributes of two nodes guarantees. Its calls are for graphs that the two
nodes carry at the same place. If it finds no difference, there is one for each graph that they carry.
If its calls succeed besides, the attributes agree by name; and if they agree, it finds none and its
calls are for graphs that agree.
-/

namespace OpGraph

/-- The node has the graph at this place of an attribute of this name. -/
def Node.HoldsAt (node : Node) (name : String) (place : Nat) (graph : Graph) : Prop :=
  ∃ attr ∈ node.attributes, attr.name = name ∧ attr.value.subgraphs[place]? = some graph

/-- Two graphs, carried by a node of the left body and by one of the right body. -/
structure Carried (left right : Body) (graph graph' : Graph) : Prop where
  left : ∃ node ∈ left.nodes, node.Carries graph
  right : ∃ node ∈ right.nodes, node.Carries graph'

section Names

variable {attributes : List Attribute} {attr : Attribute} {name : String}

theorem lastNamed?_eq_some (hnamed : lastNamed? attributes name = some attr) :
    attr ∈ attributes ∧ attr.name = name := by
  have hmem := List.mem_of_find?_eq_some hnamed
  have hname := List.find?_some hnamed
  exact ⟨List.mem_reverse.mp hmem, by simpa using hname⟩

theorem lastNamed?_eq_none (hnamed : lastNamed? attributes name = none) :
    name ∉ attributes.map Attribute.name := by
  intro hmem
  obtain ⟨attr, hattr, hname⟩ := List.mem_map.mp hmem
  have hnot := List.find?_eq_none.mp hnamed attr (List.mem_reverse.mpr hattr)
  simp [hname] at hnot

/-- Where no name repeats, an attribute is the last of its name. -/
theorem lastNamed?_of_mem (hnodup : (attributes.map Attribute.name).Nodup)
    (hattr : attr ∈ attributes) : lastNamed? attributes attr.name = some attr := by
  cases hnamed : lastNamed? attributes attr.name with
  | none => exact absurd (List.mem_map_of_mem hattr) (lastNamed?_eq_none hnamed)
  | some found =>
      obtain ⟨hfound, hname⟩ := lastNamed?_eq_some hnamed
      rw [List.inj_on_of_nodup_map hnodup hfound hattr hname]

/-- A list without repetitions inside of a list that is not longer holds all of it. -/
theorem mem_iff_of_subset_of_length_le {names names' : List String} (hnodup : names.Nodup)
    (hsubset : names ⊆ names') (hlength : names'.length ≤ names.length) (name : String) :
    name ∈ names ↔ name ∈ names' :=
  ((hnodup.subperm hsubset).perm_of_length_le hlength).mem_iff

end Names

section Carrying

variable {name : String} {call : GraphCall}

theorem mem_graphCalls {index : Nat} {lefts rights : List Graph}
    (hcall : call ∈ graphCalls name index lefts rights) :
    ∃ place : Nat, call.name = name ∧ call.index = index + place ∧
      lefts[place]? = some call.left ∧ rights[place]? = some call.right := by
  induction lefts generalizing index rights with
  | nil => simp [graphCalls] at hcall
  | cons left lefts ih =>
      cases rights with
      | nil => simp [graphCalls] at hcall
      | cons right rights =>
          rw [graphCalls] at hcall
          rcases List.mem_cons.mp hcall with rfl | hrest
          · exact ⟨0, rfl, rfl, rfl, rfl⟩
          · obtain ⟨place, hname, hindex, hleft, hright⟩ := ih hrest
            exact ⟨place + 1, hname, by omega, hleft, hright⟩

theorem mem_graphCalls_zero {lefts rights : List Graph}
    (hcall : call ∈ graphCalls name 0 lefts rights) :
    call.name = name ∧ lefts[call.index]? = some call.left ∧
      rights[call.index]? = some call.right := by
  obtain ⟨place, hname, hindex, hleft, hright⟩ := mem_graphCalls hcall
  rw [Nat.zero_add] at hindex
  exact ⟨hname, hindex ▸ hleft, hindex ▸ hright⟩

theorem exists_mem_graphCalls (name : String) (index : Nat) {place : Nat}
    {lefts rights : List Graph} {left right : Graph} (hleft : lefts[place]? = some left)
    (hright : rights[place]? = some right) :
    ∃ call ∈ graphCalls name index lefts rights, call.left = left ∧ call.right = right := by
  induction lefts generalizing index place rights with
  | nil => simp at hleft
  | cons head lefts ih =>
      cases rights with
      | nil => simp at hright
      | cons head' rights =>
          rw [graphCalls]
          cases place with
          | zero =>
              simp only [List.getElem?_cons_zero, Option.some.injEq] at hleft hright
              exact ⟨_, List.mem_cons_self, hleft, hright⟩
          | succ place =>
              obtain ⟨call, hcall, heqs⟩ := @ih (index + 1) place rights hleft hright
              exact ⟨call, List.mem_cons_of_mem _ hcall, heqs⟩

/-- The calls for two values are for graphs that they hold at the same place. -/
theorem mem_valuePlan {left right : AttributeValue}
    (hcall : call ∈ (valuePlan name left right).calls) :
    call.name = name ∧ left.subgraphs[call.index]? = some call.left ∧
      right.subgraphs[call.index]? = some call.right := by
  unfold valuePlan at hcall
  by_cases hleft : left.isOpaque
  · simp [hleft] at hcall
  by_cases hright : right.isOpaque
  · simp [hleft, hright] at hcall
  simp only [hleft, hright, Bool.false_eq_true, if_false] at hcall
  split at hcall
  · exact mem_graphCalls_zero hcall
  · split at hcall
    · exact mem_graphCalls_zero hcall
    · simp at hcall
  · simp at hcall

theorem mem_namedPlan {lefts rights : List Attribute}
    (hcall : call ∈ (namedPlan lefts rights).calls) :
    ∃ attr ∈ lefts, ∃ attr' ∈ rights, attr.name = call.name ∧ attr'.name = call.name ∧
      attr.value.subgraphs[call.index]? = some call.left ∧
        attr'.value.subgraphs[call.index]? = some call.right := by
  induction rights with
  | nil => simp [namedPlan] at hcall
  | cons right rights ih =>
      rw [namedPlan] at hcall
      cases hnamed : lastNamed? lefts right.name with
      | none => simp [hnamed] at hcall
      | some left =>
          obtain ⟨hmem, hname⟩ := lastNamed?_eq_some hnamed
          have hvalue := @mem_valuePlan right.name call left.value right.value
          rcases hplan : valuePlan right.name left.value right.value with
            ⟨calls, difference? | difference⟩
          · simp only [hnamed, hplan, List.mem_append] at hcall hvalue
            rcases hcall with hhead | htail
            · obtain ⟨hcallName, hplaces⟩ := hvalue hhead
              exact ⟨left, hmem, right, List.mem_cons_self, hname.trans hcallName.symm,
                hcallName.symm, hplaces⟩
            · obtain ⟨attr, hattr, attr', hattr', hrest⟩ := ih htail
              exact ⟨attr, hattr, attr', List.mem_cons_of_mem _ hattr', hrest⟩
          · simp only [hnamed, hplan] at hcall hvalue
            obtain ⟨hcallName, hplaces⟩ := hvalue hcall
            exact ⟨left, hmem, right, List.mem_cons_self, hname.trans hcallName.symm,
              hcallName.symm, hplaces⟩

/-- A call for two nodes names the place at which they have the graphs. -/
theorem holdsAt_of_mem {left right : Node}
    (hcall : call ∈ (attributePlan left.attributes right.attributes).calls) :
    left.HoldsAt call.name call.index call.left ∧
      right.HoldsAt call.name call.index call.right := by
  unfold attributePlan at hcall
  split at hcall
  · obtain ⟨attr, hattr, attr', hattr', hname, hname', hplace, hplace'⟩ := mem_namedPlan hcall
    exact ⟨⟨attr, hattr, hname, hplace⟩, ⟨attr', hattr', hname', hplace'⟩⟩
  · simp at hcall

/-- The calls for two nodes are for graphs that they carry at the same place. -/
theorem carryTogether_of_mem {left right : Node}
    (hcall : call ∈ (attributePlan left.attributes right.attributes).calls) :
    left.CarryTogether right call.left call.right := by
  obtain ⟨⟨attr, hattr, hname, hplace⟩, ⟨attr', hattr', hname', hplace'⟩⟩ := holdsAt_of_mem hcall
  exact ⟨attr, hattr, attr', hattr', hname.trans hname'.symm, call.index, hplace, hplace'⟩

theorem mem_attributePlan {left right : Node}
    (hcall : call ∈ (attributePlan left.attributes right.attributes).calls) :
    left.Carries call.left ∧ right.Carries call.right :=
  ⟨(carryTogether_of_mem hcall).carries, (carryTogether_of_mem hcall).symm.carries⟩

end Carrying

section Matching

variable {rule : GraphRule} {layers : List Layer} {name : String}

theorem isEqv_iff_forall₂ {α : Type} {same : α → α → Bool} {lefts rights : List α} :
    lefts.isEqv rights same = true ↔ List.Forall₂ (fun left right => same left right = true)
      lefts rights := by
  induction lefts generalizing rights with
  | nil => cases rights <;> simp
  | cons left lefts ih =>
      cases rights with
      | nil => simp
      | cons right rights => simp [List.isEqv_cons_cons, ih]

/-- Two values show no difference by themselves exactly if they are the same and hold no graphs. -/
theorem plainDifference?_eq_none_iff {left right : AttributeValue} :
    plainDifference? name left right = none ↔ left.SamePlain right := by
  cases left <;> cases right <;>
    simp [plainDifference?, AttributeValue.SamePlain, isEqv_iff_forall₂]

/-- If the plan for two values finds no difference and its calls succeed, the values agree. -/
theorem valuesAgree_of_plan {left right : AttributeValue}
    (hnone : (valuePlan name left right).difference? = none)
    (hcalls : ∀ call ∈ (valuePlan name left right).calls,
      GraphsAgree rule layers call.left call.right) : ValuesAgree rule layers left right := by
  unfold valuePlan at hnone hcalls
  by_cases hleft : left.isOpaque
  · simp [hleft] at hnone
  by_cases hright : right.isOpaque
  · simp [hleft, hright] at hnone
  simp only [hleft, hright, Bool.false_eq_true, if_false] at hnone hcalls
  split at hnone
  next graph graph' =>
    exact .graph (hcalls ⟨name, 0, graph, graph'⟩ (by simp [graphCalls]))
  next lefts rights =>
    by_cases hlength : lefts.length = rights.length
    · simp only [hlength, if_true] at hcalls
      refine .graphs hlength fun place graph graph' hgraph hgraph' => ?_
      obtain ⟨call, hcall, rfl, rfl⟩ := exists_mem_graphCalls name 0 hgraph hgraph'
      exact hcalls call hcall
    · simp [hlength] at hnone
  next => exact .plain (plainDifference?_eq_none_iff.mp hnone)

theorem namedPlan_eq_none {lefts rights : List Attribute}
    (hnone : (namedPlan lefts rights).difference? = none) {right : Attribute}
    (hright : right ∈ rights) :
    ∃ left, lastNamed? lefts right.name = some left ∧
      (valuePlan right.name left.value right.value).difference? = none ∧
      (valuePlan right.name left.value right.value).calls ⊆ (namedPlan lefts rights).calls := by
  induction rights with
  | nil => simp at hright
  | cons head rights ih =>
      rw [namedPlan] at hnone ⊢
      cases hnamed : lastNamed? lefts head.name with
      | none => simp [hnamed] at hnone
      | some left =>
          simp only [hnamed] at hnone ⊢
          rcases hplan : valuePlan head.name left.value head.value with
            ⟨calls, difference? | difference⟩
          · simp only [hplan] at hnone ⊢
            rcases List.mem_cons.mp hright with rfl | hrest
            · refine ⟨left, hnamed, by rw [hplan], ?_⟩
              rw [hplan]
              exact List.subset_append_left _ _
            · obtain ⟨left', hnamed', hnone', hcalls⟩ := ih hnone hrest
              exact ⟨left', hnamed', hnone', List.Subset.trans hcalls (List.subset_append_right _ _)⟩
          · simp [hplan] at hnone

/-- If the plan for two lists finds no difference, they have the same names, and the plan for values
of the same name finds none and is part of the whole. -/
theorem attributePlan_eq_none {lefts rights : List Attribute}
    (hlefts : (lefts.map Attribute.name).Nodup) (hrights : (rights.map Attribute.name).Nodup)
    (hnone : (attributePlan lefts rights).difference? = none) :
    (∀ name, name ∈ lefts.map Attribute.name ↔ name ∈ rights.map Attribute.name) ∧
      ∀ attr ∈ lefts, ∀ attr' ∈ rights, attr.name = attr'.name →
        (valuePlan attr'.name attr.value attr'.value).difference? = none ∧
          (valuePlan attr'.name attr.value attr'.value).calls ⊆
            (attributePlan lefts rights).calls := by
  unfold attributePlan at hnone ⊢
  by_cases hlength : lefts.length = rights.length
  · simp only [hlength, if_true] at hnone ⊢
    constructor
    · intro name
      have hsubset : rights.map Attribute.name ⊆ lefts.map Attribute.name := by
        intro other hother
        obtain ⟨attr', hattr', rfl⟩ := List.mem_map.mp hother
        obtain ⟨attr, hnamed, _⟩ := namedPlan_eq_none hnone hattr'
        obtain ⟨hattr, hname⟩ := lastNamed?_eq_some hnamed
        exact hname ▸ List.mem_map_of_mem hattr
      have hlengths : (lefts.map Attribute.name).length ≤ (rights.map Attribute.name).length :=
        Nat.le_of_eq (by rw [List.length_map, List.length_map, hlength])
      exact (mem_iff_of_subset_of_length_le hrights hsubset hlengths name).symm
    · intro attr hattr attr' hattr' hname
      obtain ⟨found, hnamed, hnoneValue, hsubset⟩ := namedPlan_eq_none hnone hattr'
      rw [← hname, lastNamed?_of_mem hlefts hattr, Option.some.injEq] at hnamed
      subst hnamed
      exact ⟨hnoneValue, hsubset⟩
  · simp [hlength] at hnone

/-- If the plan for two nodes finds no difference and its calls succeed, the attributes agree by
name. -/
theorem attributesAgree_of_plan {lefts rights : List Attribute}
    (hlefts : (lefts.map Attribute.name).Nodup) (hrights : (rights.map Attribute.name).Nodup)
    (hnone : (attributePlan lefts rights).difference? = none)
    (hcalls : ∀ call ∈ (attributePlan lefts rights).calls,
      GraphsAgree rule layers call.left call.right) :
    (∀ name, name ∈ lefts.map Attribute.name ↔ name ∈ rights.map Attribute.name) ∧
      ∀ attr ∈ lefts, ∀ attr' ∈ rights, attr.name = attr'.name →
        ValuesAgree rule layers attr.value attr'.value := by
  obtain ⟨hnames, hplans⟩ := attributePlan_eq_none hlefts hrights hnone
  refine ⟨hnames, fun attr hattr attr' hattr' hname => ?_⟩
  obtain ⟨hnoneValue, hsubset⟩ := hplans attr hattr attr' hattr' hname
  exact valuesAgree_of_plan hnoneValue fun call hcall => hcalls call (hsubset hcall)

theorem AttributeValue.SamePlain.isOpaque_eq {left right : AttributeValue}
    (hsame : left.SamePlain right) : left.isOpaque = false ∧ right.isOpaque = false := by
  cases left <;> cases right <;>
    simp_all [SamePlain, isOpaque, isReference, kind, AttributeKind.isOpaque]

/-- The plan for values that are the same by themselves is empty. -/
theorem valuePlan_of_samePlain {left right : AttributeValue} (hsame : left.SamePlain right) :
    valuePlan name left right = ⟨[], none⟩ := by
  obtain ⟨hleft, hright⟩ := hsame.isOpaque_eq
  have hplain : plainDifference? name left right = none := plainDifference?_eq_none_iff.mpr hsame
  unfold valuePlan
  rw [hleft, hright]
  cases left <;> cases right <;> simp_all [AttributeValue.SamePlain]

/-- The plan for values that agree finds no difference, and its calls are for graphs that agree. -/
theorem valuePlan_of_valuesAgree {left right : AttributeValue}
    (hagree : ValuesAgree rule layers left right) :
    (valuePlan name left right).difference? = none ∧
      ∀ call ∈ (valuePlan name left right).calls,
        GraphsAgree rule layers call.left call.right := by
  cases hagree with
  | plain hsame =>
      rw [valuePlan_of_samePlain hsame]
      exact ⟨rfl, by simp⟩
  | @graph _ graph graph' hgraph =>
      have hplan : valuePlan name (.graph graph) (.graph graph') =
          ⟨[⟨name, 0, graph, graph'⟩], none⟩ := rfl
      rw [hplan]
      refine ⟨rfl, fun call hcall => ?_⟩
      rw [List.mem_singleton.mp hcall]
      exact hgraph
  | graphs hlength hgraphs =>
      rw [valuePlan_graphs hlength]
      refine ⟨rfl, fun call hcall => ?_⟩
      obtain ⟨_, hleft, hright⟩ := mem_graphCalls_zero hcall
      exact hgraphs call.index call.left call.right hleft hright

theorem namedPlan_of_all {holds : GraphCall → Prop} {lefts rights : List Attribute}
    (hall : ∀ right ∈ rights, ∃ left, lastNamed? lefts right.name = some left ∧
      (valuePlan right.name left.value right.value).difference? = none ∧
      ∀ call ∈ (valuePlan right.name left.value right.value).calls, holds call) :
    (namedPlan lefts rights).difference? = none ∧
      ∀ call ∈ (namedPlan lefts rights).calls, holds call := by
  induction rights with
  | nil => exact ⟨rfl, by simp [namedPlan]⟩
  | cons right rights ih =>
      obtain ⟨left, hnamed, hnone, hcalls⟩ := hall right List.mem_cons_self
      obtain ⟨hrestNone, hrestCalls⟩ := ih fun other hother =>
        hall other (List.mem_cons_of_mem _ hother)
      rcases hplan : valuePlan right.name left.value right.value with
        ⟨calls, difference? | difference⟩
      · rw [hplan] at hcalls
        simp only [namedPlan, hnamed, hplan]
        refine ⟨hrestNone, fun call hcall => ?_⟩
        rcases List.mem_append.mp hcall with hfirst | hlater
        · exact hcalls call hfirst
        · exact hrestCalls call hlater
      · rw [hplan] at hnone
        cases hnone

/-- The plan for nodes that agree finds no difference, and its calls are for graphs that agree. -/
theorem attributePlan_of_nodesAgree {left right : Node}
    (hlefts : (left.attributes.map Attribute.name).Nodup)
    (hrights : (right.attributes.map Attribute.name).Nodup)
    (hagree : NodesAgree rule layers left right) :
    (attributePlan left.attributes right.attributes).difference? = none ∧
      ∀ call ∈ (attributePlan left.attributes right.attributes).calls,
        GraphsAgree rule layers call.left call.right := by
  rcases hagree with ⟨_, _, _, hnames, hsame⟩
  have hlength := ((List.perm_ext_iff_of_nodup hlefts hrights).mpr hnames).length_eq
  rw [List.length_map, List.length_map] at hlength
  rw [attributePlan, if_pos hlength]
  refine namedPlan_of_all fun attr' hattr' => ?_
  obtain ⟨attr, hattr, hname⟩ :=
    List.mem_map.mp ((hnames attr'.name).mpr (List.mem_map_of_mem hattr'))
  exact ⟨attr, hname ▸ lastNamed?_of_mem hlefts hattr,
    valuePlan_of_valuesAgree (hsame attr hattr attr' hattr' hname)⟩

end Matching

section Covering

variable {name : String} {graph : Graph}

theorem map_graphCalls {lefts rights : List Graph} (hlength : lefts.length = rights.length)
    (index : Nat) :
    (graphCalls name index lefts rights).map GraphCall.left = lefts ∧
      (graphCalls name index lefts rights).map GraphCall.right = rights := by
  induction lefts generalizing index rights with
  | nil =>
      rw [List.length_eq_zero_iff.mp hlength.symm]
      exact ⟨rfl, rfl⟩
  | cons left lefts ih =>
      cases rights with
      | nil => simp at hlength
      | cons right rights =>
          obtain ⟨hlefts, hrights⟩ := ih (by simpa using hlength) (index + 1)
          simp [graphCalls, hlefts, hrights]

/-- If the plan for two values finds no difference, there is a call for each graph of either. -/
theorem map_calls_valuePlan {left right : AttributeValue}
    (hnone : (valuePlan name left right).difference? = none) :
    (valuePlan name left right).calls.map GraphCall.left = left.subgraphs ∧
      (valuePlan name left right).calls.map GraphCall.right = right.subgraphs := by
  unfold valuePlan at hnone ⊢
  by_cases hleft : left.isOpaque
  · simp [hleft] at hnone
  by_cases hright : right.isOpaque
  · simp [hleft, hright] at hnone
  simp only [hleft, hright, Bool.false_eq_true, if_false] at hnone ⊢
  split at hnone
  next leftGraph rightGraph => exact ⟨rfl, rfl⟩
  next lefts rights =>
    by_cases hlength : lefts.length = rights.length
    · simp only [hlength, if_true]
      exact map_graphCalls hlength 0
    · simp [hlength] at hnone
  next =>
    have hsame : left.SamePlain right := plainDifference?_eq_none_iff.mp hnone
    rw [hsame.subgraphs_eq_nil, hsame.symm.subgraphs_eq_nil]
    exact ⟨rfl, rfl⟩

/-- If the plan for two nodes finds no difference, there is a call for each graph that one of them
carries. -/
theorem exists_call_of_carries {left right : Node}
    (hlefts : (left.attributes.map Attribute.name).Nodup)
    (hrights : (right.attributes.map Attribute.name).Nodup)
    (hnone : (attributePlan left.attributes right.attributes).difference? = none) :
    (left.Carries graph →
        ∃ call ∈ (attributePlan left.attributes right.attributes).calls, call.left = graph) ∧
      (right.Carries graph →
        ∃ call ∈ (attributePlan left.attributes right.attributes).calls, call.right = graph) := by
  obtain ⟨hnames, hplans⟩ := attributePlan_eq_none hlefts hrights hnone
  constructor
  · rintro ⟨attr, hattr, hgraph⟩
    obtain ⟨attr', hattr', hname⟩ :=
      List.mem_map.mp ((hnames attr.name).mp (List.mem_map_of_mem hattr))
    obtain ⟨hnoneValue, hsubset⟩ := hplans attr hattr attr' hattr' hname.symm
    rw [← (map_calls_valuePlan hnoneValue).1] at hgraph
    obtain ⟨call, hcall, hheld⟩ := List.mem_map.mp hgraph
    exact ⟨call, hsubset hcall, hheld⟩
  · rintro ⟨attr', hattr', hgraph⟩
    obtain ⟨attr, hattr, hname⟩ :=
      List.mem_map.mp ((hnames attr'.name).mpr (List.mem_map_of_mem hattr'))
    obtain ⟨hnoneValue, hsubset⟩ := hplans attr hattr attr' hattr' hname
    rw [← (map_calls_valuePlan hnoneValue).2] at hgraph
    obtain ⟨call, hcall, hheld⟩ := List.mem_map.mp hgraph
    exact ⟨call, hsubset hcall, hheld⟩

end Covering

end OpGraph
