import OpGraph.Proofs.Attributes.Sets

/-!
# Which attributes are compared, and what they differ in

An attribute of the second list is joined to the last one of its name in the first. The two are
compared graph by graph if they differ in nothing else; the first that do, or the first name that is
missing, end the comparison. All this is said without the comparison, and decides on the plan for it.
-/

namespace OpGraph

/-- The attribute is the last one of the name. -/
def IsLastNamed (attributes : List Attribute) (name : String) (attr : Attribute) : Prop :=
  attr.name = name ∧ ∃ before after, attributes = before ++ attr :: after ∧
    ∀ later ∈ after, later.name ≠ name

namespace AttributeValue

/-- The values with a payload that is never compared. -/
inductive Opaque : AttributeValue → Prop where
  | tensor (payload : Tensor) : Opaque (.tensor payload)
  | tensors (payload : List Tensor) : Opaque (.tensors payload)
  | sparseTensor (payload : SparseTensor) : Opaque (.sparseTensor payload)
  | sparseTensors (payload : List SparseTensor) : Opaque (.sparseTensors payload)
  | typeProto (payload : TypeText) : Opaque (.typeProto payload)
  | typeProtos (payload : List TypeText) : Opaque (.typeProtos payload)

def HoldsGraphs : AttributeValue → Prop
  | .graph _ | .graphs _ => True
  | _ => False

/-- The values are the same but for the graphs in them, of which there are as many. -/
def AlikeUpToGraphs : AttributeValue → AttributeValue → Prop := SameUnder fun _ _ => True

/-- How two values differ that are not alike up to graphs. The kind of a reference belongs to its
value, but for the comparison with what is no reference. -/
inductive Differ (name : String) :
    AttributeValue → AttributeValue → AttributeDifference → Prop where
  | leftOpaque {left right : AttributeValue} : left.Opaque →
      Differ name left right (.unsupported name left.kind)
  | rightOpaque {left right : AttributeValue} : ¬ left.Opaque → right.Opaque →
      Differ name left right (.unsupported name right.kind)
  | graphCounts {lefts rights : List Graph} : lefts.length ≠ rights.length →
      Differ name (.graphs lefts) (.graphs rights) (.graphCount name lefts.length rights.length)
  | references {target target' : String} {kind kind' : AttributeKind} :
      ¬ (target = target' ∧ kind = kind') →
      Differ name (.reference target kind) (.reference target' kind') (.value name)
  | kinds {left right : AttributeValue} : ¬ left.Opaque → ¬ right.Opaque →
      ¬ (left.isReference = true ∧ right.isReference = true) → left.kind ≠ right.kind →
      Differ name left right (.kind name left.kind right.kind)
  | payloads {left right : AttributeValue} : ¬ left.Opaque → ¬ right.Opaque →
      ¬ (left.HoldsGraphs ∧ right.HoldsGraphs) → left.kind = right.kind →
      ¬ left.SamePlain right → Differ name left right (.value name)

end AttributeValue

/-- The pairs of graphs of two attributes, by index, under the name of the second. -/
def Attribute.graphPairs (left right : Attribute) : List GraphCall :=
  (left.value.subgraphs.zip right.value.subgraphs).mapIdx fun index graphs =>
    ⟨right.name, index, graphs.1, graphs.2⟩

/-- The attribute is joined to one that differs from it in graphs at most. -/
structure Joins (lefts : List Attribute) (left right : Attribute) : Prop where
  last : IsLastNamed lefts right.name left
  alike : left.value.AlikeUpToGraphs right.value

/-- What an attribute of the second list differs in, apart from graphs. -/
inductive DiffersFrom (lefts : List Attribute) (right : Attribute) : AttributeDifference → Prop where
  | missing : right.name ∉ lefts.map Attribute.name → DiffersFrom lefts right (.missing right.name)
  | joined {left : Attribute} {difference : AttributeDifference} :
      IsLastNamed lefts right.name left → left.value.Differ right.name right.value difference →
      DiffersFrom lefts right difference

/-- The attributes of the second list with those that they are joined to, in order: all of them, or
those before the first that differs in more than graphs. -/
inductive JoinedUpTo (lefts : List Attribute) :
    List Attribute → List (Attribute × Attribute) → Option AttributeDifference → Prop where
  | all {joined : List (Attribute × Attribute)} :
      (∀ pair ∈ joined, Joins lefts pair.1 pair.2) →
      JoinedUpTo lefts (joined.map Prod.snd) joined none
  | upTo {joined : List (Attribute × Attribute)} {right : Attribute} {rest : List Attribute}
      {difference : AttributeDifference} : (∀ pair ∈ joined, Joins lefts pair.1 pair.2) →
      DiffersFrom lefts right difference →
      JoinedUpTo lefts (joined.map Prod.snd ++ right :: rest) joined (some difference)

/-- What is compared of two lists of attributes: nothing if there are not as many on either side. -/
inductive ComparedUpTo (lefts rights : List Attribute) :
    List (Attribute × Attribute) → Option AttributeDifference → Prop where
  | counts : lefts.length ≠ rights.length →
      ComparedUpTo lefts rights [] (some (.count lefts.length rights.length))
  | joined {joined : List (Attribute × Attribute)} {other? : Option AttributeDifference} :
      lefts.length = rights.length → JoinedUpTo lefts rights joined other? →
      ComparedUpTo lefts rights joined other?

section Values

variable {name : String} {left right : AttributeValue} {difference : AttributeDifference}

theorem AttributeValue.opaque_iff {value : AttributeValue} :
    value.Opaque ↔ value.isOpaque = true := by
  constructor
  · rintro ⟨⟩ <;> rfl
  · intro hopaque
    cases value with
    | tensor payload => exact .tensor payload
    | tensors payload => exact .tensors payload
    | sparseTensor payload => exact .sparseTensor payload
    | sparseTensors payload => exact .sparseTensors payload
    | typeProto payload => exact .typeProto payload
    | typeProtos payload => exact .typeProtos payload
    | _ => cases hopaque

theorem AttributeValue.exists_of_isReference {value : AttributeValue}
    (hreference : value.isReference = true) : ∃ target kind, value = .reference target kind := by
  cases value with
  | reference target kind => exact ⟨target, kind, rfl⟩
  | _ => cases hreference

/-- Values that are not the same differ in kind, unless both are references or of one kind. -/
theorem plainDifference?_of_not_samePlain (hdiffers : ¬ left.SamePlain right) :
    plainDifference? name left right =
      if left.isReference = true ∧ right.isReference = true then some (.value name)
      else some (kindDifference name left right) := by
  have hsome : plainDifference? name left right ≠ none := fun hnone =>
    hdiffers (plainDifference?_eq_none_iff.mp hnone)
  unfold plainDifference? at hsome ⊢
  split at hsome
  case h_8 hreferences _ _ _ _ _ _ =>
    rw [if_neg]
    rintro ⟨hleft, hright⟩
    obtain ⟨target, kind, rfl⟩ := AttributeValue.exists_of_isReference hleft
    obtain ⟨target', kind', rfl⟩ := AttributeValue.exists_of_isReference hright
    exact hreferences target kind target' kind' rfl rfl
  all_goals simp_all [kindDifference, AttributeValue.kind, AttributeValue.isReference]

theorem AttributeValue.SamePlain.kind_eq (hsame : left.SamePlain right) :
    left.kind = right.kind := by
  unfold SamePlain at hsame
  split at hsame
  · exact hsame.2
  all_goals first | rfl | exact hsame.elim

/-- Where not both values hold graphs, the plan is what they differ in by themselves. -/
theorem valuePlan_plain (hleft : ¬ left.Opaque) (hright : ¬ right.Opaque)
    (hgraph : ∀ graph graph', ¬ (left = .graph graph ∧ right = .graph graph'))
    (hgraphs : ∀ graphs graphs', ¬ (left = .graphs graphs ∧ right = .graphs graphs')) :
    valuePlan name left right = ⟨[], plainDifference? name left right⟩ := by
  rw [AttributeValue.opaque_iff, Bool.not_eq_true] at hleft hright
  unfold valuePlan
  simp only [hleft, hright, Bool.false_eq_true, if_false]
  split
  · exact absurd ⟨rfl, rfl⟩ (hgraph _ _)
  · exact absurd ⟨rfl, rfl⟩ (hgraphs _ _)
  · rfl

/-- Where values differ, no call is planned but the difference is. -/
theorem AttributeValue.Differ.valuePlan_eq (hdiffer : left.Differ name right difference) :
    valuePlan name left right = ⟨[], some difference⟩ := by
  cases hdiffer with
  | leftOpaque hleft =>
      unfold valuePlan
      simp only [opaque_iff.mp hleft, if_true]
  | rightOpaque hleft hright =>
      rw [opaque_iff, Bool.not_eq_true] at hleft
      unfold valuePlan
      simp only [hleft, opaque_iff.mp hright, Bool.false_eq_true, if_false, if_true]
  | graphCounts hlength => exact valuePlan_graphs_ne hlength
  | @references target target' kind kind' hdiffers =>
      have hplain : plainDifference? name (.reference target kind) (.reference target' kind') =
          some (.value name) := plainDifference?_of_not_samePlain hdiffers
      rw [← hplain]
      rfl
  | kinds hleft hright hreferences hkind =>
      have hplain : ¬ left.SamePlain right := fun hsame => hkind hsame.kind_eq
      rw [valuePlan_plain hleft hright, plainDifference?_of_not_samePlain hplain,
        if_neg hreferences, kindDifference, if_neg hkind]
      · rintro graph graph' ⟨rfl, rfl⟩
        exact hkind rfl
      · rintro graphs graphs' ⟨rfl, rfl⟩
        exact hkind rfl
  | payloads hleft hright hgraphs hkind hdiffers =>
      have hvalue : plainDifference? name left right = some (.value name) := by
        rw [plainDifference?_of_not_samePlain hdiffers, kindDifference, if_pos hkind, ite_self]
      rw [valuePlan_plain hleft hright, hvalue]
      · rintro graph graph' ⟨rfl, rfl⟩
        exact hgraphs ⟨trivial, trivial⟩
      · rintro graphs graphs' ⟨rfl, rfl⟩
        exact hgraphs ⟨trivial, trivial⟩

/-- Values of one kind that hold graphs, and are not alike up to these, hold lists of different
length. -/
theorem AttributeValue.exists_graphs_of_not_alike (hgraphs : left.HoldsGraphs ∧ right.HoldsGraphs)
    (hkind : left.kind = right.kind) (halike : ¬ left.AlikeUpToGraphs right) :
    ∃ lefts rights, left = .graphs lefts ∧ right = .graphs rights ∧
      lefts.length ≠ rights.length := by
  obtain ⟨hleft, hright⟩ := hgraphs
  unfold HoldsGraphs at hleft hright
  split at hleft <;> split at hright
  · exact absurd trivial halike
  · cases hkind
  · exact hright.elim
  · cases hkind
  · next lefts _ rights =>
    refine ⟨lefts, rights, rfl, rfl, fun hlength => halike ?_⟩
    exact forall₂_iff_getElem?.mpr ⟨hlength, fun _ _ _ _ _ => trivial⟩
  · exact hright.elim
  all_goals exact hleft.elim

/-- Values that are not alike up to graphs differ in something. -/
theorem AttributeValue.exists_differ (name : String) (halike : ¬ left.AlikeUpToGraphs right) :
    ∃ difference, left.Differ name right difference := by
  have hplain : ¬ left.SamePlain right := fun hsame => halike hsame.sameUnder
  by_cases hleft : left.Opaque
  · exact ⟨_, .leftOpaque hleft⟩
  by_cases hright : right.Opaque
  · exact ⟨_, .rightOpaque hleft hright⟩
  by_cases hreferences : left.isReference = true ∧ right.isReference = true
  · obtain ⟨target, kind, rfl⟩ := exists_of_isReference hreferences.1
    obtain ⟨target', kind', rfl⟩ := exists_of_isReference hreferences.2
    exact ⟨_, .references hplain⟩
  by_cases hkind : left.kind = right.kind
  · by_cases hgraphs : left.HoldsGraphs ∧ right.HoldsGraphs
    · obtain ⟨lefts, rights, rfl, rfl, hlength⟩ := exists_graphs_of_not_alike hgraphs hkind halike
      exact ⟨_, .graphCounts hlength⟩
    · exact ⟨_, .payloads hleft hright hgraphs hkind hplain⟩
  · exact ⟨_, .kinds hleft hright hreferences hkind⟩

theorem graphCalls_eq_mapIdx (lefts rights : List Graph) (first : Nat) :
    graphCalls name first lefts rights = (lefts.zip rights).mapIdx fun index graphs =>
      ⟨name, first + index, graphs.1, graphs.2⟩ := by
  induction lefts generalizing rights first with
  | nil => rfl
  | cons left lefts ih =>
      cases rights with
      | nil => rfl
      | cons right rights =>
          rw [graphCalls, ih rights (first + 1), List.zip_cons_cons, List.mapIdx_cons]
          simp only [Nat.add_zero, Nat.add_assoc, Nat.add_comm 1]

/-- Values that are alike up to graphs are planned a call for each pair of these. -/
theorem valuePlan_of_alikeUpToGraphs {left right : Attribute}
    (halike : left.value.AlikeUpToGraphs right.value) :
    valuePlan right.name left.value right.value = ⟨left.graphPairs right, none⟩ := by
  unfold AttributeValue.AlikeUpToGraphs AttributeValue.SameUnder at halike
  split at halike
  · next hleft hright =>
    rw [Attribute.graphPairs, hleft, hright]
    rfl
  · next hleft hright =>
    rw [Attribute.graphPairs, hleft, hright, valuePlan_graphs halike.length_eq,
      graphCalls_eq_mapIdx]
    simp only [Nat.zero_add]
    rfl
  · rw [valuePlan_of_samePlain halike, Attribute.graphPairs, halike.subgraphs_eq_nil]
    rfl

end Values

section Lists

variable {lefts rights rest : List Attribute} {name : String} {attr left right : Attribute}
  {joined : List (Attribute × Attribute)} {other? : Option AttributeDifference}
  {difference : AttributeDifference}

theorem lastNamed?_eq_some_iff :
    lastNamed? lefts name = some attr ↔ IsLastNamed lefts name attr := by
  rw [lastNamed?, List.find?_eq_some_iff_append, beq_iff_eq, IsLastNamed]
  apply and_congr_right
  intro _
  constructor
  · rintro ⟨after, before, hreverse, hafter⟩
    refine ⟨before.reverse, after.reverse, ?_, fun later hlater => ?_⟩
    · simpa using congrArg List.reverse hreverse
    · simpa using hafter later (List.mem_reverse.mp hlater)
  · rintro ⟨before, after, rfl, hafter⟩
    refine ⟨after.reverse, before.reverse, by simp, fun later hlater => ?_⟩
    simpa using hafter later (List.mem_reverse.mp hlater)

/-- An attribute that differs in more than graphs is planned no call for, and ends the plan. -/
theorem DiffersFrom.namedPlan_eq (hdiffers : DiffersFrom lefts right difference)
    (rest : List Attribute) : namedPlan lefts (right :: rest) = ⟨[], some difference⟩ := by
  rw [namedPlan]
  cases hdiffers with
  | missing hmissing =>
      cases hnamed : lastNamed? lefts right.name with
      | none => rfl
      | some left =>
          obtain ⟨hmem, hname⟩ := lastNamed?_eq_some hnamed
          exact absurd (hname ▸ List.mem_map_of_mem hmem) hmissing
  | joined hlast hdiffer =>
      rw [lastNamed?_eq_some_iff.mpr hlast]
      simp only [hdiffer.valuePlan_eq]

/-- The calls for attributes that are joined come before those for the rest. -/
theorem namedPlan_joined (hjoined : ∀ pair ∈ joined, Joins lefts pair.1 pair.2)
    (rest : List Attribute) :
    namedPlan lefts (joined.map Prod.snd ++ rest) =
      ⟨(joined.flatMap fun pair => pair.1.graphPairs pair.2) ++ (namedPlan lefts rest).calls,
        (namedPlan lefts rest).difference?⟩ := by
  induction joined with
  | nil => rfl
  | cons pair joined ih =>
      obtain ⟨⟨hlast, halike⟩, hrest⟩ := List.forall_mem_cons.mp hjoined
      rw [List.map_cons, List.cons_append, namedPlan, lastNamed?_eq_some_iff.mpr hlast]
      simp only [valuePlan_of_alikeUpToGraphs halike, ih hrest, List.flatMap_cons,
        List.append_assoc]

theorem JoinedUpTo.namedPlan_eq (hjoined : JoinedUpTo lefts rights joined other?) :
    namedPlan lefts rights =
      ⟨joined.flatMap fun pair => pair.1.graphPairs pair.2, other?⟩ := by
  cases hjoined with
  | all hjoins =>
      have hplan := namedPlan_joined hjoins []
      simpa only [namedPlan, List.append_nil] using hplan
  | @upTo _ right rest difference hjoins hdiffers =>
      rw [namedPlan_joined hjoins, hdiffers.namedPlan_eq]
      simp only [List.append_nil]

theorem JoinedUpTo.cons (hjoins : Joins lefts left right)
    (hjoined : JoinedUpTo lefts rights joined other?) :
    JoinedUpTo lefts (right :: rights) ((left, right) :: joined) other? := by
  cases hjoined with
  | all hall =>
      exact @JoinedUpTo.all lefts ((left, right) :: joined) (List.forall_mem_cons.mpr ⟨hjoins, hall⟩)
  | upTo hall hdiffers =>
      exact @JoinedUpTo.upTo lefts ((left, right) :: joined) _ _ _
        (List.forall_mem_cons.mpr ⟨hjoins, hall⟩) hdiffers

/-- Every attribute is joined to one that differs from it in graphs at most, or else differs. -/
theorem exists_joins_or_differsFrom (lefts : List Attribute) (right : Attribute) :
    (∃ left, Joins lefts left right) ∨ ∃ difference, DiffersFrom lefts right difference := by
  cases hnamed : lastNamed? lefts right.name with
  | none => exact Or.inr ⟨_, .missing (lastNamed?_eq_none hnamed)⟩
  | some left =>
      have hlast := lastNamed?_eq_some_iff.mp hnamed
      by_cases halike : left.value.AlikeUpToGraphs right.value
      · exact Or.inl ⟨left, hlast, halike⟩
      · obtain ⟨difference, hdiffer⟩ := AttributeValue.exists_differ right.name halike
        exact Or.inr ⟨difference, .joined hlast hdiffer⟩

theorem exists_joinedUpTo (lefts rights : List Attribute) :
    ∃ joined other?, JoinedUpTo lefts rights joined other? := by
  induction rights with
  | nil => exact ⟨[], none, @JoinedUpTo.all lefts [] (by simp)⟩
  | cons right rights ih =>
      rcases exists_joins_or_differsFrom lefts right with ⟨left, hjoins⟩ | ⟨difference, hdiffers⟩
      · obtain ⟨joined, other?, hjoined⟩ := ih
        exact ⟨_, _, hjoined.cons hjoins⟩
      · exact ⟨[], some difference, @JoinedUpTo.upTo lefts [] right rights difference (by simp)
          hdiffers⟩

/-- What is compared of two lists is what the plan for them says. -/
theorem ComparedUpTo.attributePlan_eq (hcompared : ComparedUpTo lefts rights joined other?) :
    attributePlan lefts rights =
      ⟨joined.flatMap fun pair => pair.1.graphPairs pair.2, other?⟩ := by
  cases hcompared with
  | counts hlength => rw [attributePlan, if_neg hlength]; rfl
  | joined hlength hjoined => rw [attributePlan, if_pos hlength, hjoined.namedPlan_eq]

theorem exists_comparedUpTo (lefts rights : List Attribute) :
    ∃ joined other?, ComparedUpTo lefts rights joined other? := by
  by_cases hlength : lefts.length = rights.length
  · obtain ⟨joined, other?, hjoined⟩ := exists_joinedUpTo lefts rights
    exact ⟨joined, other?, .joined hlength hjoined⟩
  · exact ⟨[], _, .counts hlength⟩

end Lists

end OpGraph
