import OpGraph.Graph.WellFormed
import OpGraph.Scope.Origin
import Mathlib.Data.List.Dedup
import Mathlib.Data.List.Nodup

/-!
What a body defines, said without the list that is searched for it. A name is defined at a place of
the inputs or of the outputs of a node; the empty name stands for an omitted value and is defined
nowhere. In a body that defines no name twice, a search finds exactly the defined names.
-/

namespace OpGraph

section Lists

variable {α : Type} [BEq α] [LawfulBEq α]

theorem nodup_eraseDups (items : List α) : items.eraseDups.Nodup := by
  cases items with
  | nil => simp
  | cons head tail =>
      rw [List.eraseDups_cons, List.nodup_cons]
      refine ⟨?_, nodup_eraseDups _⟩
      simp [List.mem_eraseDups]
termination_by items.length
decreasing_by
  have hlength := List.length_filter_le (fun item => !item == head) tail
  simp only [List.length_cons]
  omega

theorem length_eraseDups [DecidableEq α] (items : List α) :
    items.eraseDups.length = items.dedup.length := by
  refine List.Perm.length_eq ((List.perm_ext_iff_of_nodup (nodup_eraseDups items)
    (List.nodup_dedup items)).mpr fun item => ?_)
  rw [List.mem_eraseDups, List.mem_dedup]

end Lists

/-- A pass over a body comes by the first place before the second one. It takes the inputs, and then
the outputs of node after node. -/
inductive Origin.Before : Origin → Origin → Prop where
  | inputs {slot slot' : Nat} : slot < slot' → Before (.input slot) (.input slot')
  | input {slot index slot' : Nat} : Before (.input slot) (.output index slot')
  | nodes {index index' slot slot' : Nat} : index < index' →
      Before (.output index slot) (.output index' slot')
  | outputs {index slot slot' : Nat} : slot < slot' →
      Before (.output index slot) (.output index slot')

theorem Origin.Before.asymm {origin origin' : Origin} (hbefore : origin.Before origin') :
    ¬ origin'.Before origin := by
  intro hafter
  cases hbefore <;> cases hafter <;> omega

theorem Origin.Before.ne {origin origin' : Origin} (hbefore : origin.Before origin') :
    origin ≠ origin' := by
  rintro rfl
  exact hbefore.asymm hbefore

namespace Body

/-- The body defines the name at this place. -/
inductive Defines (body : Body) (name : String) : Origin → Prop where
  | input {slot : Nat} : name ≠ "" → body.inputs[slot]? = some name →
      body.Defines name (.input slot)
  | output {index slot : Nat} {node : Node} : name ≠ "" → body.nodes[index]? = some node →
      node.outputs[slot]? = some name → body.Defines name (.output index slot)

/-- The name at a place of a body. -/
def nameAt? (body : Body) : Origin → Option String
  | .input slot => body.inputs[slot]?
  | .output index slot => body.nodes[index]?.bind fun node => node.outputs[slot]?

/-- The body does not define the name. -/
def Lacks (body : Body) (name : String) : Prop := ∀ origin, ¬ body.Defines name origin

/-- The body defines no name twice. -/
def UniqueNames (body : Body) : Prop := body.definedNames.Nodup

variable {body : Body} {name : String} {origin : Origin}

theorem Defines.name_ne_empty (hdefines : body.Defines name origin) : name ≠ "" := by
  cases hdefines with
  | input hname _ => exact hname
  | output hname _ _ => exact hname

theorem mem_inputDefinitions {inputs : List String} :
    (name, origin) ∈ inputDefinitions inputs ↔
      ∃ slot, origin = .input slot ∧ inputs[slot]? = some name := by
  simp only [inputDefinitions, List.mem_map, Prod.exists, Prod.mk.injEq,
    List.mem_zipIdx_iff_getElem?]
  constructor
  · rintro ⟨_, slot, hslot, rfl, rfl⟩
    exact ⟨slot, rfl, hslot⟩
  · rintro ⟨slot, rfl, hslot⟩
    exact ⟨name, slot, hslot, rfl, rfl⟩

theorem mem_nodeDefinitions {node : Node} {index : Nat} :
    (name, origin) ∈ node.definitions index ↔
      name ≠ "" ∧ ∃ slot, origin = .output index slot ∧ node.outputs[slot]? = some name := by
  simp only [Node.definitions, List.mem_map, List.mem_filter, Prod.exists, Prod.mk.injEq,
    List.mem_zipIdx_iff_getElem?, bne_iff_ne, ne_eq]
  constructor
  · rintro ⟨_, slot, ⟨hslot, hname⟩, rfl, rfl⟩
    exact ⟨hname, slot, rfl, hslot⟩
  · rintro ⟨hname, slot, rfl, hslot⟩
    exact ⟨name, slot, ⟨hslot, hname⟩, rfl, rfl⟩

theorem mem_definitions :
    (name, origin) ∈ body.definitions ↔
      (∃ slot, origin = .input slot ∧ body.inputs[slot]? = some name) ∨
        ∃ index slot node, origin = .output index slot ∧ name ≠ "" ∧
          body.nodes[index]? = some node ∧ node.outputs[slot]? = some name := by
  simp only [definitions, List.mem_append, mem_inputDefinitions, List.mem_flatMap, Prod.exists,
    List.mem_zipIdx_iff_getElem?, mem_nodeDefinitions]
  constructor
  · rintro (hinput | ⟨node, index, hnode, hname, slot, rfl, hslot⟩)
    · exact Or.inl hinput
    · exact Or.inr ⟨index, slot, node, rfl, hname, hnode, hslot⟩
  · rintro (hinput | ⟨index, slot, node, rfl, hname, hnode, hslot⟩)
    · exact Or.inl hinput
    · exact Or.inr ⟨node, index, hnode, hname, slot, rfl, hslot⟩

/-- Apart from the empty name, the listed definitions are those of the body. -/
theorem mem_definitions_iff_defines (hname : name ≠ "") :
    (name, origin) ∈ body.definitions ↔ body.Defines name origin := by
  rw [mem_definitions]
  constructor
  · rintro (⟨slot, rfl, hslot⟩ | ⟨index, slot, node, rfl, _, hnode, hslot⟩)
    · exact .input hname hslot
    · exact .output hname hnode hslot
  · intro hdefines
    cases hdefines with
    | input _ hslot => exact Or.inl ⟨_, rfl, hslot⟩
    | output _ hnode hslot => exact Or.inr ⟨_, _, _, rfl, hname, hnode, hslot⟩

theorem Defines.mem_definitions (hdefines : body.Defines name origin) :
    (name, origin) ∈ body.definitions :=
  (mem_definitions_iff_defines hdefines.name_ne_empty).mpr hdefines

theorem mem_of_lookup {α β : Type} [BEq α] [LawfulBEq α] {key : α} {value : β}
    {entries : List (α × β)} (hlookup : entries.lookup key = some value) :
    (key, value) ∈ entries := by
  obtain ⟨before, after, rfl, _⟩ := List.lookup_eq_some_iff.mp hlookup
  simp

theorem mem_definitions_of_origin? (horigin : body.origin? name = some origin) :
    (name, origin) ∈ body.definitions :=
  List.mem_reverse.mp (mem_of_lookup horigin)

theorem nameAt?_of_origin? (horigin : body.origin? name = some origin) :
    body.nameAt? origin = some name := by
  rcases mem_definitions.mp (mem_definitions_of_origin? horigin) with
    ⟨slot, rfl, hslot⟩ | ⟨index, slot, node, rfl, _, hnode, hslot⟩
  · exact hslot
  · rw [nameAt?, hnode, Option.bind_some, hslot]

theorem Defines.nameAt? (hdefines : body.Defines name origin) :
    body.nameAt? origin = some name := by
  cases hdefines with
  | input _ hslot => exact hslot
  | output _ hnode hslot => rw [Body.nameAt?, hnode, Option.bind_some, hslot]

/-- A body that lacks a name for the search lacks it. -/
theorem lacks_of_origin?_eq_none (horigin : body.origin? name = none) : body.Lacks name := by
  intro origin hdefines
  apply origin?_eq_none_iff.mp horigin
  exact List.mem_map.mpr ⟨_, hdefines.mem_definitions, rfl⟩

/-- What the search gives as an output is defined there, however often it is defined. -/
theorem defines_of_origin?_eq_output {index slot : Nat}
    (horigin : body.origin? name = some (.output index slot)) :
    body.Defines name (.output index slot) := by
  rcases mem_definitions.mp (mem_definitions_of_origin? horigin) with
    ⟨_, heq, _⟩ | ⟨_, _, node, heq, hname, hnode, hslot⟩
  · cases heq
  · cases heq
    exact .output hname hnode hslot

theorem defines_of_origin? (hname : name ≠ "") (horigin : body.origin? name = some origin) :
    body.Defines name origin :=
  (mem_definitions_iff_defines hname).mp (mem_definitions_of_origin? horigin)

theorem map_fst_inputDefinitions (inputs : List String) :
    (inputDefinitions inputs).map Prod.fst = inputs := by
  rw [inputDefinitions, List.map_map]
  exact List.zipIdx_map_fst 0 inputs

theorem map_fst_nodeDefinitions (node : Node) (index : Nat) :
    (node.definitions index).map Prod.fst = node.outputs.filter (· != "") := by
  have hfst : (fun pair : String × Nat => (pair.1 != "")) = (· != "") ∘ Prod.fst := rfl
  rw [Node.definitions, List.map_map]
  change ((node.outputs.zipIdx.filter fun pair => pair.1 != "").map Prod.fst) = _
  rw [hfst, ← List.filter_map, List.zipIdx_map_fst]

theorem map_fst_flatMap_nodeDefinitions (nodes : List Node) (start : Nat) :
    ((nodes.zipIdx start).flatMap fun (node, index) => node.definitions index).map Prod.fst =
      (nodes.flatMap Node.outputs).filter (· != "") := by
  induction nodes generalizing start with
  | nil => rfl
  | cons node rest ih =>
      rw [List.zipIdx_cons, List.flatMap_cons, List.flatMap_cons, List.map_append, ih,
        List.filter_append, map_fst_nodeDefinitions]

/-- What nodes define depends on their outputs alone. -/
theorem flatMap_nodeDefinitions_congr {nodes nodes' : List Node}
    (houtputs : List.Forall₂ (fun node node' => node.outputs = node'.outputs) nodes nodes')
    (start : Nat) :
    ((nodes.zipIdx start).flatMap fun (node, index) => node.definitions index) =
      (nodes'.zipIdx start).flatMap fun (node, index) => node.definitions index := by
  induction houtputs generalizing start with
  | nil => rfl
  | cons hnode _ ih =>
      simp only [List.zipIdx_cons, List.flatMap_cons]
      rw [ih, Node.definitions, Node.definitions, hnode]

/-- The definitions of nodes that stand behind the others come behind the others. -/
theorem definitions_of_append {body body' : Body} {nodes further : List Node}
    (hinputs : body.inputs = body'.inputs) (hnodes : body'.nodes = nodes ++ further)
    (houtputs : List.Forall₂ (fun node node' => node.outputs = node'.outputs) body.nodes nodes) :
    ∃ rest, body'.definitions = body.definitions ++ rest ∧
      rest.map Prod.fst = (further.flatMap Node.outputs).filter (· != "") := by
  refine ⟨_, ?_, map_fst_flatMap_nodeDefinitions further (0 + nodes.length)⟩
  rw [definitions, definitions, hnodes, List.zipIdx_append, List.flatMap_append, ← hinputs,
    flatMap_nodeDefinitions_congr houtputs, List.append_assoc]

/-- The names that a body defines are those of its definitions, the empty name left out. -/
theorem definedNames_eq (body : Body) :
    body.definedNames = (body.definitions.filter (·.1 != "")).map Prod.fst := by
  have hfst : (fun definition : String × Origin => (definition.1 != "")) =
      (· != "") ∘ Prod.fst := rfl
  rw [hfst, ← List.filter_map, definitions, List.map_append, map_fst_inputDefinitions,
    map_fst_flatMap_nodeDefinitions, definedNames, List.filter_append, List.filter_append,
    List.filter_filter]
  simp

theorem exists_defines_of_mem (hname : name ∈ body.definedNames) :
    ∃ origin, body.Defines name origin := by
  rw [definedNames_eq, List.mem_map] at hname
  obtain ⟨⟨_, origin⟩, hmem, rfl⟩ := hname
  obtain ⟨hdefinition, hne⟩ := List.mem_filter.mp hmem
  exact ⟨origin, (mem_definitions_iff_defines (by simpa using hne)).mp hdefinition⟩

theorem lacks_iff_notMem_definedNames (hname : name ≠ "") :
    body.Lacks name ↔ name ∉ body.definedNames := by
  rw [definedNames_eq]
  simp only [List.mem_map, List.mem_filter, Prod.exists, exists_and_right, exists_eq_right,
    Lacks, bne_iff_ne, ne_eq, hname, not_false_eq_true, and_true, not_exists,
    mem_definitions_iff_defines hname]

theorem notMem_definedNames_of_lacks (hlacks : body.Lacks name) : name ∉ body.definedNames := by
  by_cases hname : name = ""
  · simp [definedNames, hname]
  · exact (lacks_iff_notMem_definedNames hname).mp hlacks

theorem Defines.mem_definedNames (hdefines : body.Defines name origin) :
    name ∈ body.definedNames := by
  by_contra hname
  exact (lacks_iff_notMem_definedNames hdefines.name_ne_empty).mpr hname origin hdefines

/-- The definitions are listed in the order of their places. -/
theorem pairwise_definitions (body : Body) :
    body.definitions.Pairwise fun definition later => definition.2.Before later.2 := by
  have hindices : ∀ {α : Type} (items : List α), items.zipIdx.Pairwise (·.2 < ·.2) := by
    intro α items
    have hordered : (items.zipIdx.map Prod.snd).Pairwise (· < ·) := by
      rw [List.zipIdx_map_snd]
      exact List.pairwise_lt_range'
    exact List.pairwise_map.mp hordered
  rw [definitions, List.pairwise_append]
  refine ⟨?_, ?_, ?_⟩
  · refine List.pairwise_map.mpr ((hindices body.inputs).imp ?_)
    exact fun hslot => .inputs hslot
  · refine List.pairwise_flatMap.mpr ⟨?_, (hindices body.nodes).imp ?_⟩
    · rintro ⟨node, index⟩ _
      refine List.pairwise_map.mpr (((hindices node.outputs).filter _).imp ?_)
      exact fun hslot => .outputs hslot
    · rintro ⟨node, index⟩ ⟨node', index'⟩ hindex ⟨_, origin⟩ hmem ⟨_, origin'⟩ hmem'
      obtain ⟨_, slot, rfl, _⟩ := mem_nodeDefinitions.mp hmem
      obtain ⟨_, slot', rfl, _⟩ := mem_nodeDefinitions.mp hmem'
      exact .nodes hindex
  · rintro ⟨_, origin⟩ hmem ⟨_, origin'⟩ hmem'
    obtain ⟨slot, rfl, _⟩ := mem_inputDefinitions.mp hmem
    obtain ⟨⟨node, index⟩, _, hmem'⟩ := List.mem_flatMap.mp hmem'
    obtain ⟨_, slot', rfl, _⟩ := mem_nodeDefinitions.mp hmem'
    exact .input

/-- No two of the listed definitions have the same place. -/
theorem nodup_definitions (body : Body) : body.definitions.Nodup :=
  (pairwise_definitions body).imp fun hbefore heq => hbefore.ne (congrArg Prod.snd heq)

/-- A body in which each name has one place defines no name twice. -/
theorem uniqueNames_of_origins (horigins : ∀ name origin origin', body.Defines name origin →
    body.Defines name origin' → origin = origin') : body.UniqueNames := by
  rw [UniqueNames, definedNames_eq]
  refine ((nodup_definitions body).filter _).map_on ?_
  rintro ⟨name, origin⟩ hmem ⟨name', origin'⟩ hmem' heq
  change name = name' at heq
  subst heq
  obtain ⟨hdefinition, hname⟩ := List.mem_filter.mp hmem
  obtain ⟨hdefinition', _⟩ := List.mem_filter.mp hmem'
  have hiff := @mem_definitions_iff_defines body name
  have hne : name ≠ "" := by simpa using hname
  rw [horigins name origin origin' ((hiff hne).mp hdefinition) ((hiff hne).mp hdefinition')]

/-- The empty name is looked for among the inputs only. -/
theorem origin?_empty (body : Body) :
    body.origin? "" = (inputDefinitions body.inputs).reverse.lookup "" := by
  have hnone : (body.nodes.zipIdx.flatMap fun (node, index) => node.definitions index).reverse.lookup
      "" = none := by
    rw [List.lookup_eq_none_iff]
    rintro ⟨name, origin⟩ hmem
    obtain ⟨⟨node, index⟩, _, hmem⟩ := List.mem_flatMap.mp (List.mem_reverse.mp hmem)
    obtain ⟨hname, _⟩ := mem_nodeDefinitions.mp hmem
    simpa using Ne.symm hname
  rw [origin?, definitions, List.reverse_append, List.lookup_append, hnone, Option.none_or]

/-- In a body that defines no name twice, a name has one place. -/
theorem Defines.unique (hunique : body.UniqueNames) {origin' : Origin}
    (hdefines : body.Defines name origin) (hdefines' : body.Defines name origin') :
    origin = origin' := by
  rw [UniqueNames, definedNames_eq] at hunique
  have hmem : ∀ {place : Origin}, body.Defines name place →
      (name, place) ∈ body.definitions.filter (·.1 != "") := by
    intro place hplace
    rw [List.mem_filter]
    exact ⟨hplace.mem_definitions, by simpa using hplace.name_ne_empty⟩
  have heq := List.inj_on_of_nodup_map hunique (hmem hdefines) (hmem hdefines') rfl
  exact congrArg Prod.snd heq

/-- In a body that defines no name twice, the search finds what is defined. -/
theorem Defines.origin? (hunique : body.UniqueNames) (hdefines : body.Defines name origin) :
    body.origin? name = some origin := by
  cases horigin : body.origin? name with
  | none => exact absurd hdefines (lacks_of_origin?_eq_none horigin origin)
  | some found =>
      have hfound := defines_of_origin? hdefines.name_ne_empty horigin
      rw [hfound.unique hunique hdefines]

/-- The search fails for what the body lacks. The empty name has to be none of the inputs. -/
theorem Lacks.origin?_eq_none (hlacks : body.Lacks name) (hempty : name = "" → "" ∉ body.inputs) :
    body.origin? name = none := by
  cases horigin : body.origin? name with
  | none => rfl
  | some found =>
      rcases mem_definitions.mp (mem_definitions_of_origin? horigin) with
        ⟨slot, rfl, hslot⟩ | ⟨index, slot, node, rfl, hname, hnode, hslot⟩
      · by_cases hname : name = ""
        · subst hname
          exact absurd (List.mem_of_getElem? hslot) (hempty rfl)
        · exact absurd (Defines.input hname hslot) (hlacks _)
      · exact absurd (Defines.output hname hnode hslot) (hlacks _)

/-- The search finds the empty name exactly if an input has it. -/
theorem origin?_empty_eq_none_iff : body.origin? "" = none ↔ "" ∉ body.inputs := by
  constructor
  · intro hnone hinput
    obtain ⟨slot, hslot⟩ := List.mem_iff_getElem?.mp hinput
    have hdefinition := mem_definitions.mpr (Or.inl ⟨slot, rfl, hslot⟩)
    exact origin?_eq_none_iff.mp hnone (List.mem_map_of_mem hdefinition)
  · intro hinput
    apply Lacks.origin?_eq_none
    · exact fun origin hdefines => hdefines.name_ne_empty rfl
    · exact fun _ => hinput

theorem defines_eq_true_iff : body.defines name = true ↔ body.origin? name ≠ none := by
  rw [defines, Option.isSome_iff_ne_none]

/-- A search finds a name other than the empty one exactly if the body defines it. -/
theorem defines_iff_mem_definedNames (hname : name ≠ "") :
    body.defines name = true ↔ name ∈ body.definedNames := by
  rw [defines_eq_true_iff, ← not_iff_not, not_not, ← lacks_iff_notMem_definedNames hname]
  exact ⟨lacks_of_origin?_eq_none, fun hlacks => hlacks.origin?_eq_none fun hempty => absurd hempty hname⟩

/-- A search finds what the check enters as defined, and the empty name if an input has it. So the two
agree on a body exactly if each of its inputs has a name, and exactly then a value that is left out is
found nowhere. -/
theorem finds_definedNames (body : Body) :
    (∀ name, body.defines name = true ↔ name ∈ body.definedNames ∨ name = "" ∧ "" ∈ body.inputs) ∧
      ((∀ name, body.defines name = true ↔ name ∈ body.definedNames) ↔ "" ∉ body.inputs) ∧
      (body.origin? "" = none ↔ "" ∉ body.inputs) := by
  have hempty : "" ∉ body.definedNames := by simp [definedNames]
  have hfinds : ∀ name, body.defines name = true ↔
      name ∈ body.definedNames ∨ name = "" ∧ "" ∈ body.inputs := by
    intro name
    by_cases hname : name = ""
    · subst hname
      simp [defines_eq_true_iff, origin?_empty_eq_none_iff, hempty]
    · simp [defines_iff_mem_definedNames hname, hname]
  refine ⟨hfinds, ⟨fun hagree hinput => ?_, fun hnamed name => ?_⟩, origin?_empty_eq_none_iff⟩
  · exact hempty ((hagree "").mp ((hfinds "").mpr (Or.inr ⟨rfl, hinput⟩)))
  · rw [hfinds, or_iff_left fun hboth => hnamed hboth.2]

end Body

/-- A graph with an input that has no name, and a node that leaves a value out. -/
def Graph.namelessInput : Graph where
  nodes := [{ opType := "Clip", inputs := ["x", ""], outputs := ["y"] }]
  inputs := ["x", ""]
  outputs := ["y"]

/-- The graph is well formed. The value that its node leaves out is not among the names that the check
enters, but a search finds it. -/
theorem Graph.defines_empty_namelessInput :
    Graph.namelessInput.checkWellFormed = .ok () ∧ "" ∉ Graph.namelessInput.body.definedNames ∧
      Graph.namelessInput.body.defines "" = true ∧
      Graph.namelessInput.body.origin? "" = some (.input 1) :=
  ⟨rfl, by decide, rfl, rfl⟩

end OpGraph
