import OpGraph.Proofs.Matching.Agreement
import OpGraph.Proofs.Matching.Counting

/-!
Bodies that differ in nothing but the names of their values and the places of their nodes. Where the
nodes of two bodies agree one to one, each value of the left body has one name in the right body;
this is a renaming exactly if the two bodies leave out the same results.
-/

namespace OpGraph

/-- A node with other names, and with attributes that are the same in the given sense. -/
structure Node.RenamedBy (left right : Node) (names : String → String)
    (same : List Attribute → List Attribute → Prop) : Prop where
  opType : left.opType = right.opType
  domain : left.domain = right.domain
  inputs : right.inputs = left.inputs.map names
  outputs : right.outputs = left.outputs.map names
  attributes : same left.attributes right.attributes

/-- A body with other names and with its nodes at other places. Different values have different
names, and what is omitted stays so. -/
structure Body.RenamedBy (left right : Body) (names : String → String) (place? : Nat → Option Nat)
    (same : List Attribute → List Attribute → Prop) : Prop where
  bijection : NodeBijection place? left.nodes.length right.nodes.length
  omitted : ∀ name, names name = "" ↔ name = ""
  injective : ∀ name ∈ left.definedNames, ∀ name' ∈ left.definedNames, names name = names name' →
    name = name'
  inputs : right.inputs = left.inputs.map names
  outputs : right.outputs = left.outputs.map names
  nodes : ∀ (index index' : Nat) (node node' : Node), place? index = some index' →
    left.nodes[index]? = some node → right.nodes[index']? = some node' →
      node.RenamedBy node' names same

/-- Two values without graphs are equal. Floats may also be compared as numbers. -/
def AttributeValue.Same (left right : AttributeValue) : Prop :=
  left.SamePlain right ∨ left = right ∧ left.subgraphs = []

structure Attribute.Same (left right : Attribute) : Prop where
  name : left.name = right.name
  value : left.value.Same right.value

/-- The same attributes in another order. -/
def SameAttributes (lefts rights : List Attribute) : Prop :=
  ∃ reordered, lefts.Perm reordered ∧ List.Forall₂ Attribute.Same reordered rights

/-- A function with other names, labels and places of nodes, and with attributes, formal parameters
and imports in another order. A formal parameter that is listed twice is still one. -/
structure Function.RenamedBy (left right : Function) (names : String → String)
    (place? : Nat → Option Nat) : Prop where
  body : left.body.RenamedBy right.body names place? SameAttributes
  parameters : ∀ name, name ∈ left.parameters ↔ name ∈ right.parameters
  imports : left.opsetImports.Perm right.opsetImports

/-- Two lists of names leave out the same values; so they are equally long. -/
def SameOmissions (lefts rights : List String) : Prop := lefts.map (· == "") = rights.map (· == "")

/-- Two bodies leave out the same inputs, and partners leave out the same outputs. -/
structure Body.SameOmissions (left right : Body) (partner? : Nat → Option Nat) : Prop where
  inputs : OpGraph.SameOmissions left.inputs right.inputs
  outputs : ∀ (index index' : Nat) (node node' : Node), partner? index = some index' →
    left.nodes[index]? = some node → right.nodes[index']? = some node' →
      OpGraph.SameOmissions node.outputs node'.outputs

section Lists

variable {lefts rights : List String} {names : String → String}

theorem sameOmissions_map (homitted : ∀ name, names name = "" ↔ name = "") :
    SameOmissions lefts (lefts.map names) := by
  rw [SameOmissions, List.map_map]
  refine List.map_congr_left fun name _ => ?_
  simp [homitted]

theorem SameOmissions.getElem? {slot : Nat} {name : String} (homitted : SameOmissions lefts rights)
    (hslot : lefts[slot]? = some name) :
    ∃ name', rights[slot]? = some name' ∧ (name' = "" ↔ name = "") := by
  have hmap := congrArg (·[slot]?) homitted
  simp only [List.getElem?_map, hslot, Option.map_some] at hmap
  obtain ⟨name', hslot', hname⟩ := Option.map_eq_some_iff.mp hmap.symm
  exact ⟨name', hslot', by simpa using congrArg (· = true) hname⟩

/-- Lists that leave out the same values differ in the names of the others. -/
theorem SameOmissions.eq_map (homitted : SameOmissions lefts rights) (hempty : names "" = "")
    (hnames : ∀ (slot : Nat) (name name' : String), name ≠ "" → name' ≠ "" →
      lefts[slot]? = some name → rights[slot]? = some name' → names name = name') :
    rights = lefts.map names := by
  refine List.ext_getElem? fun slot => ?_
  rw [List.getElem?_map]
  cases hslot : lefts[slot]? with
  | none =>
      have hlength : lefts.length = rights.length := by
        simpa using congrArg List.length homitted
      rw [List.getElem?_eq_none_iff] at hslot
      exact List.getElem?_eq_none (hlength ▸ hslot)
  | some name =>
      obtain ⟨name', hslot', hiff⟩ := homitted.getElem? hslot
      rw [hslot', Option.map_some, Option.some.injEq]
      by_cases hname : name = ""
      · rw [hiff.mpr hname, hname, hempty]
      · exact (hnames slot name name' hname (fun hname' => hname (hiff.mp hname')) hslot
          hslot').symm

end Lists

section Attributes

/-- Values that agree and hold no graphs are equal. -/
theorem ValuesAgree.same {rule : GraphRule} {layers : List Layer} {left right : AttributeValue}
    (hagree : ValuesAgree rule layers left right) (hplain : left.subgraphs = []) :
    left.Same right := by
  cases hagree with
  | plain hvalues => exact Or.inl hvalues
  | graph hgraph => cases hplain
  | graphs hlength hgraphs =>
      obtain rfl : _ = [] := hplain
      obtain rfl := List.length_eq_zero_iff.mp hlength.symm
      exact Or.inr ⟨rfl, rfl⟩

/-- Attributes without repeated names that are the same name by name are so in some order. -/
theorem sameAttributes_of_names {lefts rights : List Attribute}
    (hlefts : (lefts.map Attribute.name).Nodup) (hrights : (rights.map Attribute.name).Nodup)
    (hnames : ∀ name, name ∈ lefts.map Attribute.name ↔ name ∈ rights.map Attribute.name)
    (hvalues : ∀ attr ∈ lefts, ∀ attr' ∈ rights, attr.name = attr'.name →
      attr.value.Same attr'.value) : SameAttributes lefts rights := by
  have hpartner : ∀ attr' ∈ rights, ∃ attr ∈ lefts, attr.name = attr'.name := by
    intro attr' hattr'
    exact List.mem_map.mp ((hnames attr'.name).mpr (List.mem_map_of_mem hattr'))
  choose! partner hmem hname using hpartner
  have hsameNames : (rights.map partner).map Attribute.name = rights.map Attribute.name := by
    rw [List.map_map]
    exact List.map_congr_left hname
  have hnodup : ((rights.map partner).map Attribute.name).Nodup := hsameNames ▸ hrights
  refine ⟨rights.map partner, ?_, ?_⟩
  · refine (List.perm_ext_iff_of_nodup hlefts.of_map hnodup.of_map).mpr fun attr => ?_
    rw [List.mem_map]
    constructor
    · intro hattr
      obtain ⟨attr', hattr', heq⟩ :=
        List.mem_map.mp ((hnames attr.name).mp (List.mem_map_of_mem hattr))
      refine ⟨attr', hattr', List.inj_on_of_nodup_map hlefts (hmem attr' hattr') hattr ?_⟩
      exact (hname attr' hattr').trans heq
    · rintro ⟨attr', hattr', rfl⟩
      exact hmem attr' hattr'
  · rw [List.forall₂_map_left_iff]
    refine List.forall₂_same.mpr fun attr' hattr' => ⟨hname attr' hattr', ?_⟩
    exact hvalues _ (hmem attr' hattr') attr' hattr' (hname attr' hattr')

end Attributes

/-- The place in the right body that a place of the left one corresponds to. -/
def Origin.moved? (place? : Nat → Option Nat) : Origin → Option Origin
  | .input slot => some (.input slot)
  | .output index slot => (place? index).map fun index' => .output index' slot

/-- The name that a value of the left body has in the right one. -/
def Body.newName (left right : Body) (place? : Nat → Option Nat) (name : String) : String :=
  if name = "" then ""
  else (((left.origin? name).bind (Origin.moved? place?)).bind right.nameAt?).getD name

section Places

variable {origin origin' : Origin} {place? : Nat → Option Nat}

theorem OriginsMatch.moved? (hmatch : OriginsMatch place? origin origin') :
    origin.moved? place? = some origin' := by
  cases hmatch with
  | input slot => rfl
  | output slot hplace => rw [Origin.moved?, hplace, Option.map_some]

/-- Places that correspond to the same place are the same. -/
theorem OriginsMatch.left_unique {other : Origin}
    (hinjective : ∀ index other index', place? index = some index' → place? other = some index' →
      index = other)
    (hmatch : OriginsMatch place? origin origin') (hother : OriginsMatch place? other origin') :
    origin = other := by
  cases hmatch with
  | input slot =>
      cases hother
      rfl
  | output slot hplace =>
      cases hother with
      | output _ hplace' => rw [hinjective _ _ _ hplace hplace']

theorem OriginsMatch.right_unique {other : Origin} (hmatch : OriginsMatch place? origin origin')
    (hother : OriginsMatch place? origin other) : origin' = other :=
  Option.some.inj (hmatch.moved?.symm.trans hother.moved?)

end Places

section Renamings

variable {left right : Body} {partner? : Nat → Option Nat} {name name' : String}
  {origin origin' : Origin}

@[simp] theorem Body.newName_empty : left.newName right partner? "" = "" := if_pos rfl

/-- The new name of a value is the one at the place that its own corresponds to. -/
theorem Body.newName_eq (hname : name ≠ "") (horigin : left.origin? name = some origin)
    (hmatch : OriginsMatch partner? origin origin') (horigin' : right.nameAt? origin' = some name') :
    left.newName right partner? name = name' := by
  rw [newName, if_neg hname, horigin, Option.bind_some, hmatch.moved?, Option.bind_some, horigin',
    Option.getD_some]

/-- Bodies that leave out the same values define theirs at places that correspond. -/
theorem Body.SameOmissions.exists_defines (homitted : left.SameOmissions right partner?)
    (hbijection : NodeBijection partner? left.nodes.length right.nodes.length)
    (hdefines : left.Defines name origin) :
    ∃ name' origin', OriginsMatch partner? origin origin' ∧ right.Defines name' origin' := by
  cases hdefines with
  | input hname hslot =>
      obtain ⟨name', hslot', hiff⟩ := homitted.inputs.getElem? hslot
      exact ⟨name', _, .input _, .input (fun hname' => hname (hiff.mp hname')) hslot'⟩
  | @output index slot node hname hnode hslot =>
      obtain ⟨hindex, _⟩ := List.getElem?_eq_some_iff.mp hnode
      obtain ⟨index', hpartner⟩ := hbijection.total index hindex
      obtain ⟨_, hindex'⟩ := hbijection.in_range index index' hpartner
      have hnode' : right.nodes[index']? = some right.nodes[index'] :=
        List.getElem?_eq_getElem hindex'
      obtain ⟨name', hslot', hiff⟩ :=
        (homitted.outputs index index' node _ hpartner hnode hnode').getElem? hslot
      exact ⟨name', _, .output slot hpartner,
        .output (fun hname' => hname (hiff.mp hname')) hnode' hslot'⟩

/-- The new name of a value is defined at the place that its own corresponds to. -/
theorem Body.SameOmissions.defines_newName (homitted : left.SameOmissions right partner?)
    (hbijection : NodeBijection partner? left.nodes.length right.nodes.length)
    (hunique : left.UniqueNames) (hdefines : left.Defines name origin) :
    ∃ origin', OriginsMatch partner? origin origin' ∧
      right.Defines (left.newName right partner? name) origin' := by
  obtain ⟨name', origin', hmatch, hdefines'⟩ := homitted.exists_defines hbijection hdefines
  rw [Body.newName_eq hdefines.name_ne_empty (hdefines.origin? hunique) hmatch hdefines'.nameAt?]
  exact ⟨origin', hmatch, hdefines'⟩

/-- Names that agree in bodies which leave out the same inputs are an old name and its new one. -/
theorem Body.SameOmissions.newName_of_agrees (homitted : left.SameOmissions right partner?)
    (hagrees : Agrees [⟨left, right, partner?⟩] name name') :
    left.newName right partner? name = name' := by
  cases hagrees with
  | outward _ _ houter => cases houter
  | here horigin horigin' hmatch =>
      by_cases hname : name = ""
      · subst hname
        rw [Body.newName_empty]
        have hnameAt := Body.nameAt?_of_origin? horigin
        have hnameAt' := Body.nameAt?_of_origin? horigin'
        cases hmatch with
        | output slot _ => exact absurd rfl (Body.defines_of_origin?_eq_output horigin).name_ne_empty
        | input slot =>
            obtain ⟨empty, hslot, hiff⟩ := homitted.inputs.getElem? hnameAt
            rw [Body.nameAt?, hslot, Option.some.injEq] at hnameAt'
            exact (hiff.mpr rfl).symm.trans hnameAt'
      · exact Body.newName_eq hname horigin hmatch (Body.nameAt?_of_origin? horigin')

theorem Body.SameOmissions.map_newName {lefts rights : List String}
    (homitted : left.SameOmissions right partner?)
    (hagree : List.Forall₂ (Agrees [⟨left, right, partner?⟩]) lefts rights) :
    rights = lefts.map (left.newName right partner?) := by
  induction hagree with
  | nil => rfl
  | cons hhead _ ih => rw [List.map_cons, homitted.newName_of_agrees hhead, ← ih]

/-- Bodies that agree, all nodes of which are partners, differ in names and places only if they
leave out the same values. -/
theorem Body.renamedBy_of_bodiesAgree {rule : GraphRule} (hunique : left.UniqueNames)
    (hunique' : right.UniqueNames)
    (hattributes : ∀ node ∈ left.nodes, (node.attributes.map Attribute.name).Nodup)
    (hattributes' : ∀ node ∈ right.nodes, (node.attributes.map Attribute.name).Nodup)
    (hplain : ∀ node ∈ left.nodes, ∀ graph, ¬ node.Carries graph)
    (hbijection : NodeBijection partner? left.nodes.length right.nodes.length)
    (hagree : BodiesAgree rule [] left right partner?)
    (homitted : left.SameOmissions right partner?) :
    left.RenamedBy right (left.newName right partner?) partner? SameAttributes where
  bijection := hbijection
  omitted name := by
    refine ⟨fun hempty => ?_, fun hname => by rw [hname, newName_empty]⟩
    by_contra hname
    cases horigin : left.origin? name with
    | none =>
        rw [newName, if_neg hname, horigin] at hempty
        exact hname hempty
    | some origin =>
        obtain ⟨_, _, hdefines⟩ := homitted.defines_newName hbijection hunique
          (defines_of_origin? hname horigin)
        exact hdefines.name_ne_empty hempty
  injective name hname name' hname' heq := by
    obtain ⟨origin, hdefines⟩ := exists_defines_of_mem hname
    obtain ⟨origin', hdefines'⟩ := exists_defines_of_mem hname'
    obtain ⟨moved, hmatch, hmoved⟩ := homitted.defines_newName hbijection hunique hdefines
    obtain ⟨moved', hmatch', hmoved'⟩ := homitted.defines_newName hbijection hunique hdefines'
    rw [heq] at hmoved
    rw [hmoved.unique hunique' hmoved'] at hmatch
    have horigin := hmatch.left_unique hbijection.injective hmatch'
    have hsame := hdefines.nameAt?.symm.trans (horigin ▸ hdefines'.nameAt?)
    exact Option.some.inj hsame
  inputs := by
    refine homitted.inputs.eq_map newName_empty fun slot name name' hname hname' hslot hslot' => ?_
    exact newName_eq hname ((Defines.input hname hslot).origin? hunique) (.input slot) hslot'
  outputs := homitted.map_newName hagree.outputs
  nodes index index' node node' hpartner hnode hnode' := by
    have hmem := List.mem_of_getElem? hnode
    obtain ⟨htype, hdomain, hinputs, hnames, hvalues⟩ :=
      hagree.nodes index index' node node' hpartner hnode hnode'
    refine ⟨htype, hdomain, homitted.map_newName hinputs, ?_, ?_⟩
    · have houtputs := homitted.outputs index index' node node' hpartner hnode hnode'
      refine houtputs.eq_map newName_empty fun slot name name' hname hname' hslot hslot' => ?_
      exact newName_eq hname ((Defines.output hname hnode hslot).origin? hunique)
        (.output slot hpartner) (Defines.output hname' hnode' hslot').nameAt?
    · refine sameAttributes_of_names (hattributes node hmem)
        (hattributes' node' (List.mem_of_getElem? hnode')) hnames
        fun attr hattr attr' hattr' hname => ?_
      refine (hvalues attr hattr attr' hattr' hname).same (List.eq_nil_iff_forall_not_mem.mpr ?_)
      exact fun graph hgraph => hplain node hmem graph ⟨attr, hattr, hgraph⟩

/-- Bodies that differ in names and places only leave out the same values. -/
theorem Body.RenamedBy.sameOmissions {names : String → String}
    {same : List Attribute → List Attribute → Prop}
    (hrenamed : left.RenamedBy right names partner? same) : left.SameOmissions right partner? where
  inputs := hrenamed.inputs ▸ sameOmissions_map hrenamed.omitted
  outputs index index' node node' hpartner hnode hnode' := by
    rw [(hrenamed.nodes index index' node node' hpartner hnode hnode').outputs]
    exact sameOmissions_map hrenamed.omitted

end Renamings

section Renamed

theorem inputDefinitions_map (names : String → String) (inputs : List String) :
    inputDefinitions (inputs.map names) =
      (inputDefinitions inputs).map fun definition => (names definition.1, definition.2) := by
  rw [inputDefinitions, inputDefinitions, List.zipIdx_map, List.map_map, List.map_map]
  rfl

/-- Where no other key becomes this one, it is looked up as before. -/
theorem lookup_map_fst {α β : Type} [BEq α] [LawfulBEq α] {change : α → α} {key : α}
    (hkey : ∀ other, change other = key ↔ other = key) (entries : List (α × β)) :
    (entries.map fun entry => (change entry.1, entry.2)).lookup key = entries.lookup key := by
  induction entries with
  | nil => rfl
  | cons entry rest ih =>
      have hiff : (key == change entry.1) = (key == entry.1) := by
        rw [Bool.eq_iff_iff, beq_iff_eq, beq_iff_eq, eq_comm, hkey, eq_comm]
      rw [List.map_cons, List.lookup_cons, List.lookup_cons, hiff, ih]

variable {left right : Body} {names : String → String} {place? : Nat → Option Nat}
  {same : List Attribute → List Attribute → Prop} {name name' : String} {origin origin' : Origin}

theorem Body.RenamedBy.inputs_length (hrenamed : left.RenamedBy right names place? same) :
    left.inputs.length = right.inputs.length := by
  rw [hrenamed.inputs, List.length_map]

/-- A value is defined under its new name, at the place that its own corresponds to. -/
theorem Body.RenamedBy.defines (hrenamed : left.RenamedBy right names place? same)
    (hdefines : left.Defines name origin) :
    ∃ origin', OriginsMatch place? origin origin' ∧ right.Defines (names name) origin' := by
  have hname : names name ≠ "" := fun hempty =>
    hdefines.name_ne_empty ((hrenamed.omitted name).mp hempty)
  cases hdefines with
  | @input slot _ hslot =>
      refine ⟨_, .input slot, .input hname ?_⟩
      rw [hrenamed.inputs, List.getElem?_map, hslot, Option.map_some]
  | @output index slot node _ hnode hslot =>
      obtain ⟨index', hplace⟩ := hrenamed.bijection.total index (List.getElem?_eq_some_iff.mp hnode).1
      have hnode' : right.nodes[index']? = some _ :=
        List.getElem?_eq_getElem (hrenamed.bijection.in_range index index' hplace).2
      refine ⟨_, .output slot hplace, .output hname hnode' ?_⟩
      rw [(hrenamed.nodes index index' node _ hplace hnode hnode').outputs, List.getElem?_map, hslot,
        Option.map_some]

/-- Only the new names of values are defined. -/
theorem Body.RenamedBy.exists_defines (hrenamed : left.RenamedBy right names place? same)
    (hdefines : right.Defines name' origin') :
    ∃ name origin, names name = name' ∧ OriginsMatch place? origin origin' ∧
      left.Defines name origin := by
  have hold : ∀ name, names name = name' → name ≠ "" := by
    rintro name hname rfl
    exact hdefines.name_ne_empty (hname.symm.trans ((hrenamed.omitted "").mpr rfl))
  cases hdefines with
  | @input slot _ hslot =>
      rw [hrenamed.inputs, List.getElem?_map] at hslot
      obtain ⟨name, hslot, hname⟩ := Option.map_eq_some_iff.mp hslot
      exact ⟨name, _, hname, .input slot, .input (hold name hname) hslot⟩
  | @output index' slot node' _ hnode' hslot =>
      obtain ⟨index, hplace⟩ := hrenamed.bijection.onto index' (List.getElem?_eq_some_iff.mp hnode').1
      have hnode : left.nodes[index]? = some _ :=
        List.getElem?_eq_getElem (hrenamed.bijection.in_range index index' hplace).1
      rw [(hrenamed.nodes index index' _ node' hplace hnode hnode').outputs,
        List.getElem?_map] at hslot
      obtain ⟨name, hslot, hname⟩ := Option.map_eq_some_iff.mp hslot
      exact ⟨name, _, hname, .output slot hplace, .output (hold name hname) hnode hslot⟩

theorem Body.RenamedBy.mem_definedNames (hrenamed : left.RenamedBy right names place? same)
    (hname : name ∈ left.definedNames) : names name ∈ right.definedNames := by
  obtain ⟨origin, hdefines⟩ := Body.exists_defines_of_mem hname
  obtain ⟨origin', _, hdefines'⟩ := hrenamed.defines hdefines
  exact hdefines'.mem_definedNames

/-- A body goes on to define no name twice. -/
theorem Body.RenamedBy.uniqueNames (hrenamed : left.RenamedBy right names place? same)
    (hunique : left.UniqueNames) : right.UniqueNames := by
  refine Body.uniqueNames_of_origins fun name' origin' other' hdefines' hother' => ?_
  obtain ⟨name, origin, rfl, hmatch, hdefines⟩ := hrenamed.exists_defines hdefines'
  obtain ⟨other, origin₂, heq, hmatch', hother⟩ := hrenamed.exists_defines hother'
  obtain rfl := hrenamed.injective other hother.mem_definedNames name hdefines.mem_definedNames heq
  rw [hother.unique hunique hdefines] at hmatch'
  exact hmatch.right_unique hmatch'

/-- The empty name is found at the same input, if at all. -/
theorem Body.RenamedBy.origin?_empty (hrenamed : left.RenamedBy right names place? same) :
    right.origin? "" = left.origin? "" := by
  rw [Body.origin?_empty, Body.origin?_empty, hrenamed.inputs, inputDefinitions_map,
    ← List.map_reverse, lookup_map_fst hrenamed.omitted]

end Renamed

end OpGraph
