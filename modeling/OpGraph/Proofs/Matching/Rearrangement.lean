import OpGraph.Proofs.Matching.Renaming
import OpGraph.Proofs.Scoping.Enclosing

/-!
Two presentations of the same operand. In every scope, at any depth, the nodes may stand at other
places and the values may have other names: one to one, and so that no name is captured by a graph
that does not mean it. Labels of nodes and names of graphs and functions are free.
-/

namespace OpGraph

mutual

/-- A graph presented in another way, inside of a scope whose names are changed by `outer`. What the
graph does not define is changed as it is around it, and what it uses from there keeps its meaning.
-/
inductive GraphRearranged : (String → String) → Graph → Graph → Prop where
  | intro {outer : String → String} {left right : Graph} (names : String → String)
      (place? : Nat → Option Nat) :
      NodeBijection place? left.nodes.length right.nodes.length →
      (∀ name, names name = "" ↔ name = "") →
      (∀ name ∈ left.body.definedNames, ∀ name' ∈ left.body.definedNames,
        names name = names name' → name = name') →
      right.inputs = left.inputs.map names → right.outputs = left.outputs.map names →
      (∀ (index index' : Nat) (node node' : Node), place? index = some index' →
        left.nodes[index]? = some node → right.nodes[index']? = some node' →
          NodeRearranged names node node') →
      (∀ name ∉ left.body.definedNames, names name = outer name) →
      (∀ name, left.body.Captures name → outer name ∉ right.body.definedNames) →
      left.initializers = right.initializers →
      left.sparseInitializers = right.sparseInitializers →
      GraphRearranged outer left right

/-- A node with other names, and with its graphs presented in another way. -/
inductive NodeRearranged : (String → String) → Node → Node → Prop where
  | intro {names : String → String} {left right : Node} :
      left.opType = right.opType → left.domain = right.domain →
      right.inputs = left.inputs.map names → right.outputs = left.outputs.map names →
      left.attributes.map Attribute.name = right.attributes.map Attribute.name →
      (∀ (place : Nat) (attr attr' : Attribute), left.attributes[place]? = some attr →
        right.attributes[place]? = some attr' → ValueRearranged names attr.value attr'.value) →
      NodeRearranged names left right

/-- A value of an attribute with its graphs presented in another way. -/
inductive ValueRearranged : (String → String) → AttributeValue → AttributeValue → Prop where
  | plain {names : String → String} {value : AttributeValue} : (∀ graph, value ≠ .graph graph) →
      (∀ graphs, value ≠ .graphs graphs) → ValueRearranged names value value
  | graph {names : String → String} {left right : Graph} : GraphRearranged names left right →
      ValueRearranged names (.graph left) (.graph right)
  | graphs {names : String → String} {lefts rights : List Graph} : lefts.length = rights.length →
      (∀ (place : Nat) (left right : Graph), lefts[place]? = some left →
        rights[place]? = some right → GraphRearranged names left right) →
      ValueRearranged names (.graphs lefts) (.graphs rights)

end

structure AttributeRearranged (names : String → String) (left right : Attribute) : Prop where
  name : left.name = right.name
  value : ValueRearranged names left.value right.value

/-- Lists of attributes are presented one by one. -/
def AttributesRearranged (names : String → String) : List Attribute → List Attribute → Prop :=
  List.Forall₂ (AttributeRearranged names)

/-- What the names in a nested graph have to do with those around it. -/
structure Graph.NamedWithin (outer names : String → String) (left right : Graph) : Prop where
  outside : ∀ name ∉ left.body.definedNames, names name = outer name
  captures : ∀ name, left.body.Captures name → outer name ∉ right.body.definedNames

/-- A function presented in another way, with its nodes at the given places. -/
structure Function.Rearranged (left right : Function) (place? : Nat → Option Nat) : Prop where
  body : ∃ names, left.body.RenamedBy right.body names place? (AttributesRearranged names)
  parameters : left.parameters = right.parameters
  imports : left.opsetImports = right.opsetImports

/-- A graph presented in another way, with its nodes at the given places. -/
structure Graph.Rearranged (left right : Graph) (place? : Nat → Option Nat) : Prop where
  body : ∃ names, left.body.RenamedBy right.body names place? (AttributesRearranged names)
  initializers : left.initializers = right.initializers
  sparseInitializers : left.sparseInitializers = right.sparseInitializers

section Parts

variable {names outer : String → String}

theorem attributesRearranged_iff {lefts rights : List Attribute} :
    AttributesRearranged names lefts rights ↔
      lefts.map Attribute.name = rights.map Attribute.name ∧
        ∀ (place : Nat) (attr attr' : Attribute), lefts[place]? = some attr →
          rights[place]? = some attr' → ValueRearranged names attr.value attr'.value := by
  rw [AttributesRearranged, ← List.forall₂_eq_eq_eq, List.forall₂_map_left_iff,
    List.forall₂_map_right_iff, forall₂_iff_getElem?, forall₂_iff_getElem?, and_assoc,
    ← forall_and]
  refine and_congr_right fun _ => forall_congr' fun place => ?_
  constructor
  · intro hsame
    exact ⟨fun attr attr' hattr hattr' => (hsame attr attr' hattr hattr').name,
      fun attr attr' hattr hattr' => (hsame attr attr' hattr hattr').value⟩
  · rintro ⟨hname, hvalue⟩ attr attr' hattr hattr'
    exact ⟨hname attr attr' hattr hattr', hvalue attr attr' hattr hattr'⟩

theorem nodeRearranged_iff {left right : Node} :
    NodeRearranged names left right ↔ left.RenamedBy right names (AttributesRearranged names) := by
  constructor
  · rintro ⟨htype, hdomain, hinputs, houtputs, hnames, hvalues⟩
    exact ⟨htype, hdomain, hinputs, houtputs, attributesRearranged_iff.mpr ⟨hnames, hvalues⟩⟩
  · rintro ⟨htype, hdomain, hinputs, houtputs, hattributes⟩
    obtain ⟨hnames, hvalues⟩ := attributesRearranged_iff.mp hattributes
    exact .intro htype hdomain hinputs houtputs hnames hvalues

theorem graphRearranged_iff {left right : Graph} :
    GraphRearranged outer left right ↔ ∃ names place?,
      left.body.RenamedBy right.body names place? (AttributesRearranged names) ∧
        left.NamedWithin outer names right ∧ left.initializers = right.initializers ∧
        left.sparseInitializers = right.sparseInitializers := by
  constructor
  · rintro ⟨names, place?, hbijection, homitted, hinjective, hinputs, houtputs, hnodes, houtside,
      hcaptures, hdense, hsparse⟩
    refine ⟨names, place?, ⟨hbijection, homitted, hinjective, hinputs, houtputs, ?_⟩,
      ⟨houtside, hcaptures⟩, hdense, hsparse⟩
    intro index index' node node' hplace hnode hnode'
    exact nodeRearranged_iff.mp (hnodes index index' node node' hplace hnode hnode')
  · rintro ⟨names, place?, hrenamed, ⟨houtside, hcaptures⟩, hdense, hsparse⟩
    refine .intro names place? hrenamed.bijection hrenamed.omitted hrenamed.injective
      hrenamed.inputs hrenamed.outputs ?_ houtside hcaptures hdense hsparse
    intro index index' node node' hplace hnode hnode'
    exact nodeRearranged_iff.mpr (hrenamed.nodes index index' node node' hplace hnode hnode')

end Parts

section Reflexivity

/-- Each of so many nodes at its own place. -/
def ownPlace? (count index : Nat) : Option Nat := if index < count then some index else none

theorem ownPlace?_eq_some_iff {count index index' : Nat} :
    ownPlace? count index = some index' ↔ index < count ∧ index = index' := by
  simp [ownPlace?]

theorem nodeBijection_ownPlace? (count : Nat) : NodeBijection (ownPlace? count) count count where
  in_range index index' hplace := by
    obtain ⟨hindex, rfl⟩ := ownPlace?_eq_some_iff.mp hplace
    exact ⟨hindex, hindex⟩
  total index hindex := ⟨index, ownPlace?_eq_some_iff.mpr ⟨hindex, rfl⟩⟩
  injective index index' place hplace hplace' := by
    obtain ⟨_, rfl⟩ := ownPlace?_eq_some_iff.mp hplace
    exact (ownPlace?_eq_some_iff.mp hplace').2.symm
  onto index hindex := ⟨index, ownPlace?_eq_some_iff.mpr ⟨hindex, rfl⟩⟩

theorem Body.renamedBy_self {body : Body} {same : List Attribute → List Attribute → Prop}
    (hnodes : ∀ node ∈ body.nodes, same node.attributes node.attributes) :
    body.RenamedBy body id (ownPlace? body.nodes.length) same where
  bijection := nodeBijection_ownPlace? _
  omitted _ := Iff.rfl
  injective _ _ _ _ hname := hname
  inputs := (List.map_id _).symm
  outputs := (List.map_id _).symm
  nodes index index' node node' hplace hnode hnode' := by
    obtain ⟨_, rfl⟩ := ownPlace?_eq_some_iff.mp hplace
    obtain rfl := Option.some.inj (hnode.symm.trans hnode')
    exact ⟨rfl, rfl, (List.map_id _).symm, (List.map_id _).symm,
      hnodes node (List.mem_of_getElem? hnode)⟩

theorem valueRearranged_self {names : String → String} {value : AttributeValue}
    (hgraphs : ∀ graph ∈ value.subgraphs, GraphRearranged names graph graph) :
    ValueRearranged names value value := by
  cases value with
  | graph graph => exact .graph (hgraphs graph List.mem_cons_self)
  | graphs graphs =>
      refine .graphs rfl fun place graph graph' hplace hplace' => ?_
      rw [hplace, Option.some.injEq] at hplace'
      exact hplace' ▸ hgraphs graph (List.mem_of_getElem? hplace)
  | _ => exact .plain nofun nofun

/-- A node may be left as it is. -/
theorem Node.rearranged_self (node : Node) : NodeRearranged id node node := by
  induction node using Node.carried_induction with
  | hstep node ih =>
      refine nodeRearranged_iff.mpr ⟨rfl, rfl, (List.map_id _).symm, (List.map_id _).symm, ?_⟩
      refine List.forall₂_same.mpr fun attr hattr => ⟨rfl, valueRearranged_self ?_⟩
      intro graph hgraph
      have hinner := ih graph ⟨attr, hattr, hgraph⟩
      refine graphRearranged_iff.mpr ⟨id, _, Body.renamedBy_self ?_, ⟨fun _ _ => rfl, ?_⟩, rfl, rfl⟩
      · exact fun inner hmem => (nodeRearranged_iff.mp (hinner inner hmem)).attributes
      · exact fun name hcaptures => Body.notMem_definedNames_of_lacks hcaptures.lacks

/-- An operand may be left as it is, so only one of two operands need be presented in another way. -/
theorem Body.rearranged_self (body : Body) :
    body.RenamedBy body id (ownPlace? body.nodes.length) (AttributesRearranged id) :=
  Body.renamedBy_self fun node _ => (nodeRearranged_iff.mp node.rearranged_self).attributes

theorem Function.rearranged_self (function : Function) :
    function.Rearranged function (ownPlace? function.nodes.length) :=
  ⟨⟨id, function.body.rearranged_self⟩, rfl, rfl⟩

theorem Graph.rearranged_self (graph : Graph) :
    graph.Rearranged graph (ownPlace? graph.nodes.length) :=
  ⟨⟨id, graph.body.rearranged_self⟩, rfl, rfl⟩

end Reflexivity

section WellFormed

/-- The same parameters are in sight, and whatever is in sight is so under its new name. -/
structure Surroundings.RenamedBy (around around' : Surroundings) (names : String → String) :
    Prop where
  parameters : around.parameters = around'.parameters
  visible : ∀ name, around.isVisible name = true → around'.isVisible (names name) = true

variable {around around' : Surroundings} {outer names : String → String}
  {place? : Nat → Option Nat}

/-- What a body defines is in sight inside of it under its new name. -/
theorem Surroundings.RenamedBy.enter {left right : Body}
    {same : List Attribute → List Attribute → Prop}
    (hparameters : around.parameters = around'.parameters)
    (hrenamed : left.RenamedBy right names place? same)
    (houter : ∀ name ∉ left.definedNames, around.isVisible name = true →
      around'.isVisible (names name) = true) :
    (around.enter left.definedNames).RenamedBy (around'.enter right.definedNames) names where
  parameters := hparameters
  visible name hvisible := by
    by_cases hmem : name ∈ left.definedNames
    · exact Surroundings.isVisible_enter.mpr (Or.inl (hrenamed.mem_definedNames hmem))
    · rcases Surroundings.isVisible_enter.mp hvisible with hmem' | hvisible'
      · exact absurd hmem' hmem
      · exact Surroundings.isVisible_enter.mpr (Or.inr (houter name hmem hvisible'))

/-- A body presented in another way is in order, if its nodes are. -/
theorem Body.RenamedBy.checkBody {left right : Body}
    {same : List Attribute → List Attribute → Prop} {scope scope' : List String}
    (hrenamed : left.RenamedBy right names place? same)
    (hinner : (around.enter left.definedNames).RenamedBy (around'.enter right.definedNames) names)
    (hattributes : ∀ (index index' : Nat) (node node' : Node), place? index = some index' →
      left.nodes[index]? = some node → right.nodes[index']? = some node' →
      ∀ user user', (around.enter left.definedNames).checkAttributes scope user []
          node.attributes = .ok () →
        (around'.enter right.definedNames).checkAttributes scope' user' [] node'.attributes = .ok ())
    (hcheck : around.checkBody scope left (fun inner => inner.checkNodes scope 0 left.nodes) =
      .ok ()) :
    around'.checkBody scope' right (fun inner => inner.checkNodes scope' 0 right.nodes) = .ok () := by
  obtain ⟨hunique, hnodes, houtputs⟩ := Surroundings.checkBody_eq_ok_iff.mp hcheck
  refine Surroundings.checkBody_eq_ok_iff.mpr ⟨hrenamed.uniqueNames hunique, ?_, ?_⟩
  · refine Surroundings.checkNodes_eq_ok_iff.mpr fun index' node' hnode' => ?_
    obtain ⟨index, hplace⟩ := hrenamed.bijection.onto index' (List.getElem?_eq_some_iff.mp hnode').1
    have hnode : left.nodes[index]? = some _ :=
      List.getElem?_eq_getElem (hrenamed.bijection.in_range index index' hplace).1
    obtain ⟨hinputs, hattrs⟩ := Surroundings.checkNodes_eq_ok_iff.mp hnodes index _ hnode
    refine ⟨Surroundings.checkInputs_eq_ok_iff.mpr fun name' hname' hne => ?_,
      hattributes index index' _ node' hplace hnode hnode' _ _ hattrs⟩
    rw [(hrenamed.nodes index index' _ node' hplace hnode hnode').inputs, List.mem_map] at hname'
    obtain ⟨name, hname, rfl⟩ := hname'
    refine hinner.visible name (Surroundings.checkInputs_eq_ok_iff.mp hinputs name hname ?_)
    exact fun hempty => hne ((hrenamed.omitted name).mpr hempty)
  · intro name' hname'
    rw [hrenamed.outputs, List.mem_map] at hname'
    obtain ⟨name, hname, rfl⟩ := hname'
    exact hinner.visible name (houtputs name hname)

mutual

/-- A well-formed graph is so in any presentation. -/
theorem GraphRearranged.checkGraph {around around' : Surroundings} {outer : String → String}
    {scope scope' : List String} {left right : Graph} (haround : around.RenamedBy around' outer)
    (hcheck : around.checkGraph scope left = .ok ()) :
    GraphRearranged outer left right → around'.checkGraph scope' right = .ok ()
  | .intro names place? hbijection homitted hinjective hinputs houtputs hnodes houtside _ _ _ => by
      have hrenamed : left.body.RenamedBy right.body names place? (AttributesRearranged names) := by
        refine ⟨hbijection, homitted, hinjective, hinputs, houtputs, ?_⟩
        intro index index' node node' hplace hnode hnode'
        exact nodeRearranged_iff.mp (hnodes index index' node node' hplace hnode hnode')
      have hinner := Surroundings.RenamedBy.enter haround.parameters hrenamed fun name hname hvisible =>
        (houtside name hname).symm ▸ haround.visible name hvisible
      refine Surroundings.checkGraph_eq_ok_iff.mpr (hrenamed.checkBody hinner ?_
        (Surroundings.checkGraph_eq_ok_iff.mp hcheck))
      intro index index' node node' hplace hnode hnode' user user' hattributes
      exact NodeRearranged.checkAttributes hinner hattributes
        (hnodes index index' node node' hplace hnode hnode')

theorem NodeRearranged.checkAttributes {around around' : Surroundings} {names : String → String}
    {scope scope' : List String} {user user' : ValueUser} {left right : Node}
    (haround : around.RenamedBy around' names)
    (hcheck : around.checkAttributes scope user [] left.attributes = .ok ()) :
    NodeRearranged names left right →
      around'.checkAttributes scope' user' [] right.attributes = .ok ()
  | .intro _ _ _ _ hnames hvalues => by
      obtain ⟨hnodup, _, hchecks⟩ := Surroundings.checkAttributes_eq_ok_iff.mp hcheck
      refine Surroundings.checkAttributes_eq_ok_iff.mpr ⟨hnames ▸ hnodup, by simp, ?_⟩
      intro attr' hattr'
      obtain ⟨place, hplace'⟩ := List.mem_iff_getElem?.mp hattr'
      have hlength : left.attributes.length = right.attributes.length := by
        simpa using congrArg List.length hnames
      obtain ⟨attr, hplace⟩ := exists_getElem?_of_length_eq hlength.symm hplace'
      exact ValueRearranged.checkValue haround
        (hchecks attr (List.mem_of_getElem? hplace)) (hvalues place attr attr' hplace hplace')

theorem ValueRearranged.checkValue {around around' : Surroundings} {names : String → String}
    {scope scope' : List String} {user user' : ValueUser} {attrName attrName' : String}
    {left right : AttributeValue} (haround : around.RenamedBy around' names)
    (hcheck : around.checkValue scope user attrName left = .ok ()) :
    ValueRearranged names left right →
      around'.checkValue scope' user' attrName' right = .ok ()
  | .plain hgraph hgraphs => by
      cases left with
      | graph graph => exact absurd rfl (hgraph graph)
      | graphs graphs => exact absurd rfl (hgraphs graphs)
      | reference target kind =>
          rw [Surroundings.checkValue] at hcheck ⊢
          have hparameter : around'.isParameter target = around.isParameter target := by
            rw [Surroundings.isParameter, Surroundings.isParameter, haround.parameters]
          by_cases htarget : around.isParameter target
          · rw [hparameter, if_pos htarget]
          · rw [if_neg htarget] at hcheck
            cases hcheck
      | _ => rw [Surroundings.checkValue] <;> simp
  | .graph hgraph => by
      rw [Surroundings.checkValue] at hcheck ⊢
      exact GraphRearranged.checkGraph haround hcheck hgraph
  | .graphs hlength hgraphs => by
      rw [Surroundings.checkValue] at hcheck ⊢
      refine Surroundings.checkGraphs_of_forall fun graph' hgraph' inner => ?_
      obtain ⟨place, hplace'⟩ := List.mem_iff_getElem?.mp hgraph'
      obtain ⟨graph, hplace⟩ := exists_getElem?_of_length_eq hlength.symm hplace'
      obtain ⟨_, hgraph⟩ :=
        Surroundings.checkGraphs_eq_ok hcheck graph (List.mem_of_getElem? hplace)
      exact GraphRearranged.checkGraph haround hgraph (hgraphs place graph graph' hplace hplace')

end

/-- An operand presented in another way stands alone, as it did. -/
theorem Body.RenamedBy.checkRoot {left right : Body} {parameters : Option (List String)}
    {scope scope' : List String}
    (hrenamed : left.RenamedBy right names place? (AttributesRearranged names))
    (hcheck : Surroundings.checkBody ⟨parameters, []⟩ scope left
      (fun inner => inner.checkNodes scope 0 left.nodes) = .ok ()) :
    Surroundings.checkBody ⟨parameters, []⟩ scope' right
      (fun inner => inner.checkNodes scope' 0 right.nodes) = .ok () := by
  have hinner : (Surroundings.enter ⟨parameters, []⟩ left.definedNames).RenamedBy
      (Surroundings.enter ⟨parameters, []⟩ right.definedNames) names :=
    .enter rfl hrenamed fun name _ hvisible => absurd hvisible (by simp [Surroundings.isVisible])
  refine hrenamed.checkBody hinner ?_ hcheck
  intro index index' node node' hplace hnode hnode' user user' hattributes
  exact NodeRearranged.checkAttributes hinner hattributes
    (nodeRearranged_iff.mpr (hrenamed.nodes index index' node node' hplace hnode hnode'))

/-- A well-formed function is so in any presentation. -/
theorem Function.Rearranged.checkWellFormed {left right : Function}
    (hrearranged : left.Rearranged right place?) (hcheck : left.checkWellFormed = .ok ()) :
    right.checkWellFormed = .ok () := by
  obtain ⟨⟨names, hrenamed⟩, hparameters, himports⟩ := hrearranged
  obtain ⟨hdomains, hbody⟩ := Function.checkWellFormed_eq_ok_iff.mp hcheck
  refine Function.checkWellFormed_eq_ok_iff.mpr ⟨himports ▸ hdomains, ?_⟩
  rw [← hparameters]
  exact hrenamed.checkRoot hbody

theorem Graph.Rearranged.checkWellFormed {left right : Graph}
    (hrearranged : left.Rearranged right place?) (hcheck : left.checkWellFormed = .ok ()) :
    right.checkWellFormed = .ok () := by
  obtain ⟨⟨names, hrenamed⟩, _⟩ := hrearranged
  exact Surroundings.checkGraph_eq_ok_iff.mpr
    (hrenamed.checkRoot (Surroundings.checkGraph_eq_ok_iff.mp hcheck))

end WellFormed

/-- Two names are found in the same one of nested layers, the innermost of which comes first, at
places that match; or both are found in none of them. -/
inductive FoundAlike : List Layer → String → String → Prop where
  | nowhere {left right : String} : FoundAlike [] left right
  | here {layer : Layer} {outer : List Layer} {left right : String} {origin origin' : Origin} :
      layer.left.origin? left = some origin → layer.right.origin? right = some origin' →
      OriginsMatch layer.partner? origin origin' → FoundAlike (layer :: outer) left right
  | outward {layer : Layer} {outer : List Layer} {left right : String} :
      layer.left.origin? left = none → layer.right.origin? right = none →
      FoundAlike outer left right → FoundAlike (layer :: outer) left right

section Found

variable {left right : Body} {names : String → String} {place? : Nat → Option Nat}
  {same : List Attribute → List Attribute → Prop} {outer : List Layer} {name : String}

/-- A name that a body uses and its new name are found alike, if what the body captures is found
alike around it and is not captured by a new name. -/
theorem Body.RenamedBy.foundAlike (hrenamed : left.RenamedBy right names place? same)
    (hunique : left.UniqueNames)
    (hcaptured : ∀ name, left.Captures name →
      names name ∉ right.definedNames ∧ FoundAlike outer name (names name))
    (huses : left.Uses name) : FoundAlike (⟨left, right, place?⟩ :: outer) name (names name) := by
  have hempty := (hrenamed.omitted "").mpr rfl
  cases horigin : left.origin? name with
  | some origin =>
      by_cases hname : name = ""
      · subst hname
        have horigin' := hrenamed.origin?_empty.trans horigin
        rw [hempty]
        cases origin with
        | input slot => exact .here horigin horigin' (.input slot)
        | output index slot =>
            exact absurd rfl (Body.defines_of_origin?_eq_output horigin).name_ne_empty
      · obtain ⟨origin', hmatch, hdefines⟩ :=
          hrenamed.defines (Body.defines_of_origin? hname horigin)
        exact .here horigin (hdefines.origin? (hrenamed.uniqueNames hunique)) hmatch
  | none =>
      obtain ⟨hfree, houter⟩ := hcaptured name ⟨huses, Body.lacks_of_origin?_eq_none horigin⟩
      refine .outward horigin ?_ houter
      by_cases hname : name = ""
      · subst hname
        rw [hempty, hrenamed.origin?_empty, horigin]
      · have hne : names name ≠ "" := fun hnew => hname ((hrenamed.omitted name).mp hnew)
        exact ((Body.lacks_iff_notMem_definedNames hne).mpr hfree).origin?_eq_none
          fun hnew => absurd hnew hne

/-- In an operand that stands alone, every name that is used and its new name are found alike. -/
theorem Body.RenamedBy.foundAlike_root (hrenamed : left.RenamedBy right names place? same)
    (halone : left.StandsAlone) (huses : left.Uses name) :
    FoundAlike [⟨left, right, place?⟩] name (names name) := by
  refine hrenamed.foundAlike (halone.distinct.names _ .root) (fun name hcaptures => ?_) huses
  obtain ⟨_, _, hcheck⟩ := halone
  have hname : name = "" := by
    by_contra hname
    obtain ⟨origin, hdefines⟩ := Surroundings.exists_defines_of_uses hcheck hcaptures.uses hname
    exact hcaptures.lacks origin hdefines
  rw [hname, (hrenamed.omitted "").mpr rfl]
  exact ⟨by simp [Body.definedNames], .nowhere⟩

end Found

end OpGraph
