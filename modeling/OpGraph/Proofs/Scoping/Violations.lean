import OpGraph.Proofs.Scoping.Enclosing
import Mathlib.Data.List.Duplicate

/-!
Well-formedness without the check: what holds of each scope, with the bodies that enclose it, and in
which way it can fail there. The check accepts exactly the well-formed operands. A violation that it
reports is one of the operand, at the place that the report names.
-/

namespace OpGraph

/-- What is checked as a whole. -/
inductive Operand where
  | function (function : Function)
  | graph (graph : Graph)

/-- One of the bodies defines the name. -/
def InSight (bodies : List Body) (name : String) : Prop :=
  ∃ body ∈ bodies, ∃ origin, body.Defines name origin

/-- The bodies enclose each other, from a scope of the operand out to the operand itself, and this
is the label of the scope. -/
inductive Body.HasPlace (root : Body) (label : String) : List String → List Body → Prop where
  | root : root.HasPlace label [label] [root]
  | nested {scope : List String} {body : Body} {outer : List Body} {node : Node} {attr : Attribute}
      {place : Nat} {graph : Graph} : root.HasPlace label scope (body :: outer) →
      node ∈ body.nodes → attr ∈ node.attributes → attr.value.subgraphs[place]? = some graph →
      root.HasPlace label (scope ++ [nestedLabel attr.name place graph.name])
        (graph.body :: body :: outer)

namespace Operand

def check : Operand → Except Violation Unit
  | function f => f.checkWellFormed
  | graph g => g.checkWellFormed

def body : Operand → Body
  | function f => f.body
  | graph g => g.body

def label : Operand → String
  | function f => rootLabel f.name
  | graph g => rootLabel g.name

def imports : Operand → List OpsetImport
  | function f => f.opsetImports
  | graph _ => []

/-- The formal parameters, if the operand is a function. -/
def parameters? : Operand → Option (List String)
  | function f => some f.parameters
  | graph _ => none

/-- A reference may name this parameter. -/
def Binds (operand : Operand) (target : String) : Prop :=
  ∃ parameters ∈ operand.parameters?, target ∈ parameters

/-- Each domain is imported once. In every scope each name has one place, what nodes use is left out
or in sight, the outputs are in sight, the attributes of a node have different names, and references
name parameters. -/
structure WellFormed (operand : Operand) : Prop where
  imports : (operand.imports.map OpsetImport.domain).Nodup
  names : ∀ ⦃body : Body⦄ ⦃outer : List Body⦄, operand.body.HasPath (body :: outer) →
    ∀ name origin origin', body.Defines name origin → body.Defines name origin' → origin = origin'
  inputs : ∀ ⦃body : Body⦄ ⦃outer : List Body⦄, operand.body.HasPath (body :: outer) →
    ∀ node ∈ body.nodes, ∀ name ∈ node.inputs, name ≠ "" → InSight (body :: outer) name
  outputs : ∀ ⦃body : Body⦄ ⦃outer : List Body⦄, operand.body.HasPath (body :: outer) →
    ∀ name ∈ body.outputs, InSight (body :: outer) name
  attributes : ∀ ⦃body : Body⦄ ⦃outer : List Body⦄, operand.body.HasPath (body :: outer) →
    ∀ node ∈ body.nodes, (node.attributes.map Attribute.name).Nodup
  references : ∀ ⦃body : Body⦄ ⦃outer : List Body⦄, operand.body.HasPath (body :: outer) →
    ∀ node ∈ body.nodes, ∀ attr ∈ node.attributes, ∀ target kind,
      attr.value = .reference target kind → operand.Binds target

end Operand

/-- What the violation says is so: at the place that it names, the operand breaks the rule. -/
inductive Violation.Occurs (operand : Operand) : Violation → Prop where
  | redefined {scope : List String} {body : Body} {outer : List Body} {name : String}
      {origin origin' : Origin} : operand.body.HasPlace operand.label scope (body :: outer) →
      body.Defines name origin → body.Defines name origin' → origin ≠ origin' →
      Occurs operand (.redefined name scope)
  | undefinedInput {scope : List String} {body : Body} {outer : List Body} {name : String}
      {index : Nat} {node : Node} :
      operand.body.HasPlace operand.label scope (body :: outer) → body.nodes[index]? = some node →
      name ∈ node.inputs → name ≠ "" → ¬ InSight (body :: outer) name →
      Occurs operand (.undefined name (.node index node.opType) scope)
  | undefinedOutput {scope : List String} {body : Body} {outer : List Body} {name : String} :
      operand.body.HasPlace operand.label scope (body :: outer) → name ∈ body.outputs →
      ¬ InSight (body :: outer) name → Occurs operand (.undefined name .outputs scope)
  | repeatedAttribute {scope : List String} {body : Body} {outer : List Body} {name : String}
      {index : Nat} {node : Node} :
      operand.body.HasPlace operand.label scope (body :: outer) → body.nodes[index]? = some node →
      (node.attributes.map Attribute.name).Duplicate name →
      Occurs operand (.repeatedAttribute name (.node index node.opType))
  | unboundReference {scope : List String} {body : Body} {outer : List Body} {target : String}
      {kind : AttributeKind} {index : Nat} {node : Node} {attr : Attribute} :
      operand.body.HasPlace operand.label scope (body :: outer) → body.nodes[index]? = some node →
      attr ∈ node.attributes → attr.value = .reference target kind → ¬ operand.Binds target →
      Occurs operand (.unboundReference attr.name target (.node index node.opType))
  | repeatedImport {domain : String} : (operand.imports.map OpsetImport.domain).Duplicate domain →
      Occurs operand (.repeatedImport domain)

namespace Body

variable {root body : Body} {label name : String} {scope : List String} {bodies outer : List Body}

theorem HasPlace.hasPath (hplace : root.HasPlace label scope bodies) : root.HasPath bodies := by
  induction hplace with
  | root => exact .root
  | nested _ hnode hattr hgraph ih =>
      exact ih.nested hnode ⟨_, hattr, List.mem_of_getElem? hgraph⟩

/-- A name that is listed twice has two places. -/
theorem exists_defines_of_duplicate (hname : body.definedNames.Duplicate name) :
    ∃ origin origin', body.Defines name origin ∧ body.Defines name origin' ∧ origin ≠ origin' := by
  rw [definedNames_eq, List.duplicate_iff_sublist, List.sublist_map_iff] at hname
  obtain ⟨twice, htwice, heq⟩ := hname
  obtain ⟨first, rest, rfl, hfirst, hrest⟩ := List.map_eq_cons_iff.mp heq.symm
  obtain ⟨second, nothing, rfl, hsecond, hnothing⟩ := List.map_eq_cons_iff.mp hrest
  have hne : name ≠ "" := by
    have hmem := (List.mem_filter.mp (htwice.subset List.mem_cons_self)).2
    simpa [hfirst] using hmem
  have hdefines : ∀ definition ∈ first :: second :: nothing, definition.1 = name →
      body.Defines name definition.2 := by
    rintro ⟨_, origin⟩ hmem rfl
    exact (mem_definitions_iff_defines hne).mp (List.mem_filter.mp (htwice.subset hmem)).1
  refine ⟨first.2, second.2, hdefines first (by simp) hfirst, hdefines second (by simp) hsecond, ?_⟩
  intro horigins
  have hdistinct := ((nodup_definitions body).filter _).sublist htwice
  have hsame : first = second := Prod.ext (hfirst.trans hsecond.symm) horigins
  simp [hsame] at hdistinct

end Body

theorem firstRepeated?_eq_some {seen names : List String} {name : String}
    (hrepeated : firstRepeated? seen names = some name) :
    name ∈ names ∧ name ∈ seen ∨ names.Duplicate name := by
  induction names generalizing seen with
  | nil => cases hrepeated
  | cons first rest ih =>
      rw [firstRepeated?] at hrepeated
      split at hrepeated
      next hseen =>
        cases hrepeated
        exact Or.inl ⟨List.mem_cons_self, by simpa using hseen⟩
      next =>
        rcases ih hrepeated with ⟨hrest, hmem⟩ | hduplicate
        · rcases List.mem_cons.mp hmem with rfl | hmem
          · exact Or.inr (List.Mem.duplicate_cons_self hrest)
          · exact Or.inl ⟨List.mem_cons_of_mem _ hrest, hmem⟩
        · exact Or.inr (hduplicate.duplicate_cons _)

namespace Surroundings

variable {around : Surroundings} {scope : List String} {violation : Violation}

/-- The names of these bodies are in sight, and these parameters may be referred to. -/
def within (parameters? : Option (List String)) (bodies : List Body) : Surroundings :=
  ⟨parameters?, bodies.map Body.definedNames⟩

theorem isVisible_within (parameters? : Option (List String)) {bodies : List Body} {name : String} :
    (within parameters? bodies).isVisible name = true ↔ InSight bodies name := by
  have hdefined : ∀ body : Body, name ∈ body.definedNames ↔ ∃ origin, body.Defines name origin :=
    fun _ => ⟨Body.exists_defines_of_mem, fun ⟨_, hdefines⟩ => hdefines.mem_definedNames⟩
  simp [isVisible, within, InSight, hdefined]

theorem bind_eq_error_iff {first second : Except Violation Unit} :
    (first >>= fun _ => second) = .error violation ↔
      first = .error violation ∨ first = .ok () ∧ second = .error violation := by
  cases first <;> simp [bind, Except.bind]

/-- If a body is not in order, a name is defined twice, the nodes are not in order, or an output is
hidden. -/
theorem checkBody_eq_error {body : Body} {checkNodes : Surroundings → Except Violation Unit}
    (hcheck : around.checkBody scope body checkNodes = .error violation) :
    (∃ name, body.definedNames.Duplicate name ∧ violation = .redefined name scope) ∨
      checkNodes (around.enter body.definedNames) = .error violation ∨
      ∃ name ∈ body.outputs, (around.enter body.definedNames).isVisible name = false ∧
        violation = .undefined name .outputs scope := by
  rw [checkBody] at hcheck
  cases hrepeated : firstRepeated? [] body.definedNames with
  | some name =>
      rw [hrepeated] at hcheck
      cases hcheck
      have hduplicate := (firstRepeated?_eq_some hrepeated).resolve_left (by simp)
      exact Or.inl ⟨name, hduplicate, rfl⟩
  | none =>
      rw [hrepeated] at hcheck
      rcases bind_eq_error_iff.mp hcheck with hnodes | ⟨_, houtputs⟩
      · exact Or.inr (Or.inl hnodes)
      · cases hhidden :
            body.outputs.find? (!(around.enter body.definedNames).isVisible ·) with
        | none =>
            rw [hhidden] at houtputs
            cases houtputs
        | some name =>
            rw [hhidden] at houtputs
            cases houtputs
            have hname := List.find?_some hhidden
            exact Or.inr (Or.inr
              ⟨name, List.mem_of_find?_eq_some hhidden, by simpa using hname, rfl⟩)

theorem checkInputs_eq_error {user : ValueUser} {inputs : List String}
    (hcheck : around.checkInputs scope user inputs = .error violation) :
    ∃ name ∈ inputs, name ≠ "" ∧ around.isVisible name = false ∧
      violation = .undefined name user scope := by
  rw [checkInputs] at hcheck
  cases hfound : inputs.find? fun name => name != "" && !around.isVisible name with
  | none =>
      rw [hfound] at hcheck
      cases hcheck
  | some name =>
      rw [hfound] at hcheck
      cases hcheck
      have hhidden := List.find?_some hfound
      simp only [Bool.and_eq_true, bne_iff_ne, Bool.not_eq_true'] at hhidden
      exact ⟨name, List.mem_of_find?_eq_some hfound, hhidden.1, hhidden.2, rfl⟩

/-- If nodes are not in order, the inputs or the attributes of one of them are not. -/
theorem checkNodes_eq_error {index : Nat} {nodes : List Node}
    (hcheck : around.checkNodes scope index nodes = .error violation) :
    ∃ place node, nodes[place]? = some node ∧
      (around.checkInputs scope (.node (index + place) node.opType) node.inputs =
          .error violation ∨
        around.checkAttributes scope (.node (index + place) node.opType) [] node.attributes =
          .error violation) := by
  induction nodes generalizing index with
  | nil => cases hcheck
  | cons node rest ih =>
      cases node with | mk name opType domain inputs outputs attributes =>
      rw [checkNodes] at hcheck
      rcases bind_eq_error_iff.mp hcheck with hinputs | ⟨_, hcheck⟩
      · exact ⟨0, _, rfl, Or.inl hinputs⟩
      rcases bind_eq_error_iff.mp hcheck with hattributes | ⟨_, hrest⟩
      · exact ⟨0, _, rfl, Or.inr hattributes⟩
      obtain ⟨place, node, hnode, herror⟩ := ih hrest
      rw [Nat.succ_add_eq_add_succ] at herror
      exact ⟨place + 1, node, hnode, herror⟩

/-- If attributes are not in order, a name comes again or a value is not in order. -/
theorem checkAttributes_eq_error {user : ValueUser} {seen : List String}
    {attributes : List Attribute}
    (hcheck : around.checkAttributes scope user seen attributes = .error violation) :
    (∃ name, (name ∈ attributes.map Attribute.name ∧ name ∈ seen ∨
        (attributes.map Attribute.name).Duplicate name) ∧
        violation = .repeatedAttribute name user) ∨
      ∃ attr ∈ attributes, around.checkValue scope user attr.name attr.value =
        .error violation := by
  induction attributes generalizing seen with
  | nil => cases hcheck
  | cons attr rest ih =>
      cases attr with | mk name value =>
      rw [checkAttributes] at hcheck
      by_cases hseen : name ∈ seen
      · simp only [List.contains_iff_mem, hseen, if_true] at hcheck
        cases hcheck
        exact Or.inl ⟨name, Or.inl ⟨List.mem_cons_self, hseen⟩, rfl⟩
      simp only [List.contains_iff_mem, hseen, if_false] at hcheck
      rcases bind_eq_error_iff.mp hcheck with hvalue | ⟨_, hrest⟩
      · exact Or.inr ⟨⟨name, value⟩, List.mem_cons_self, hvalue⟩
      rcases ih hrest with ⟨other, hother, rfl⟩ | ⟨attr, hattr, hvalue⟩
      · refine Or.inl ⟨other, ?_, rfl⟩
        rcases hother with ⟨hlater, hmem⟩ | hduplicate
        · rcases List.mem_cons.mp hmem with rfl | hmem
          · exact Or.inr (List.Mem.duplicate_cons_self hlater)
          · exact Or.inl ⟨List.mem_cons_of_mem _ hlater, hmem⟩
        · exact Or.inr (hduplicate.duplicate_cons _)
      · exact Or.inr ⟨attr, List.mem_cons_of_mem _ hattr, hvalue⟩

theorem checkGraphs_eq_error {attrName : String} {start : Nat} {graphs : List Graph}
    (hcheck : around.checkGraphs scope attrName start graphs = .error violation) :
    ∃ place graph, graphs[place]? = some graph ∧
      around.checkGraph (scope ++ [nestedLabel attrName (start + place) graph.name]) graph =
        .error violation := by
  induction graphs generalizing start with
  | nil => cases hcheck
  | cons graph rest ih =>
      rw [checkGraphs] at hcheck
      rcases bind_eq_error_iff.mp hcheck with hgraph | ⟨_, hrest⟩
      · exact ⟨0, graph, rfl, hgraph⟩
      obtain ⟨place, graph, hgraph, herror⟩ := ih hrest
      rw [Nat.succ_add_eq_add_succ] at herror
      exact ⟨place + 1, graph, hgraph, herror⟩

/-- If a value is not in order, it is a reference to no parameter, or one of its graphs is not in
order. -/
theorem checkValue_eq_error {user : ValueUser} {attrName : String} {value : AttributeValue}
    (hcheck : around.checkValue scope user attrName value = .error violation) :
    (∃ target kind, value = .reference target kind ∧ around.isParameter target = false ∧
        violation = .unboundReference attrName target user) ∨
      ∃ place graph, value.subgraphs[place]? = some graph ∧
        around.checkGraph (scope ++ [nestedLabel attrName place graph.name]) graph =
          .error violation := by
  cases value with
  | reference target kind =>
      rw [checkValue] at hcheck
      split at hcheck
      · cases hcheck
      next hbound =>
        cases hcheck
        exact Or.inl ⟨target, kind, rfl, Bool.eq_false_iff.mpr hbound, rfl⟩
  | graph held =>
      rw [checkValue] at hcheck
      exact Or.inr ⟨0, held, rfl, hcheck⟩
  | graphs held =>
      rw [checkValue] at hcheck
      obtain ⟨place, graph, hgraph, herror⟩ := checkGraphs_eq_error hcheck
      rw [Nat.zero_add] at herror
      exact Or.inr ⟨place, graph, hgraph, herror⟩
  | _ => cases hcheck

end Surroundings

namespace Operand

open Surroundings

variable {operand : Operand} {violation : Violation}

theorem isParameter_iff_binds (bodies : List Body) {target : String} :
    (within operand.parameters? bodies).isParameter target = true ↔ operand.Binds target := by
  simp [isParameter, within, Binds, Option.any_eq_true]

/-- The check of an operand is that of its imports and of its body. -/
theorem check_eq (operand : Operand) : operand.check =
    (match firstRepeated? [] (operand.imports.map OpsetImport.domain) with
      | some domain => .error (.repeatedImport domain)
      | none => (within operand.parameters? []).checkBody [operand.label] operand.body
          (fun inner => inner.checkNodes [operand.label] 0 operand.body.nodes)) := by
  cases operand with
  | function f =>
      simp only [check, Function.checkWellFormed, imports]
      cases firstRepeated? [] (f.opsetImports.map OpsetImport.domain) <;> rfl
  | graph g =>
      cases g
      rfl

/-- A violation that the check of a scope reports is one of the operand. -/
theorem occurs_of_checkBody (body : Body) : ∀ ⦃scope : List String⦄ ⦃outer : List Body⦄,
    operand.body.HasPlace operand.label scope (body :: outer) →
    (within operand.parameters? outer).checkBody scope body
      (fun inner => inner.checkNodes scope 0 body.nodes) = .error violation →
    violation.Occurs operand := by
  induction body using Body.nested_induction with
  | hstep body ih =>
  intro scope outer hplace hcheck
  have henter : (within operand.parameters? outer).enter body.definedNames =
      within operand.parameters? (body :: outer) := rfl
  have hhidden : ∀ {name}, (within operand.parameters? (body :: outer)).isVisible name = false →
      ¬ InSight (body :: outer) name := by
    intro name hfalse hsight
    have hvisible := (isVisible_within operand.parameters?).mpr hsight
    rw [hfalse] at hvisible
    cases hvisible
  rcases checkBody_eq_error hcheck with
    ⟨name, hduplicate, rfl⟩ | hnodes | ⟨name, houtput, hname, rfl⟩
  · obtain ⟨origin, origin', hdefines, hdefines', hne⟩ :=
      Body.exists_defines_of_duplicate hduplicate
    exact .redefined hplace hdefines hdefines' hne
  · rw [henter] at hnodes
    obtain ⟨index, node, hnode, herror⟩ := checkNodes_eq_error hnodes
    rw [Nat.zero_add] at herror
    rcases herror with hinputs | hattributes
    · obtain ⟨name, hinput, hne, hname, rfl⟩ := checkInputs_eq_error hinputs
      exact .undefinedInput hplace hnode hinput hne (hhidden hname)
    rcases checkAttributes_eq_error hattributes with ⟨name, hname, rfl⟩ | ⟨attr, hattr, hvalue⟩
    · exact .repeatedAttribute hplace hnode (hname.resolve_left (by simp))
    rcases checkValue_eq_error hvalue with
      ⟨target, kind, hreference, hunbound, rfl⟩ | ⟨place, graph, hgraph, herror⟩
    · refine .unboundReference hplace hnode hattr hreference fun hbinds => ?_
      have hbound := (isParameter_iff_binds (body :: outer)).mpr hbinds
      rw [hunbound] at hbound
      cases hbound
    · have hmem := List.mem_of_getElem? hnode
      have hcarries : node.Carries graph := ⟨attr, hattr, List.mem_of_getElem? hgraph⟩
      cases graph with | mk name nodes inputs outputs initializers sparse =>
      exact ih node hmem _ hcarries (hplace.nested hmem hattr hgraph) herror
  · exact .undefinedOutput hplace houtput (hhidden hname)

theorem occurs_of_check (hcheck : operand.check = .error violation) :
    violation.Occurs operand := by
  rw [check_eq] at hcheck
  cases hrepeated : firstRepeated? [] (operand.imports.map OpsetImport.domain) with
  | some domain =>
      rw [hrepeated] at hcheck
      cases hcheck
      exact .repeatedImport ((firstRepeated?_eq_some hrepeated).resolve_left (by simp))
  | none =>
      rw [hrepeated] at hcheck
      exact occurs_of_checkBody operand.body .root hcheck

/-- A well-formed operand has no violation. -/
theorem WellFormed.not_occurs (hformed : operand.WellFormed) : ¬ violation.Occurs operand := by
  intro hoccurs
  cases hoccurs with
  | redefined hplace hdefines hdefines' hne =>
      exact hne (hformed.names hplace.hasPath _ _ _ hdefines hdefines')
  | undefinedInput hplace hnode hinput hne hhidden =>
      exact hhidden (hformed.inputs hplace.hasPath _ (List.mem_of_getElem? hnode) _ hinput hne)
  | undefinedOutput hplace houtput hhidden =>
      exact hhidden (hformed.outputs hplace.hasPath _ houtput)
  | repeatedAttribute hplace hnode hduplicate =>
      exact List.nodup_iff_forall_not_duplicate.mp
        (hformed.attributes hplace.hasPath _ (List.mem_of_getElem? hnode)) _ hduplicate
  | unboundReference hplace hnode hattr hreference hunbound =>
      exact hunbound (hformed.references hplace.hasPath _ (List.mem_of_getElem? hnode) _ hattr _ _
        hreference)
  | repeatedImport hduplicate =>
      exact List.nodup_iff_forall_not_duplicate.mp hformed.imports _ hduplicate

/-- What is checked is well formed: every scope is checked with the bodies around it in sight. -/
theorem wellFormed_of_check (hcheck : operand.check = .ok ()) : operand.WellFormed := by
  rw [check_eq] at hcheck
  cases hrepeated : firstRepeated? [] (operand.imports.map OpsetImport.domain) with
  | some domain =>
      rw [hrepeated] at hcheck
      cases hcheck
  | none =>
      rw [hrepeated] at hcheck
      have hscope : ∀ {body outer}, operand.body.HasPath (body :: outer) →
          ∃ scope, (within operand.parameters? outer).checkBody scope body
            (fun inner => inner.checkNodes scope 0 body.nodes) = .ok () :=
        fun hpath => hpath.checkBody_within hcheck
      have hnodes : ∀ {body outer}, operand.body.HasPath (body :: outer) → ∀ node ∈ body.nodes,
          ∃ scope user,
            (within operand.parameters? (body :: outer)).checkInputs scope user node.inputs =
                .ok () ∧
              (within operand.parameters? (body :: outer)).checkAttributes scope user []
                node.attributes = .ok () := by
        intro body outer hpath node hnode
        obtain ⟨scope, hbody⟩ := hscope hpath
        obtain ⟨place, hplace⟩ := List.mem_iff_getElem?.mp hnode
        exact ⟨_, _, checkNodes_eq_ok_iff.mp (checkBody_eq_ok_iff.mp hbody).2.1 place node hplace⟩
      refine ⟨(firstRepeated?_eq_none_iff.mp hrepeated).1, ?_, ?_, ?_, ?_, ?_⟩
      · intro body outer hpath name origin origin' hdefines hdefines'
        obtain ⟨_, hbody⟩ := hscope hpath
        exact hdefines.unique (checkBody_eq_ok_iff.mp hbody).1 hdefines'
      · intro body outer hpath node hnode name hinput hne
        obtain ⟨_, _, hinputs, _⟩ := hnodes hpath node hnode
        exact (isVisible_within _).mp (checkInputs_eq_ok_iff.mp hinputs name hinput hne)
      · intro body outer hpath name houtput
        obtain ⟨_, hbody⟩ := hscope hpath
        exact (isVisible_within _).mp ((checkBody_eq_ok_iff.mp hbody).2.2 name houtput)
      · intro body outer hpath node hnode
        obtain ⟨_, _, _, hattributes⟩ := hnodes hpath node hnode
        exact (checkAttributes_eq_ok_iff.mp hattributes).1
      · intro body outer hpath node hnode attr hattr target kind hreference
        obtain ⟨_, _, _, hattributes⟩ := hnodes hpath node hnode
        have hvalue := (checkAttributes_eq_ok_iff.mp hattributes).2.2 attr hattr
        rw [hreference, checkValue] at hvalue
        split at hvalue
        next hbound => exact (isParameter_iff_binds _).mp hbound
        next => cases hvalue

/-- The check accepts exactly the well-formed operands, and what it reports otherwise is so. -/
theorem check_decides (operand : Operand) :
    (operand.check = .ok () ↔ operand.WellFormed) ∧
      ∀ violation, operand.check = .error violation → violation.Occurs operand := by
  refine ⟨⟨wellFormed_of_check, fun hformed => ?_⟩, fun _ => occurs_of_check⟩
  cases hcheck : operand.check with
  | ok _ => rfl
  | error violation => exact absurd (occurs_of_check hcheck) hformed.not_occurs

/-- A graph that uses what only a branch of it defines. -/
def leakingBranch : Operand := .graph {
  nodes := [
    { opType := "If", inputs := ["x"], outputs := ["a"],
      attributes := [⟨"then_branch", .graph {
        nodes := [{ opType := "Relu", inputs := ["x"], outputs := ["inner"] }]
        outputs := ["inner"] }⟩] },
    { opType := "Relu", inputs := ["inner"], outputs := ["y"] }]
  inputs := ["x"]
  outputs := ["y"] }

/-- What a branch defines is out of sight once the branch is left. -/
theorem check_decides_leakingBranch :
    leakingBranch.check = .error (.undefined "inner" (.node 1 "Relu") ["<anonymous>"]) ∧
      Violation.Occurs leakingBranch (.undefined "inner" (.node 1 "Relu") ["<anonymous>"]) :=
  ⟨rfl, (check_decides leakingBranch).2 _ rfl⟩

end Operand

end OpGraph
