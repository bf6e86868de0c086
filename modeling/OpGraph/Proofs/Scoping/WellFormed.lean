import OpGraph.Proofs.Scoping.Nesting

/-!
What the check of well-formedness guarantees. Each part of the check succeeds exactly if the part
that it looks at is in order, so what it says of a graph holds of all the graphs nested in it.
-/

namespace OpGraph

/-- In every scope no name is defined twice, and no node has two attributes of the same name. -/
structure Body.Distinct (root : Body) : Prop where
  names : root.UniqueScopes
  attributes : ∀ scope, root.HasScope scope → ∀ node ∈ scope.nodes,
    (node.attributes.map Attribute.name).Nodup

theorem Body.Distinct.of_carries {root : Body} (hdistinct : root.Distinct) {node : Node}
    {graph : Graph} (hnode : node ∈ root.nodes) (hcarries : node.Carries graph) :
    graph.body.Distinct where
  names := hdistinct.names.of_carries hnode hcarries
  attributes scope hscope := hdistinct.attributes scope (.of_carries hnode hcarries hscope)

/-- A sequence that succeeds does so part by part. -/
theorem Except.bind_eq_ok {ε α β : Type} {first : Except ε α} {next : α → Except ε β} {value : β}
    (hbind : first >>= next = .ok value) : ∃ inner, first = .ok inner ∧ next inner = .ok value := by
  cases first with
  | error failure => cases hbind
  | ok inner => exact ⟨inner, rfl, hbind⟩

namespace Surroundings

variable {around : Surroundings} {scope : List String}

theorem bind_eq_ok_iff {first second : Except Violation Unit} :
    (first >>= fun _ => second) = .ok () ↔ first = .ok () ∧ second = .ok () := by
  cases first with
  | error violation => simp [bind, Except.bind]
  | ok _ => simp [bind, Except.bind]

theorem checkBody_eq_ok_iff {body : Body} {checkNodes : Surroundings → Except Violation Unit} :
    around.checkBody scope body checkNodes = .ok () ↔
      body.UniqueNames ∧ checkNodes (around.enter body.definedNames) = .ok () ∧
        ∀ name ∈ body.outputs, (around.enter body.definedNames).isVisible name := by
  have hunique : body.UniqueNames ↔ firstRepeated? [] body.definedNames = none := by
    simp [Body.UniqueNames, firstRepeated?_eq_none_iff]
  rw [hunique, checkBody]
  cases hrepeated : firstRepeated? [] body.definedNames with
  | some name => simp [throw, throwThe, MonadExceptOf.throw, bind, Except.bind]
  | none =>
      simp only [true_and]
      rw [bind_eq_ok_iff]
      refine and_congr_right fun _ => ?_
      cases hhidden :
          body.outputs.find? (!(around.enter body.definedNames).isVisible ·) with
      | some name =>
          have hname := List.find?_some hhidden
          have hmem := List.mem_of_find?_eq_some hhidden
          simp only [throw, throwThe, MonadExceptOf.throw, reduceCtorEq, false_iff, not_forall]
          exact ⟨name, hmem, by simpa using hname⟩
      | none =>
          simp only [List.find?_eq_none, Bool.not_eq_true', Bool.not_eq_false] at hhidden
          simpa [pure, Except.pure] using hhidden

theorem checkNodes_eq_ok_iff {index : Nat} {nodes : List Node} :
    around.checkNodes scope index nodes = .ok () ↔
      ∀ place node, nodes[place]? = some node →
        around.checkInputs scope (.node (index + place) node.opType) node.inputs = .ok () ∧
          around.checkAttributes scope (.node (index + place) node.opType) [] node.attributes =
            .ok () := by
  induction nodes generalizing index with
  | nil => simp [checkNodes]
  | cons node rest ih =>
      cases node with | mk name opType domain inputs outputs attributes =>
      rw [checkNodes, bind_eq_ok_iff, bind_eq_ok_iff, ih]
      constructor
      · rintro ⟨hinputs, hattributes, hrest⟩ place other hother
        cases place with
        | zero =>
            simp only [List.getElem?_cons_zero, Option.some.injEq] at hother
            exact hother ▸ ⟨hinputs, hattributes⟩
        | succ place =>
            have hshift : index + (place + 1) = index + 1 + place := by omega
            rw [hshift]
            exact hrest place other (by simpa using hother)
      · intro hall
        obtain ⟨hinputs, hattributes⟩ := hall 0 _ rfl
        refine ⟨hinputs, hattributes, fun place other hother => ?_⟩
        have hshift : index + 1 + place = index + (place + 1) := by omega
        rw [hshift]
        exact hall (place + 1) other (by simpa using hother)

theorem checkAttributes_eq_ok_iff {user : ValueUser} {seen : List String}
    {attributes : List Attribute} :
    around.checkAttributes scope user seen attributes = .ok () ↔
      (attributes.map Attribute.name).Nodup ∧ (∀ attr ∈ attributes, attr.name ∉ seen) ∧
        ∀ attr ∈ attributes, around.checkValue scope user attr.name attr.value = .ok () := by
  induction attributes generalizing seen with
  | nil => simp [checkAttributes]
  | cons attr rest ih =>
      cases attr with | mk name value =>
      rw [checkAttributes]
      by_cases hseen : name ∈ seen
      · simp [hseen, throw, throwThe, MonadExceptOf.throw, bind, Except.bind]
      · simp only [List.contains_iff_mem, hseen, if_false, bind_eq_ok_iff, ih,
          List.map_cons, List.nodup_cons, List.mem_map, not_exists, not_and, List.mem_cons,
          forall_eq_or_imp, not_or, not_false_eq_true, true_and]
        grind

theorem checkGraphs_eq_ok_iff {attrName : String} {start : Nat} {graphs : List Graph} :
    around.checkGraphs scope attrName start graphs = .ok () ↔
      ∀ place graph, graphs[place]? = some graph →
        around.checkGraph (scope ++ [nestedLabel attrName (start + place) graph.name]) graph =
          .ok () := by
  induction graphs generalizing start with
  | nil => simp [checkGraphs]
  | cons graph rest ih =>
      rw [checkGraphs, bind_eq_ok_iff, ih]
      constructor
      · rintro ⟨hgraph, hrest⟩ place other hplace
        cases place with
        | zero =>
            cases hplace
            exact hgraph
        | succ place =>
            rw [← Nat.succ_add_eq_add_succ]
            exact hrest place other hplace
      · intro hall
        refine ⟨hall 0 graph rfl, fun place other hplace => ?_⟩
        rw [Nat.succ_add_eq_add_succ]
        exact hall (place + 1) other hplace

theorem checkGraphs_eq_ok {attrName : String} {start : Nat} {graphs : List Graph}
    (hcheck : around.checkGraphs scope attrName start graphs = .ok ()) :
    ∀ graph ∈ graphs, ∃ inner, around.checkGraph inner graph = .ok () := by
  intro graph hgraph
  obtain ⟨place, hplace⟩ := List.mem_iff_getElem?.mp hgraph
  exact ⟨_, checkGraphs_eq_ok_iff.mp hcheck place graph hplace⟩

/-- Graphs that are in order each, wherever they stand, are so together. -/
theorem checkGraphs_of_forall {attrName : String} {start : Nat} {graphs : List Graph}
    (hgraphs : ∀ graph ∈ graphs, ∀ inner, around.checkGraph inner graph = .ok ()) :
    around.checkGraphs scope attrName start graphs = .ok () :=
  checkGraphs_eq_ok_iff.mpr fun _ graph hplace => hgraphs graph (List.mem_of_getElem? hplace) _

theorem checkInputs_eq_ok_iff {user : ValueUser} {inputs : List String} :
    around.checkInputs scope user inputs = .ok () ↔
      ∀ name ∈ inputs, name ≠ "" → around.isVisible name = true := by
  rw [checkInputs]
  cases hfound : inputs.find? fun name => name != "" && !around.isVisible name with
  | some name =>
      have hhidden := List.find?_some hfound
      simp only [throw, throwThe, MonadExceptOf.throw, reduceCtorEq, false_iff, not_forall]
      refine ⟨name, List.mem_of_find?_eq_some hfound, ?_⟩
      simpa using hhidden
  | none =>
      simp only [List.find?_eq_none, Bool.and_eq_true, bne_iff_ne, Bool.not_eq_true', not_and,
        Bool.not_eq_false] at hfound
      simpa [pure, Except.pure] using hfound

theorem checkValue_eq_ok {user : ValueUser} {attrName : String} {value : AttributeValue}
    (hcheck : around.checkValue scope user attrName value = .ok ()) :
    ∀ graph ∈ value.subgraphs, ∃ inner, around.checkGraph inner graph = .ok () := by
  intro graph hgraph
  cases value with
  | graph held =>
      simp only [AttributeValue.subgraphs, List.mem_singleton] at hgraph
      subst hgraph
      rw [checkValue] at hcheck
      exact ⟨_, hcheck⟩
  | graphs held =>
      rw [checkValue] at hcheck
      exact checkGraphs_eq_ok hcheck graph hgraph
  | _ => simp [AttributeValue.subgraphs] at hgraph

theorem checkGraph_eq_ok_iff {graph : Graph} : around.checkGraph scope graph = .ok () ↔
    around.checkBody scope graph.body (fun inner => inner.checkNodes scope 0 graph.body.nodes) =
      .ok () := by
  cases graph
  rfl

/-- The graphs that checked nodes carry are checked in the same surroundings. -/
theorem checkGraph_of_carries {index : Nat} {nodes : List Node}
    (hcheck : around.checkNodes scope index nodes = .ok ()) {node : Node} (hnode : node ∈ nodes)
    {graph : Graph} (hcarries : node.Carries graph) :
    ∃ inner, around.checkGraph inner graph = .ok () := by
  obtain ⟨attr, hattr, hgraph⟩ := hcarries
  obtain ⟨place, hplace⟩ := List.mem_iff_getElem?.mp hnode
  obtain ⟨_, hattributes⟩ := checkNodes_eq_ok_iff.mp hcheck place node hplace
  obtain ⟨_, _, hvalues⟩ := checkAttributes_eq_ok_iff.mp hattributes
  exact checkValue_eq_ok (hvalues attr hattr) graph hgraph

/-- A checked body has its names and attributes in order, and the graphs that its nodes carry are
checked. -/
structure Checked (body : Body) : Prop where
  names : body.UniqueNames
  attributes : ∀ node ∈ body.nodes, (node.attributes.map Attribute.name).Nodup
  graphs : ∀ node ∈ body.nodes, ∀ graph, node.Carries graph →
    ∃ around scope, checkGraph around scope graph = .ok ()

theorem checked_of_checkBody {body : Body} {start : Nat}
    (hcheck : around.checkBody scope body (fun inner => inner.checkNodes scope start body.nodes) =
      .ok ()) : Checked body := by
  obtain ⟨hnames, hnodes, _⟩ := checkBody_eq_ok_iff.mp hcheck
  refine ⟨hnames, ?_, ?_⟩
  · intro node hmem
    obtain ⟨place, hplace⟩ := List.mem_iff_getElem?.mp hmem
    exact (checkAttributes_eq_ok_iff.mp (checkNodes_eq_ok_iff.mp hnodes place node hplace).2).1
  · intro node hmem graph hcarries
    exact ⟨_, checkGraph_of_carries hnodes hmem hcarries⟩

theorem checked_of_checkGraph {graph : Graph} (hcheck : around.checkGraph scope graph = .ok ()) :
    Checked graph.body :=
  checked_of_checkBody (checkGraph_eq_ok_iff.mp hcheck)

section Visibility

variable {name : String}

theorem isVisible_enter {names : List String} :
    (around.enter names).isVisible name = true ↔ name ∈ names ∨ around.isVisible name = true := by
  simp [enter, isVisible]

/-- What is in sight inside of a body that lacks it is in sight around the body. -/
theorem isVisible_of_lacks {body : Body} (hlacks : body.Lacks name)
    (hvisible : (around.enter body.definedNames).isVisible name = true) :
    around.isVisible name = true := by
  rcases isVisible_enter.mp hvisible with hmem | hvisible
  · exact absurd hmem (Body.notMem_definedNames_of_lacks hlacks)
  · exact hvisible

theorem isVisible_of_checkInputs {user : ValueUser} {inputs : List String}
    (hcheck : around.checkInputs scope user inputs = .ok ()) (hinput : name ∈ inputs)
    (hname : name ≠ "") : around.isVisible name = true := by
  rw [checkInputs] at hcheck
  split at hcheck
  · cases hcheck
  next hnone =>
    have hfound := Option.eq_none_iff_forall_ne_some.mpr hnone
    simpa [hname] using List.find?_eq_none.mp hfound name hinput

/-- Whatever a checked node mentions is in sight, at any depth of nesting, or omitted. -/
theorem isVisible_of_mentions {node : Node} (hmentions : node.Mentions name) {index : Nat}
    {nodes : List Node} (hcheck : around.checkNodes scope index nodes = .ok ())
    (hnode : node ∈ nodes) (hname : name ≠ "") : around.isVisible name = true := by
  induction hmentions generalizing around scope index nodes with
  | input hinput =>
      obtain ⟨place, hplace⟩ := List.mem_iff_getElem?.mp hnode
      obtain ⟨hinputs, _⟩ := checkNodes_eq_ok_iff.mp hcheck place _ hplace
      exact isVisible_of_checkInputs hinputs hinput hname
  | nestedOutput hcarries houtput hlacks =>
      obtain ⟨_, hgraph⟩ := checkGraph_of_carries hcheck hnode hcarries
      obtain ⟨_, _, houtputs⟩ := checkBody_eq_ok_iff.mp (checkGraph_eq_ok_iff.mp hgraph)
      exact isVisible_of_lacks hlacks (houtputs _ houtput)
  | nestedNode hcarries hinner _ hlacks ih =>
      obtain ⟨_, hgraph⟩ := checkGraph_of_carries hcheck hnode hcarries
      obtain ⟨_, hnodes, _⟩ := checkBody_eq_ok_iff.mp (checkGraph_eq_ok_iff.mp hgraph)
      exact isVisible_of_lacks hlacks (ih hnodes hinner hname)

end Visibility

/-- What the check says of a body it says of every scope of it. -/
theorem Checked.distinct {root : Body} (hroot : Checked root) : root.Distinct := by
  have hscopes : ∀ scope, root.HasScope scope → Checked scope := by
    intro scope hscope
    induction hscope with
    | root => exact hroot
    | nested _ hnode hcarries ih =>
        obtain ⟨_, _, hcheck⟩ := ih.graphs _ hnode _ hcarries
        exact checked_of_checkGraph hcheck
  exact ⟨fun scope hscope => (hscopes scope hscope).names,
    fun scope hscope => (hscopes scope hscope).attributes⟩

/-- A checked body with nothing but parameters around it defines whatever it uses, at any depth of
nesting, unless it is omitted. -/
theorem exists_defines_of_uses {body : Body} {parameters : Option (List String)}
    (hcheck : checkBody ⟨parameters, []⟩ scope body
      (fun inner => inner.checkNodes scope 0 body.nodes) = .ok ()) {name : String}
    (huses : body.Uses name) (hname : name ≠ "") : ∃ origin, body.Defines name origin := by
  obtain ⟨_, hnodes, houtputs⟩ := checkBody_eq_ok_iff.mp hcheck
  have hvisible : (enter ⟨parameters, []⟩ body.definedNames).isVisible name = true := by
    rcases huses with houtput | ⟨node, hnode, hmentions⟩
    · exact houtputs name houtput
    · exact isVisible_of_mentions hmentions hnodes hnode hname
  rcases isVisible_enter.mp hvisible with hmem | houter
  · exact Body.exists_defines_of_mem hmem
  · simp [isVisible] at houter

end Surroundings

theorem Graph.distinct_of_checkWellFormed {graph : Graph}
    (hcheck : graph.checkWellFormed = .ok ()) : graph.body.Distinct :=
  (Surroundings.checked_of_checkGraph hcheck).distinct

/-- The outputs of a well-formed graph that stands by itself are defined in it. -/
theorem Graph.exists_defines_of_checkWellFormed {graph : Graph}
    (hcheck : graph.checkWellFormed = .ok ()) {name : String} (hname : name ∈ graph.outputs) :
    ∃ origin, graph.body.Defines name origin := by
  obtain ⟨_, nodes, inputs, outputs, _, _⟩ := graph
  rw [checkWellFormed, Surroundings.checkGraph] at hcheck
  obtain ⟨_, _, hvisible⟩ := Surroundings.checkBody_eq_ok_iff.mp hcheck
  have hmem : name ∈ Body.definedNames ⟨nodes, inputs, outputs⟩ := by
    simpa [Surroundings.isVisible, Surroundings.enter] using hvisible name hname
  exact Body.exists_defines_of_mem hmem

theorem Function.checkWellFormed_eq_ok_iff {function : Function} :
    function.checkWellFormed = .ok () ↔
      (function.opsetImports.map OpsetImport.domain).Nodup ∧
        Surroundings.checkBody ⟨some function.parameters, []⟩ [rootLabel function.name]
          function.body (fun inner =>
            inner.checkNodes [rootLabel function.name] 0 function.body.nodes) = .ok () := by
  have hnodup : (function.opsetImports.map OpsetImport.domain).Nodup ↔
      firstRepeated? [] (function.opsetImports.map OpsetImport.domain) = none := by
    simp [firstRepeated?_eq_none_iff]
  rw [hnodup, checkWellFormed]
  cases hrepeated : firstRepeated? [] (function.opsetImports.map OpsetImport.domain) with
  | some domain => simp [throw, throwThe, MonadExceptOf.throw, bind, Except.bind]
  | none =>
      simp only [true_and]
      rfl

/-- A well-formed function defines whatever it uses, at any depth of nesting, unless it is omitted.
-/
theorem Function.exists_defines_of_uses {function : Function}
    (hcheck : function.checkWellFormed = .ok ()) {name : String} (huses : function.body.Uses name)
    (hname : name ≠ "") : ∃ origin, function.body.Defines name origin :=
  Surroundings.exists_defines_of_uses (Function.checkWellFormed_eq_ok_iff.mp hcheck).2 huses hname

theorem Function.distinct_of_checkWellFormed {function : Function}
    (hcheck : function.checkWellFormed = .ok ()) : function.body.Distinct :=
  (Surroundings.checked_of_checkBody (Function.checkWellFormed_eq_ok_iff.mp hcheck).2).distinct

end OpGraph
