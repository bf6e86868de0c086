import OpGraph.Proofs.Scoping.WellFormed

/-!
Lexical scoping. The bodies that enclose a place in an operand are the scope of this place, the
scope of the node that carries this scope, and so on out to the operand. A name means its innermost
definition. In a well-formed operand each name that is written somewhere has one.
-/

namespace OpGraph

/-- The bodies enclose each other, from a scope of the operand, which comes first, out to the operand
itself. -/
inductive Body.HasPath (root : Body) : List Body → Prop where
  | root : root.HasPath [root]
  | nested {body : Body} {outer : List Body} {node : Node} {graph : Graph} :
      root.HasPath (body :: outer) → node ∈ body.nodes → node.Carries graph →
      root.HasPath (graph.body :: body :: outer)

/-- Of bodies that enclose each other, the one at this distance defines the name, and no body that is
nearer does. -/
structure InnermostDefinition (bodies : List Body) (name : String) (distance : Nat)
    (origin : Origin) : Prop where
  defines : ∃ body, bodies[distance]? = some body ∧ body.Defines name origin
  lacks : ∀ ⦃nearer : Nat⦄ ⦃body : Body⦄, nearer < distance → bodies[nearer]? = some body →
    body.Lacks name

/-- The operand passes the check of well-formedness, with nothing but parameters around it. -/
def Body.StandsAlone (root : Body) : Prop :=
  ∃ parameters scope, Surroundings.checkBody ⟨parameters, []⟩ scope root
    (fun inner => inner.checkNodes scope 0 root.nodes) = .ok ()

theorem Graph.standsAlone {graph : Graph} (hcheck : graph.checkWellFormed = .ok ()) :
    graph.body.StandsAlone :=
  ⟨none, _, Surroundings.checkGraph_eq_ok_iff.mp hcheck⟩

theorem Function.standsAlone {function : Function} (hcheck : function.checkWellFormed = .ok ()) :
    function.body.StandsAlone :=
  ⟨_, _, (Function.checkWellFormed_eq_ok_iff.mp hcheck).2⟩

section Innermost

variable {bodies outer : List Body} {body root : Body} {name : String} {distance distance' : Nat}
  {origin origin' : Origin}

theorem InnermostDefinition.name_ne_empty
    (hinner : InnermostDefinition bodies name distance origin) : name ≠ "" := by
  obtain ⟨_, _, hdefines⟩ := hinner.defines
  exact hdefines.name_ne_empty

/-- A name that the first of the bodies defines is not looked for further out. -/
theorem InnermostDefinition.here (hdefines : body.Defines name origin) :
    InnermostDefinition (body :: outer) name 0 origin where
  defines := ⟨body, rfl, hdefines⟩
  lacks _ _ hnearer := absurd hnearer (Nat.not_lt_zero _)

theorem InnermostDefinition.outward (hlacks : body.Lacks name)
    (hinner : InnermostDefinition outer name distance origin) :
    InnermostDefinition (body :: outer) name (distance + 1) origin where
  defines := hinner.defines
  lacks nearer other hnearer hother := by
    cases nearer with
    | zero => exact Option.some.inj hother ▸ hlacks
    | succ nearer => exact hinner.lacks (Nat.lt_of_succ_lt_succ hnearer) hother

/-- The innermost definition is in the first of the bodies, or else in one further out. -/
theorem innermostDefinition_cons_iff :
    InnermostDefinition (body :: outer) name distance origin ↔
      distance = 0 ∧ body.Defines name origin ∨
        ∃ further, distance = further + 1 ∧ body.Lacks name ∧
          InnermostDefinition outer name further origin := by
  constructor
  · rintro ⟨⟨found, hfound, hdefines⟩, hlacks⟩
    cases distance with
    | zero => exact Or.inl ⟨rfl, Option.some.inj hfound ▸ hdefines⟩
    | succ further =>
        refine Or.inr ⟨further, rfl, hlacks (Nat.succ_pos _) rfl, ⟨found, hfound, hdefines⟩, ?_⟩
        intro nearer other hnearer hother
        exact hlacks (Nat.succ_lt_succ hnearer) hother
  · rintro (⟨rfl, hdefines⟩ | ⟨further, rfl, hlacks, hinner⟩)
    · exact .here hdefines
    · exact hinner.outward hlacks

/-- Where no name is defined twice, a name has one innermost definition. -/
theorem InnermostDefinition.unique (hunique : ∀ body ∈ bodies, body.UniqueNames)
    (hinner : InnermostDefinition bodies name distance origin)
    (hinner' : InnermostDefinition bodies name distance' origin') :
    distance = distance' ∧ origin = origin' := by
  obtain ⟨body, hbody, hdefines⟩ := hinner.defines
  obtain ⟨body', hbody', hdefines'⟩ := hinner'.defines
  obtain rfl : distance = distance' := by
    rcases Nat.lt_trichotomy distance distance' with hlt | heq | hgt
    · exact absurd hdefines (hinner'.lacks hlt hbody origin)
    · exact heq
    · exact absurd hdefines' (hinner.lacks hgt hbody' origin')
  obtain rfl : body = body' := Option.some.inj (hbody.symm.trans hbody')
  exact ⟨rfl, hdefines.unique (hunique body (List.mem_of_getElem? hbody)) hdefines'⟩

/-- A name that one of the bodies defines has an innermost definition. -/
theorem exists_innermostDefinition (hbody : body ∈ bodies) (hname : name ∈ body.definedNames) :
    ∃ distance origin, InnermostDefinition bodies name distance origin := by
  induction bodies with
  | nil => cases hbody
  | cons head tail ih =>
      by_cases hlacks : head.Lacks name
      · have htail : body ∈ tail := by
          rcases List.mem_cons.mp hbody with rfl | htail
          · exact absurd hname (Body.notMem_definedNames_of_lacks hlacks)
          · exact htail
        obtain ⟨distance, origin, hinner⟩ := ih htail
        exact ⟨distance + 1, origin, hinner.outward hlacks⟩
      · simp only [Body.Lacks, not_forall, not_not] at hlacks
        obtain ⟨origin, hdefines⟩ := hlacks
        exact ⟨0, origin, .here hdefines⟩

end Innermost

namespace Body

variable {root body : Body} {outer bodies : List Body} {name : String}

theorem HasPath.hasScope (hpath : root.HasPath bodies) : ∀ body ∈ bodies, root.HasScope body := by
  induction hpath with
  | root => exact fun body hbody => List.mem_singleton.mp hbody ▸ .root
  | nested _ hnode hcarries ih =>
      refine List.forall_mem_cons.mpr ⟨?_, ih⟩
      exact .nested (ih _ List.mem_cons_self) hnode hcarries

/-- Every scope of a body that is checked on its own is checked, with the names of the bodies that
enclose it in sight. -/
theorem HasPath.checkBody_within {parameters : Option (List String)} {scope : List String}
    (hcheck : Surroundings.checkBody ⟨parameters, []⟩ scope root
      (fun inner => inner.checkNodes scope 0 root.nodes) = .ok ())
    (hpath : root.HasPath (body :: outer)) :
    ∃ inner, Surroundings.checkBody ⟨parameters, outer.map definedNames⟩ inner body
      (fun around => around.checkNodes inner 0 body.nodes) = .ok () := by
  generalize hbodies : body :: outer = bodies at hpath
  induction hpath generalizing body outer with
  | root =>
      cases hbodies
      exact ⟨scope, hcheck⟩
  | nested _ hnode hcarries ih =>
      cases hbodies
      obtain ⟨_, hbody⟩ := ih rfl
      obtain ⟨_, hnodes, _⟩ := Surroundings.checkBody_eq_ok_iff.mp hbody
      obtain ⟨inner, hgraph⟩ := Surroundings.checkGraph_of_carries hnodes hnode hcarries
      exact ⟨inner, Surroundings.checkGraph_eq_ok_iff.mp hgraph⟩

/-- A scope is checked with the definitions of the bodies that enclose it in sight. -/
theorem HasPath.checkBody (hpath : root.HasPath (body :: outer)) (halone : root.StandsAlone) :
    ∃ around scope, around.scopes = outer.map definedNames ∧
      Surroundings.checkBody around scope body (fun inner => inner.checkNodes scope 0 body.nodes) =
        .ok () := by
  obtain ⟨parameters, scope, hcheck⟩ := halone
  obtain ⟨inner, hbody⟩ := hpath.checkBody_within hcheck
  exact ⟨⟨parameters, outer.map definedNames⟩, inner, rfl, hbody⟩

/-- A name that is written in a scope, among its outputs or the inputs of its nodes, has an innermost
definition in the bodies that enclose the place. -/
theorem HasPath.exists_innermostDefinition (hpath : root.HasPath (body :: outer))
    (halone : root.StandsAlone) (hname : name ≠ "")
    (hwritten : name ∈ body.outputs ∨ ∃ node ∈ body.nodes, name ∈ node.inputs) :
    ∃ distance origin, InnermostDefinition (body :: outer) name distance origin := by
  obtain ⟨around, scope, hscopes, hcheck⟩ := hpath.checkBody halone
  obtain ⟨_, hnodes, houtputs⟩ := Surroundings.checkBody_eq_ok_iff.mp hcheck
  have hvisible : (around.enter body.definedNames).isVisible name = true := by
    rcases hwritten with houtput | ⟨node, hnode, hinput⟩
    · exact houtputs name houtput
    · exact Surroundings.isVisible_of_mentions (.input hinput) hnodes hnode hname
  rw [Surroundings.isVisible, Surroundings.enter, hscopes, ← List.map_cons (f := definedNames),
    List.any_map, List.any_eq_true] at hvisible
  obtain ⟨enclosing, hmem, hdefined⟩ := hvisible
  exact OpGraph.exists_innermostDefinition hmem (by simpa using hdefined)

theorem StandsAlone.distinct (halone : root.StandsAlone) : root.Distinct := by
  obtain ⟨_, _, hcheck⟩ := halone
  exact (Surroundings.checked_of_checkBody hcheck).distinct

end Body

end OpGraph
