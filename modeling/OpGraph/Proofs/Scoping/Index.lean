import OpGraph.Proofs.Scoping.Violations
import Mathlib.Data.Finset.Card

/-!
The index of what a body defines. One pass over the inputs and the outputs of the nodes enters each
name with its place, and a name that is entered again gets the new place. So what is found for a name
is its last place. In a well-formed operand there is no other one: then looking up a name and reading
off the name at a place undo each other.
-/

namespace OpGraph

/-- Enters the inputs of a body. -/
def enterInputs (inputs : List String) (table : Std.HashMap String Origin) :
    Std.HashMap String Origin :=
  inputs.zipIdx.foldl (fun table (name, slot) => table.insert name (.input slot)) table

/-- Enters the outputs of a node. Omitted ones are passed over, but the places go on. -/
def Node.enterOutputs (node : Node) (index : Nat) (table : Std.HashMap String Origin) :
    Std.HashMap String Origin :=
  node.outputs.zipIdx.foldl
    (fun table (name, slot) => if name != "" then table.insert name (.output index slot) else table)
    table

namespace Body

/-- The table that one pass over a body makes. -/
def index (body : Body) : Std.HashMap String Origin :=
  body.nodes.zipIdx.foldl (fun table (node, index) => node.enterOutputs index table)
    (enterInputs body.inputs ∅)

/-- The names that are entered, in this order: the inputs and the outputs that are not omitted. -/
def enteredNames (body : Body) : List String :=
  body.inputs ++ body.nodes.flatMap fun node => node.outputs.filter (· != "")

/-- The name is entered with this place. -/
structure Enters (body : Body) (name : String) (origin : Origin) : Prop where
  nameAt : body.nameAt? origin = some name
  /-- The empty name is entered as an input only. -/
  named : name = "" → origin.node? = none

/-- The name is entered with this place, and with no later one. -/
structure EntersLast (body : Body) (name : String) (origin : Origin) : Prop where
  enters : body.Enters name origin
  last : ∀ ⦃origin' : Origin⦄, body.Enters name origin' → origin' = origin ∨ origin'.Before origin

section Index

variable {body : Body} {name name' : String} {origin : Origin}

theorem enterInputs_eq (inputs : List String) (table : Std.HashMap String Origin) :
    enterInputs inputs table = (inputDefinitions inputs).foldl
      (fun table definition => table.insert definition.1 definition.2) table := by
  rw [inputDefinitions, List.foldl_map]
  rfl

theorem enterOutputs_eq (node : Node) (index : Nat) (table : Std.HashMap String Origin) :
    node.enterOutputs index table = (node.definitions index).foldl
      (fun table definition => table.insert definition.1 definition.2) table := by
  rw [Node.definitions, List.foldl_map, List.foldl_filter]
  rfl

/-- A pass over a body enters its definitions, one after the other. -/
theorem index_eq (body : Body) : body.index = body.definitions.foldl
    (fun table definition => table.insert definition.1 definition.2) ∅ := by
  rw [definitions, List.foldl_append, List.foldl_flatMap, ← enterInputs_eq, index]
  congr 1
  funext table place
  exact enterOutputs_eq place.1 place.2 table

/-- After some definitions are entered, a table has the last place of a name, or else the one that
it had before. -/
theorem getElem?_foldl_insert (entries : List (String × Origin)) (table : Std.HashMap String Origin)
    (name : String) :
    (entries.foldl (fun table definition => table.insert definition.1 definition.2) table)[name]? =
      (entries.reverse.lookup name).or table[name]? := by
  induction entries generalizing table with
  | nil => rfl
  | cons first rest ih =>
      obtain ⟨other, origin⟩ := first
      rw [List.foldl_cons, ih, List.reverse_cons, List.lookup_append, Option.or_assoc]
      congr 1
      rw [Std.HashMap.getElem?_insert, List.lookup_cons, List.lookup_nil]
      by_cases hname : other = name
      · simp [hname]
      · have hbeq : (name == other) = false := by simpa using Ne.symm hname
        simp [hname, hbeq]

/-- The table of a body has what a search in the body finds. -/
theorem getElem?_index (body : Body) (name : String) : body.index[name]? = body.origin? name := by
  rw [index_eq, getElem?_foldl_insert, Std.HashMap.getElem?_empty, Option.or_none]
  rfl

theorem map_fst_definitions (body : Body) :
    body.definitions.map Prod.fst = body.enteredNames := by
  rw [definitions, List.map_append, map_fst_inputDefinitions, map_fst_flatMap_nodeDefinitions,
    List.filter_flatMap]
  rfl

theorem origin?_eq_none_iff_notMem : body.origin? name = none ↔ name ∉ body.enteredNames := by
  rw [origin?_eq_none_iff, map_fst_definitions]

/-- The search counts the different names that are entered. -/
theorem nameCount_eq (body : Body) : body.nameCount = body.enteredNames.toFinset.card := by
  rw [nameCount, map_fst_definitions, length_eraseDups, List.card_toFinset]

/-- The table of a body has as many names as the search counts. -/
theorem size_index (body : Body) : body.index.size = body.nameCount := by
  rw [nameCount_eq, ← Std.HashMap.length_keys,
    ← List.toFinset_card_of_nodup Std.HashMap.nodup_keys]
  congr 1
  ext name
  rw [List.mem_toFinset, List.mem_toFinset, Std.HashMap.mem_keys,
    Std.HashMap.mem_iff_isSome_getElem?, getElem?_index, Option.isSome_iff_ne_none]
  exact (not_congr origin?_eq_none_iff_notMem).trans not_not

theorem mem_definitions_iff_enters : (name, origin) ∈ body.definitions ↔ body.Enters name origin := by
  rw [mem_definitions]
  constructor
  · rintro (⟨slot, rfl, hslot⟩ | ⟨index, slot, node, rfl, hname, hnode, hslot⟩)
    · exact ⟨hslot, fun _ => rfl⟩
    · exact ⟨by rw [nameAt?, hnode, Option.bind_some, hslot], fun hempty => absurd hempty hname⟩
  · rintro ⟨hnameAt, hnamed⟩
    cases origin with
    | input slot => exact Or.inl ⟨slot, rfl, hnameAt⟩
    | output index slot =>
        obtain ⟨node, hnode, hslot⟩ := Option.bind_eq_some_iff.mp hnameAt
        have hname : name ≠ "" := fun hempty => by cases hnamed hempty
        exact Or.inr ⟨index, slot, node, rfl, hname, hnode, hslot⟩

/-- What is found was entered last: the search starts from the end. -/
theorem entersLast_of_origin? (horigin : body.origin? name = some origin) :
    body.EntersLast name origin := by
  obtain ⟨after, before, hreverse, hafter⟩ := List.lookup_eq_some_iff.mp horigin
  have hdefinitions : body.definitions = before.reverse ++ (name, origin) :: after.reverse := by
    rw [← List.reverse_reverse body.definitions, hreverse]
    simp
  have hordered := pairwise_definitions body
  rw [hdefinitions, List.pairwise_append] at hordered
  refine ⟨mem_definitions_iff_enters.mp (mem_definitions_of_origin? horigin), ?_⟩
  intro origin' henters
  have hmem := mem_definitions_iff_enters.mpr henters
  rw [hdefinitions, List.mem_append, List.mem_cons] at hmem
  rcases hmem with hbefore | heq | hlater
  · exact Or.inr (hordered.2.2 _ hbefore _ List.mem_cons_self)
  · exact Or.inl (congrArg Prod.snd heq)
  · have hne := hafter _ (List.mem_reverse.mp hlater)
    simp at hne

/-- A search finds the last place that a name is entered with. -/
theorem origin?_eq_some_iff_entersLast :
    body.origin? name = some origin ↔ body.EntersLast name origin := by
  refine ⟨entersLast_of_origin?, fun hlast => ?_⟩
  have hmem := mem_definitions_iff_enters.mpr hlast.enters
  cases horigin : body.origin? name with
  | none => exact absurd (List.mem_map_of_mem hmem) (origin?_eq_none_iff.mp horigin)
  | some found =>
      -- of two last places neither is before the other
      have hfound := entersLast_of_origin? horigin
      rcases hfound.last hlast.enters with rfl | hbefore
      · rfl
      · rcases hlast.last hfound.enters with rfl | hafter
        · rfl
        · exact absurd hafter hbefore.asymm

theorem defines_iff_nameAt? (hname : name ≠ "") :
    body.Defines name origin ↔ body.nameAt? origin = some name := by
  refine ⟨Defines.nameAt?, fun hnameAt => ?_⟩
  cases origin with
  | input slot => exact .input hname hnameAt
  | output index slot =>
      obtain ⟨node, hnode, hslot⟩ := Option.bind_eq_some_iff.mp hnameAt
      exact .output hname hnode hslot

/-- In a body that defines no name twice, what is found for a name is where the name is. -/
theorem origin?_eq_some_iff_nameAt? (hunique : body.UniqueNames) (hname : name ≠ "") :
    body.origin? name = some origin ↔ body.nameAt? origin = some name :=
  ⟨nameAt?_of_origin?, fun hnameAt => ((defines_iff_nameAt? hname).mpr hnameAt).origin? hunique⟩

/-- Different names are found at different places. -/
theorem eq_of_origin?_eq (horigin : body.origin? name = some origin)
    (horigin' : body.origin? name' = some origin) : name = name' :=
  Option.some.inj ((nameAt?_of_origin? horigin).symm.trans (nameAt?_of_origin? horigin'))

end Index

end Body

theorem Operand.standsAlone {operand : Operand} (hcheck : operand.check = .ok ()) :
    operand.body.StandsAlone := by
  cases operand with
  | function f => exact Function.standsAlone hcheck
  | graph g => exact Graph.standsAlone hcheck

/-- In every body, a search finds the last place that a name is entered with, and nothing if the name
is not entered; the names that are found are counted once each. A table made by one pass over the
body has the same places and the same count. In all scopes of a well-formed operand, what is found
for a name is where the name is, and no two names are found at the same place. -/
theorem Body.origin?_inverts_nameAt? (body : Body) :
    (∀ name origin, body.origin? name = some origin ↔ body.EntersLast name origin) ∧
      (∀ name, body.origin? name = none ↔ name ∉ body.enteredNames) ∧
      body.nameCount = body.enteredNames.toFinset.card ∧
      (∀ name, body.index[name]? = body.origin? name) ∧ body.index.size = body.nameCount ∧
      ∀ operand : Operand, operand.check = .ok () → operand.body.HasScope body →
        ∀ name, name ≠ "" →
          (∀ origin, body.origin? name = some origin ↔ body.nameAt? origin = some name) ∧
          ∀ name' origin, name' ≠ name → body.origin? name = some origin →
            body.origin? name' ≠ some origin := by
  refine ⟨fun name origin => origin?_eq_some_iff_entersLast, fun name => origin?_eq_none_iff_notMem,
    nameCount_eq body, getElem?_index body, size_index body, ?_⟩
  intro operand hcheck hscope name hname
  have hunique := (Operand.standsAlone hcheck).distinct.names body hscope
  refine ⟨fun origin => origin?_eq_some_iff_nameAt? hunique hname, ?_⟩
  intro name' origin hne horigin horigin'
  exact hne (eq_of_origin?_eq horigin' horigin)

/-- A branch that uses the second part of a split only. -/
def Graph.secondPart : Graph where
  nodes := [{ opType := "Split", inputs := ["x"], outputs := ["", "b"] }]
  outputs := ["b"]

/-- The choice of this branch. -/
def Operand.choiceOfPart : Operand := .graph {
  nodes := [{ opType := "If", inputs := ["x"], outputs := ["y"],
              attributes := [⟨"then_branch", .graph .secondPart⟩] }]
  inputs := ["x"]
  outputs := ["y"] }

/-- The part that is left out is not entered, but the place of the other one counts it. -/
theorem Body.origin?_inverts_secondPart :
    Operand.choiceOfPart.check = .ok () ∧
      Operand.choiceOfPart.body.HasScope Graph.secondPart.body ∧
      Graph.secondPart.body.nameAt? (.output 0 1) = some "b" ∧
      Graph.secondPart.body.origin? "b" = some (.output 0 1) ∧
      Graph.secondPart.body.nameAt? (.output 0 0) = some "" ∧
      Graph.secondPart.body.origin? "" = none := by
  have hscope : Operand.choiceOfPart.body.HasScope Graph.secondPart.body :=
    .nested .root List.mem_cons_self ⟨_, List.mem_cons_self, List.mem_cons_self⟩
  obtain ⟨_, hnone, _, _, _, hinverse⟩ := Body.origin?_inverts_nameAt? Graph.secondPart.body
  have hfound := (hinverse Operand.choiceOfPart rfl hscope "b" (by decide)).1 (.output 0 1)
  exact ⟨rfl, hscope, rfl, hfound.mpr rfl, rfl, (hnone "").mpr (by decide)⟩

end OpGraph
