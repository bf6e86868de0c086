import OpGraph.Proofs.Scoping.Ranks
import OpGraph.Proofs.Scoping.WellFormed
import OpGraph.Proofs.Matching.Relation

/-!
What a graph computes, for any meaning of the operations. A node gives a value to each of its
outputs, by its operation, its attributes and the values of its inputs. A graph in an attribute
means the function from its inputs to its outputs, in an environment that gives the values that it
captures. Labels do not matter, and neither do initializers, which define no names.

The values of a body are found in rounds, each of which computes all nodes from the values of the
round before. Where the dependencies are not cyclic, nothing changes after as many rounds as there
are nodes, and one more: the values solve the equations that the nodes state.
-/

namespace OpGraph

universe u

/-- The values of names. A name has none if it stands for an omitted value, or is not computed yet.
-/
abbrev Environment (V : Type u) : Type u := String → Option V

/-- What an attribute hands to an operation. -/
inductive AttributeMeaning (V : Type u) where
  | plain (value : AttributeValue)
  | graph (function : List V → List (Option V))
  | graphs (functions : List (List V → List (Option V)))

/-- The same meaning, but for floats that are equal as numbers. -/
inductive AttributeMeaning.Same {V : Type u} : AttributeMeaning V → AttributeMeaning V → Prop where
  | refl (meaning : AttributeMeaning V) : Same meaning meaning
  | plain {left right : AttributeValue} : left.SamePlain right → Same (.plain left) (.plain right)

/-- A meaning of the operations: a value for each slot of the outputs, which depends on operation
and domain, on the attributes by name, and on the values of the inputs. Floats that are equal as
numbers make no difference. -/
structure Interpretation (V : Type u) where
  result : String → String → (String → Option (AttributeMeaning V)) → List (Option V) → Nat → V
  respects : ∀ (opType domain : String) (left right : String → Option (AttributeMeaning V))
    (args : List (Option V)) (slot : Nat),
    (∀ name, Option.Rel AttributeMeaning.Same (left name) (right name)) →
    result opType domain left args slot = result opType domain right args slot

section Meaning

variable {V : Type u}

/-- One round: the values of all names, by those of the round before. -/
def Body.round (body : Body) (results : List (Environment V → Nat → V)) (around : Environment V)
    (args : List V) (before : Environment V) : Environment V := fun name =>
  match body.origin? name with
  | none => around name
  | some (.input slot) => args[slot]?
  | some (.output index slot) => results[index]?.map fun result => result before slot

/-- The values of all names after so many rounds. -/
def Body.rounds (body : Body) (results : List (Environment V → Nat → V)) (around : Environment V)
    (args : List V) : Nat → Environment V
  | 0 => fun _ => none
  | count + 1 => body.round results around args (body.rounds results around args count)

variable (meaning : Interpretation V)

mutual

/-- The function from the inputs of a graph to its outputs, where the given values are captured. -/
def Graph.denote : Graph → Environment V → List V → List (Option V)
  | ⟨_, nodes, inputs, outputs, _, _⟩, around, args =>
      outputs.map (Body.rounds ⟨nodes, inputs, outputs⟩ (denoteNodes nodes) around args
        (nodes.length + 1))

def denoteNodes : List Node → List (Environment V → Nat → V)
  | [] => []
  | ⟨_, opType, domain, inputs, _, attributes⟩ :: nodes =>
      (fun env => meaning.result opType domain (denoteAttributes attributes env)
        (inputs.map env)) :: denoteNodes nodes

def denoteAttributes : List Attribute → Environment V → String → Option (AttributeMeaning V)
  | [], _, _ => none
  | ⟨name, value⟩ :: rest, env, key =>
      if key = name then some (denoteValue value env) else denoteAttributes rest env key

def denoteValue : AttributeValue → Environment V → AttributeMeaning V
  | .graph graph, env => .graph (graph.denote env)
  | .graphs graphs, env => .graphs (denoteGraphs graphs env)
  | value, _ => .plain value

def denoteGraphs : List Graph → Environment V → List (List V → List (Option V))
  | [], _ => []
  | graph :: graphs, env => graph.denote env :: denoteGraphs graphs env

end

/-- The values of the outputs of a node. -/
def Node.denote (node : Node) (env : Environment V) : Nat → V :=
  meaning.result node.opType node.domain (denoteAttributes meaning node.attributes env)
    (node.inputs.map env)

/-- The values of all names inside of a body. -/
def Body.values (body : Body) (around : Environment V) (args : List V) : Environment V :=
  body.rounds (body.nodes.map (Node.denote meaning)) around args (body.nodes.length + 1)

/-- The outputs of a graph that stands by itself. -/
def Graph.evaluate (graph : Graph) (args : List V) : List (Option V) :=
  graph.denote meaning (fun _ => none) args

variable {meaning}

theorem denoteNodes_eq (nodes : List Node) :
    denoteNodes meaning nodes = nodes.map (Node.denote meaning) := by
  induction nodes with
  | nil => rfl
  | cons node rest ih =>
      cases node
      rw [denoteNodes, ih, List.map_cons]
      rfl

theorem denoteGraphs_eq (graphs : List Graph) (env : Environment V) :
    denoteGraphs meaning graphs env = graphs.map fun graph => graph.denote meaning env := by
  induction graphs with
  | nil => rfl
  | cons graph rest ih => rw [denoteGraphs, ih, List.map_cons]

/-- The outputs of a graph are read off the values inside of it. -/
theorem Graph.denote_eq (graph : Graph) (around : Environment V) (args : List V) :
    graph.denote meaning around args =
      graph.outputs.map (graph.body.values meaning around args) := by
  cases graph
  rw [denote, denoteNodes_eq]
  rfl

/-- An attribute is found by its name, where no name repeats. -/
theorem denoteAttributes_of_mem {attributes : List Attribute} {attr : Attribute}
    (hnodup : (attributes.map Attribute.name).Nodup) (hattr : attr ∈ attributes)
    (env : Environment V) :
    denoteAttributes meaning attributes env attr.name = some (denoteValue meaning attr.value env) := by
  induction attributes with
  | nil => simp at hattr
  | cons head rest ih =>
      obtain ⟨name, value⟩ := head
      rw [List.map_cons, List.nodup_cons] at hnodup
      rw [denoteAttributes]
      rcases List.mem_cons.mp hattr with rfl | hrest
      · exact if_pos rfl
      · have hne : attr.name ≠ name := by
          intro heq
          exact hnodup.1 (List.mem_map.mpr ⟨attr, hrest, heq⟩)
        rw [if_neg hne]
        exact ih hnodup.2 hrest

theorem denoteAttributes_of_notMem {attributes : List Attribute} {name : String}
    (hname : name ∉ attributes.map Attribute.name) (env : Environment V) :
    denoteAttributes meaning attributes env name = none := by
  induction attributes with
  | nil => rfl
  | cons head rest ih =>
      obtain ⟨other, value⟩ := head
      rw [List.map_cons, List.mem_cons, not_or] at hname
      rw [denoteAttributes, if_neg hname.1]
      exact ih hname.2

section Locality

variable {env env' : Environment V} {node : Node}

/-- The values of a node depend on those of the names that it mentions only. -/
def Node.Local (meaning : Interpretation V) (node : Node) : Prop :=
  ∀ ⦃env env' : Environment V⦄, (∀ name, node.Mentions name → env name = env' name) →
    node.denote meaning env = node.denote meaning env'

theorem Body.rounds_congr {body : Body} (hlocal : ∀ node ∈ body.nodes, node.Local meaning)
    (hagree : ∀ name, body.Captures name → env name = env' name) {args : List V} (count : Nat)
    {name : String} (huses : body.Uses name) :
    body.rounds (body.nodes.map (Node.denote meaning)) env args count name =
      body.rounds (body.nodes.map (Node.denote meaning)) env' args count name := by
  induction count generalizing name with
  | zero => rfl
  | succ count ih =>
      rw [rounds, rounds, round, round]
      cases horigin : body.origin? name with
      | none => exact hagree name ⟨huses, lacks_of_origin?_eq_none horigin⟩
      | some origin =>
          rcases origin with slot | ⟨index, slot⟩
          · rfl
          · simp only [List.getElem?_map]
            cases hnode : body.nodes[index]? with
            | none => rfl
            | some node =>
                have hmem := List.mem_of_getElem? hnode
                simp only [Option.map_some]
                rw [hlocal node hmem fun other hmentions => ih (Or.inr ⟨node, hmem, hmentions⟩)]

/-- A graph depends on the values that it captures only. -/
theorem Graph.denote_congr {graph : Graph} (hlocal : ∀ node ∈ graph.nodes, node.Local meaning)
    (hagree : ∀ name, graph.body.Captures name → env name = env' name) :
    graph.denote meaning env = graph.denote meaning env' := by
  funext args
  rw [Graph.denote_eq, Graph.denote_eq]
  exact List.map_congr_left fun name hname =>
    Body.rounds_congr hlocal hagree _ (Or.inl hname)

theorem denoteValue_congr {value : AttributeValue}
    (hgraphs : ∀ graph ∈ value.subgraphs, graph.denote meaning env = graph.denote meaning env') :
    denoteValue meaning value env = denoteValue meaning value env' := by
  cases value with
  | graph graph =>
      rw [denoteValue, denoteValue, hgraphs graph List.mem_cons_self]
  | graphs graphs =>
      have hmaps := List.map_congr_left hgraphs
      rw [AttributeValue.subgraphs] at hmaps
      rw [denoteValue, denoteValue, denoteGraphs_eq, denoteGraphs_eq, hmaps]
  | _ => rfl

theorem denoteAttributes_congr {attributes : List Attribute}
    (hgraphs : ∀ attr ∈ attributes, ∀ graph ∈ attr.value.subgraphs,
      graph.denote meaning env = graph.denote meaning env') :
    denoteAttributes meaning attributes env = denoteAttributes meaning attributes env' := by
  funext key
  induction attributes with
  | nil => rfl
  | cons head rest ih =>
      obtain ⟨name, value⟩ := head
      rw [denoteAttributes, denoteAttributes, ih fun attr hattr =>
        hgraphs attr (List.mem_cons_of_mem _ hattr),
        denoteValue_congr (hgraphs ⟨name, value⟩ List.mem_cons_self)]

theorem Node.local_all (meaning : Interpretation V) (node : Node) : node.Local meaning := by
  induction node using Node.carried_induction with
  | hstep node ih =>
      intro env env' hagree
      have hattributes : denoteAttributes meaning node.attributes env =
          denoteAttributes meaning node.attributes env' := by
        refine denoteAttributes_congr fun attr hattr graph hgraph => ?_
        have hcarries : node.Carries graph := ⟨attr, hattr, hgraph⟩
        exact Graph.denote_congr (ih graph hcarries) fun name hcaptures =>
          hagree name (hcaptures.mentions hcarries)
      have hinputs : node.inputs.map env = node.inputs.map env' :=
        List.map_congr_left fun name hname => hagree name (.input hname)
      rw [denote, denote, hattributes, hinputs]

end Locality

section Equations

variable {body : Body} {around : Environment V} {args : List V} {name : String}

/-- The rounds after which the value of a name is known for sure. -/
noncomputable def Body.roundsNeeded (body : Body) (name : String) : Nat :=
  match body.origin? name with
  | some (.output index _) => body.rank index + 2
  | _ => 1

theorem Body.roundsNeeded_le (hacyclic : body.Acyclic) (name : String) :
    body.roundsNeeded name ≤ body.nodes.length + 1 := by
  rw [roundsNeeded]
  split
  next index slot horigin =>
    have hlt := rank_lt_length hacyclic (defines_of_origin?_eq_output horigin).lt_length
    omega
  next => omega

/-- What a node mentions is known before the outputs of the node are. -/
theorem Body.roundsNeeded_lt (hacyclic : body.Acyclic) {other : String} {index slot : Nat}
    {node : Node} (horigin : body.origin? name = some (.output index slot))
    (hnode : body.nodes[index]? = some node) (hmentions : node.Mentions other) :
    body.roundsNeeded other < body.roundsNeeded name := by
  rw [roundsNeeded, roundsNeeded, horigin]
  split
  next used usedSlot hused =>
    have hdepends : body.DependsOn index used :=
      ⟨node, other, usedSlot, hnode, hmentions, defines_of_origin?_eq_output hused⟩
    have hlt := hdepends.rank_lt hacyclic
    omega
  next => omega

/-- Once the value of a name is known, further rounds keep it. -/
theorem Body.rounds_succ_eq (hacyclic : body.Acyclic) {count : Nat}
    (hcount : body.roundsNeeded name ≤ count) :
    body.rounds (body.nodes.map (Node.denote meaning)) around args (count + 1) name =
      body.rounds (body.nodes.map (Node.denote meaning)) around args count name := by
  induction count generalizing name with
  | zero =>
      have hpos : 0 < body.roundsNeeded name := by
        rw [roundsNeeded]
        split <;> omega
      omega
  | succ count ih =>
      rw [rounds, round]
      conv_rhs => rw [rounds, round]
      cases horigin : body.origin? name with
      | none => rfl
      | some origin =>
          rcases origin with slot | ⟨index, slot⟩
          · rfl
          · simp only [List.getElem?_map]
            cases hnode : body.nodes[index]? with
            | none => rfl
            | some node =>
                simp only [Option.map_some]
                rw [Node.local_all meaning node fun other hmentions => ih ?_]
                have hlt := roundsNeeded_lt hacyclic horigin hnode hmentions
                omega

/-- Without cyclic dependencies the values stay the same in one more round. -/
theorem Body.round_values (hacyclic : body.Acyclic) :
    body.round (body.nodes.map (Node.denote meaning)) around args (body.values meaning around args) =
      body.values meaning around args := by
  funext name
  exact rounds_succ_eq hacyclic (roundsNeeded_le hacyclic name)

/-- A name that the body lacks has its value from around. -/
theorem Body.values_of_lacks (hnamed : "" ∉ body.inputs) (hlacks : body.Lacks name) :
    body.values meaning around args name = around name := by
  rw [values, rounds, round, hlacks.origin?_eq_none fun _ => hnamed]

/-- The inputs have the values that they are given. -/
theorem Body.values_of_input (hunique : body.UniqueNames) {slot : Nat}
    (hdefines : body.Defines name (.input slot)) :
    body.values meaning around args name = args[slot]? := by
  rw [values, rounds, round, hdefines.origin? hunique]

/-- The outputs of a node have the values that the node gives to them. -/
theorem Body.values_of_output (hunique : body.UniqueNames) (hacyclic : body.Acyclic)
    {index slot : Nat} {node : Node} (hdefines : body.Defines name (.output index slot))
    (hnode : body.nodes[index]? = some node) :
    body.values meaning around args name =
      some (node.denote meaning (body.values meaning around args) slot) := by
  conv_lhs => rw [← round_values hacyclic, round, hdefines.origin? hunique]
  simp only [List.getElem?_map, hnode, Option.map_some]

end Equations

end Meaning

end OpGraph
