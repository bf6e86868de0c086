import OpGraph.Proofs.Descent.Reach
import OpGraph.Proofs.Matching.Counting
import OpGraph.Proofs.Matching.Unmatchable
import OpGraph.Proofs.Scoping.Seeking

/-!
Pairs of nodes that a comparison has met, with what it knows of them. The descent follows the left
operand, and a pair that was accepted need not be the one that stays written; so the pairs are
collected as they are met. Nodes that were met were compared in their attributes, and whatever one of
them uses was met together with something that the other uses. From the outputs of two bodies on,
this leads to all nodes that one of them reaches.
-/

namespace OpGraph

/-- Each name of one side is covered together with one of the other side. -/
structure Tied (covers : String → String → Prop) (lefts rights : String → Prop) : Prop where
  left : ∀ ⦃name : String⦄, lefts name → ∃ name', rights name' ∧ covers name name'
  right : ∀ ⦃name' : String⦄, rights name' → ∃ name, lefts name ∧ covers name name'

/-- What the outputs of the graph lead to around it. -/
def Graph.Captures (graph : Graph) (name : String) : Prop :=
  graph.body.Seeks name ∧ graph.body.origin? name = none

/-- Two graphs in which nothing is unmatchable, and that use the same from around them. -/
structure ClearGraphs (all : Bool) (covers : String → String → Prop) (graph graph' : Graph) :
    Prop where
  left : graph.Clear all
  right : graph'.Clear all
  captures : Tied covers graph.Captures graph'.Captures

/-- Two nodes that are not unmatchable and use the same. -/
structure ClearNodes (all : Bool) (covers : String → String → Prop) (node node' : Node) : Prop where
  left : ¬ node.Unmatchable all
  right : ¬ node'.Unmatchable all
  seeks : Tied covers node.Seeks node'.Seeks

section Clearing

variable {all : Bool} {covers covers' : String → String → Prop} {node node' : Node}

theorem Tied.mono {lefts rights : String → Prop}
    (hcovers : ∀ ⦃name name' : String⦄, covers name name' → covers' name name')
    (htied : Tied covers lefts rights) : Tied covers' lefts rights where
  left _ hname := (htied.left hname).imp fun _ => And.imp_right fun hcover => hcovers hcover
  right _ hname := (htied.right hname).imp fun _ => And.imp_right fun hcover => hcovers hcover

theorem ClearGraphs.mono {graph graph' : Graph}
    (hcovers : ∀ ⦃name name' : String⦄, covers name name' → covers' name name')
    (hclear : ClearGraphs all covers graph graph') : ClearGraphs all covers' graph graph' :=
  ⟨hclear.left, hclear.right, hclear.captures.mono hcovers⟩

theorem ClearNodes.mono (hcovers : ∀ ⦃name name' : String⦄, covers name name' → covers' name name')
    (hclear : ClearNodes all covers node node') : ClearNodes all covers' node node' :=
  ⟨hclear.left, hclear.right, hclear.seeks.mono hcovers⟩

/-- If the plan for two values finds no difference, neither is a payload or a NaN. -/
theorem plain_of_valuePlan {name : String} {left right : AttributeValue}
    (hnone : (valuePlan name left right).difference? = none) :
    (left.isOpaque = false ∧ left.holdsNaN = false) ∧
      right.isOpaque = false ∧ right.holdsNaN = false := by
  unfold valuePlan at hnone
  by_cases hleft : left.isOpaque
  · simp [hleft] at hnone
  by_cases hright : right.isOpaque
  · simp [hleft, hright] at hnone
  simp only [hleft, hright, Bool.false_eq_true, if_false] at hnone
  split at hnone
  next => exact ⟨⟨rfl, rfl⟩, rfl, rfl⟩
  next => exact ⟨⟨rfl, rfl⟩, rfl, rfl⟩
  next =>
    have hsame : left.SamePlain right := plainDifference?_eq_none_iff.mp hnone
    obtain ⟨hcompared, hcompared'⟩ := hsame.isOpaque_eq
    exact ⟨⟨hcompared, hsame.holdsNaN_eq⟩, hcompared', hsame.symm.holdsNaN_eq⟩

/-- What one node uses is covered by what another one uses, if its inputs are, and if each of its
graphs captures what one of the other's graphs does. -/
theorem Node.Seeks.exists_covered
    (hinputs : ∀ name ∈ node.inputs, ∃ name' ∈ node'.inputs, covers name name')
    (hgraphs : ∀ graph, node.Carries graph → ∃ graph', node'.Carries graph' ∧
      ∀ ⦃name⦄, graph.Captures name → ∃ name', graph'.Captures name' ∧ covers name name')
    {name : String} (hseeks : node.Seeks name) : ∃ name', node'.Seeks name' ∧ covers name name' := by
  cases hseeks with
  | input hinput =>
      obtain ⟨name', hinput', hcover⟩ := hinputs name hinput
      exact ⟨name', .input hinput', hcover⟩
  | captured hcarries hseeks hnone =>
      obtain ⟨graph', hcarries', hcaptures⟩ := hgraphs _ hcarries
      obtain ⟨name', ⟨hseeks', hnone'⟩, hcover⟩ := hcaptures ⟨hseeks, hnone⟩
      exact ⟨name', .captured hcarries' hseeks' hnone', hcover⟩

/-- Two nodes are clear if the plan for their attributes finds no difference, its calls are for clear
graphs, and the inputs are covered. -/
theorem clearNodes_of_plan (hlefts : (node.attributes.map Attribute.name).Nodup)
    (hrights : (node'.attributes.map Attribute.name).Nodup)
    (hnone : (attributePlan node.attributes node'.attributes).difference? = none)
    (hcalls : ∀ call ∈ (attributePlan node.attributes node'.attributes).calls,
      ClearGraphs all covers call.left call.right)
    (hinputs : Tied covers (· ∈ node.inputs) (· ∈ node'.inputs)) :
    ClearNodes all covers node node' := by
  obtain ⟨hnames, hplans⟩ := attributePlan_eq_none hlefts hrights hnone
  have hcarried := fun graph => @exists_call_of_carries graph node node' hlefts hrights hnone
  constructor
  · refine Node.not_unmatchable ?_ fun graph hgraph => ?_
    · intro attr hattr
      obtain ⟨attr', hattr', hname⟩ :=
        List.mem_map.mp ((hnames attr.name).mp (List.mem_map_of_mem hattr))
      exact (plain_of_valuePlan (hplans attr hattr attr' hattr' hname.symm).1).1
    · obtain ⟨call, hcall, rfl⟩ := (hcarried graph).1 hgraph
      exact (hcalls call hcall).left
  · refine Node.not_unmatchable ?_ fun graph hgraph => ?_
    · intro attr' hattr'
      obtain ⟨attr, hattr, hname⟩ :=
        List.mem_map.mp ((hnames attr'.name).mpr (List.mem_map_of_mem hattr'))
      exact (plain_of_valuePlan (hplans attr hattr attr' hattr' hname).1).2
    · obtain ⟨call, hcall, rfl⟩ := (hcarried graph).2 hgraph
      exact (hcalls call hcall).right
  · constructor
    · refine fun name => Node.Seeks.exists_covered hinputs.left fun graph hgraph => ?_
      obtain ⟨call, hcall, rfl⟩ := (hcarried graph).1 hgraph
      exact ⟨_, (mem_attributePlan hcall).2, (hcalls call hcall).captures.left⟩
    · refine fun name => Node.Seeks.exists_covered hinputs.right fun graph hgraph => ?_
      obtain ⟨call, hcall, rfl⟩ := (hcarried graph).2 hgraph
      exact ⟨_, (mem_attributePlan hcall).1, (hcalls call hcall).captures.right⟩

end Clearing

/-- Pairs of a left and a right node, by their level. -/
abbrev LevelPairs : Type := Nat → Nat → Nat → Prop

/-- The pairs of either. -/
def LevelPairs.union (known known' : LevelPairs) : LevelPairs :=
  fun level index index' => known level index index' ∨ known' level index index'

theorem LevelPairs.le_union_left (known known' : LevelPairs) : known ≤ known.union known' :=
  fun _ _ _ => Or.inl

theorem LevelPairs.le_union_right (known known' : LevelPairs) : known' ≤ known.union known' :=
  fun _ _ _ => Or.inr

/-- Just the pair of these nodes at this level. -/
def LevelPairs.only (level left right : Nat) : LevelPairs :=
  fun place index index' => place = level ∧ index = left ∧ index' = right

/-- The pairs of the levels around the innermost one of so many. -/
def LevelPairs.around (known : LevelPairs) (depth : Nat) : LevelPairs :=
  fun level index index' => level + 1 < depth ∧ known level index index'

namespace ScopeStack

/-- Two names, looked up from a level, are found together: as inputs, or as outputs of two nodes that
are known to have been met together. -/
inductive Covers (stack : ScopeStack) (known : LevelPairs) : Nat → String → String → Prop where
  | inputs {level slot slot' : Nat} {scope : Scope} {name name' : String} :
      stack.scope? level = some scope → scope.left.origin? name = some (.input slot) →
      scope.right.origin? name' = some (.input slot') → Covers stack known level name name'
  | outputs {level index index' slot slot' : Nat} {scope : Scope} {name name' : String} :
      stack.scope? level = some scope → scope.left.origin? name = some (.output index slot) →
      scope.right.origin? name' = some (.output index' slot') → known level index index' →
      Covers stack known level name name'
  | outward {level parent : Nat} {scope : Scope} {name name' : String} :
      stack.scope? level = some scope → scope.left.origin? name = none →
      scope.right.origin? name' = none → scope.parent = some parent →
      Covers stack known parent name name' → Covers stack known level name name'

/-- What is pending has been looked at: the names are covered, the nodes are known. -/
def Knows (stack : ScopeStack) (known : LevelPairs) : Pending → Prop
  | .values level left right _ => stack.Covers known level left right
  | .nodes level left right _ => known level left right

/-- The two nodes at a level are clear. -/
def Clears (all : Bool) (stack : ScopeStack) (known : LevelPairs) (level index index' : Nat) :
    Prop :=
  ∃ node node', stack.NodesAt level index index' node node' ∧
    ClearNodes all (stack.Covers known level) node node'

/-- The known pairs account for all partners after a part of a comparison, and of those that were no
partners before, the nodes are clear. -/
structure Accounts (all : Bool) (before after : ScopeStack) (known : LevelPairs) : Prop where
  partners : ∀ ⦃level index index' : Nat⦄, after.partner? level index = some index' →
    known level index index'
  clear : ∀ ⦃level index index' : Nat⦄, known level index index' →
    before.partner? level index = some index' ∨ after.Clears all known level index index'

section Covering

variable {leftRoot rightRoot : Body} {all : Bool} {stack stack' : ScopeStack}
  {known known' : LevelPairs} {level index index' : Nat} {scope : Scope} {name name' : String}

theorem Covers.mono (hextends : stack.Extends stack') (hknown : known ≤ known')
    (hcovers : stack.Covers known level name name') : stack'.Covers known' level name name' := by
  induction hcovers with
  | inputs hscope hname hname' =>
      obtain ⟨scope', hscope', hscopes⟩ := hextends.scope? hscope
      exact .inputs hscope' (hscopes.left ▸ hname) (hscopes.right ▸ hname')
  | outputs hscope hname hname' hpair =>
      obtain ⟨scope', hscope', hscopes⟩ := hextends.scope? hscope
      exact .outputs hscope' (hscopes.left ▸ hname) (hscopes.right ▸ hname') (hknown _ _ _ hpair)
  | outward hscope hname hname' hparent _ ih =>
      obtain ⟨scope', hscope', hscopes⟩ := hextends.scope? hscope
      exact .outward hscope' (hscopes.left ▸ hname) (hscopes.right ▸ hname')
        (hscopes.parent ▸ hparent) ih

theorem Knows.mono {next : Pending} (hknown : known ≤ known') (hknows : stack.Knows known next) :
    stack.Knows known' next := by
  cases next with
  | values level left right via => exact Covers.mono (Extends.refl _) hknown hknows
  | nodes level left right via => exact hknown _ _ _ hknows

theorem Clears.mono (hextends : stack.Extends stack') (hknown : known ≤ known')
    (hclears : stack.Clears all known level index index') :
    stack'.Clears all known' level index index' := by
  obtain ⟨node, node', hnodes, hclear⟩ := hclears
  exact ⟨node, node', hnodes.of_extends hextends,
    hclear.mono fun _ _ hcovers => hcovers.mono hextends hknown⟩

/-- What two names at a level that are covered there are. -/
theorem Covers.at_level (hscope : stack.scope? level = some scope)
    (hcovers : stack.Covers known level name name') :
    (∃ slot slot', scope.left.origin? name = some (.input slot) ∧
        scope.right.origin? name' = some (.input slot')) ∨
      (∃ index index' slot slot', scope.left.origin? name = some (.output index slot) ∧
        scope.right.origin? name' = some (.output index' slot') ∧ known level index index') ∨
      ∃ parent, scope.left.origin? name = none ∧ scope.right.origin? name' = none ∧
        scope.parent = some parent ∧ stack.Covers known parent name name' := by
  cases hcovers with
  | inputs hscope' hname hname' =>
      obtain rfl := Option.some.inj (hscope.symm.trans hscope')
      exact .inl ⟨_, _, hname, hname'⟩
  | outputs hscope' hname hname' hpair =>
      obtain rfl := Option.some.inj (hscope.symm.trans hscope')
      exact .inr (.inl ⟨_, _, _, _, hname, hname', hpair⟩)
  | outward hscope' hname hname' hparent hcovers =>
      obtain rfl := Option.some.inj (hscope.symm.trans hscope')
      exact .inr (.inr ⟨_, hname, hname', hparent, hcovers⟩)

theorem Covers.output_left {slot : Nat} (hcovers : stack.Covers known level name name')
    (hscope : stack.scope? level = some scope)
    (hname : scope.left.origin? name = some (.output index slot)) :
    ∃ index' slot', scope.right.origin? name' = some (.output index' slot') ∧
      known level index index' := by
  rcases hcovers.at_level hscope with
    ⟨_, _, hfound, _⟩ | ⟨_, _, _, _, hfound, hname', hpair⟩ | ⟨_, hfound, _⟩ <;>
    rw [hname] at hfound <;> cases hfound
  exact ⟨_, _, hname', hpair⟩

theorem Covers.output_right {slot : Nat} (hcovers : stack.Covers known level name name')
    (hscope : stack.scope? level = some scope)
    (hname : scope.right.origin? name' = some (.output index' slot)) :
    ∃ index slot', scope.left.origin? name = some (.output index slot') ∧
      known level index index' := by
  rcases hcovers.at_level hscope with
    ⟨_, _, _, hfound⟩ | ⟨_, _, _, _, hname', hfound, hpair⟩ | ⟨_, _, hfound, _⟩ <;>
    rw [hname] at hfound <;> cases hfound
  exact ⟨_, _, hname', hpair⟩

theorem Covers.outward_left {parent : Nat} (hcovers : stack.Covers known level name name')
    (hscope : stack.scope? level = some scope) (hparent : scope.parent = some parent)
    (hname : scope.left.origin? name = none) :
    scope.right.origin? name' = none ∧ stack.Covers known parent name name' := by
  rcases hcovers.at_level hscope with
    ⟨_, _, hfound, _⟩ | ⟨_, _, _, _, hfound, _⟩ | ⟨_, _, hname', hparent', hcovers⟩
  · simp [hname] at hfound
  · simp [hname] at hfound
  · obtain rfl := Option.some.inj (hparent.symm.trans hparent')
    exact ⟨hname', hcovers⟩

theorem Covers.outward_right {parent : Nat} (hcovers : stack.Covers known level name name')
    (hscope : stack.scope? level = some scope) (hparent : scope.parent = some parent)
    (hname : scope.right.origin? name' = none) :
    scope.left.origin? name = none ∧ stack.Covers known parent name name' := by
  rcases hcovers.at_level hscope with
    ⟨_, _, _, hfound⟩ | ⟨_, _, _, _, _, hfound, _⟩ | ⟨_, hname', _, hparent', hcovers⟩
  · simp [hname] at hfound
  · simp [hname] at hfound
  · obtain rfl := Option.some.inj (hparent.symm.trans hparent')
    exact ⟨hname', hcovers⟩

/-- Two names without a failing rule are covered, if what they lead to has been looked at. -/
theorem covers_of_lookup {moves found : Nat} {lookup : Lookup} {via : List UseStep}
    (hlookup : stack.lookupOutward? name name' moves level = some (found, lookup))
    (hrule : CompareM.lookupRule? name name' lookup = none)
    (hknows : ∀ next ∈ CompareM.lookupPending found via lookup, stack'.Knows known next) :
    stack.Covers known level name name' := by
  have hfound : ∃ origin origin', lookup = .here origin origin' ∧ ∀ ⦃scope : Scope⦄,
      stack.scope? found = some scope → scope.left.origin? name = some origin →
      scope.right.origin? name' = some origin' → stack.Covers known found name name' := by
    rcases CompareM.lookupRule?_eq_none_iff.mp hrule with ⟨slot, rfl⟩ | ⟨index, index', slot, rfl⟩
    · exact ⟨_, _, rfl, fun scope => .inputs⟩
    · have hpair := hknows (.nodes found index index' via) List.mem_cons_self
      exact ⟨_, _, rfl, fun scope hscope hname hname' => .outputs hscope hname hname' hpair⟩
  obtain ⟨origin, origin', rfl, hhere⟩ := hfound
  induction moves generalizing level with
  | zero =>
      rcases lookupOutward?_eq_here hlookup with
        ⟨scope, hscope, rfl, hname, hname'⟩ | ⟨_, _, _, hmoves, _⟩
      · exact hhere hscope hname hname'
      · cases hmoves
  | succ moves ih =>
      rcases lookupOutward?_eq_here hlookup with ⟨scope, hscope, rfl, hname, hname'⟩ |
        ⟨scope, parent, fewer, hmoves, hscope, hname, hname', hparent, hrest⟩
      · exact hhere hscope hname hname'
      · cases hmoves
        exact .outward hscope hname hname' hparent (ih hrest)

theorem Clears.left {node : Node} (hclears : stack.Clears all known level index index')
    (hscope : stack.scope? level = some scope) (hnode : scope.left.nodes[index]? = some node) :
    ¬ node.Unmatchable all := by
  obtain ⟨other, node', ⟨scope', hscope', hother, _⟩, hclear⟩ := hclears
  obtain rfl := Option.some.inj (hscope.symm.trans hscope')
  obtain rfl := Option.some.inj (hnode.symm.trans hother)
  exact hclear.left

theorem Clears.right {node' : Node} (hclears : stack.Clears all known level index index')
    (hscope : stack.scope? level = some scope) (hnode : scope.right.nodes[index']? = some node') :
    ¬ node'.Unmatchable all := by
  obtain ⟨node, other, ⟨scope', hscope', _, hother⟩, hclear⟩ := hclears
  obtain rfl := Option.some.inj (hscope.symm.trans hscope')
  obtain rfl := Option.some.inj (hnode.symm.trans hother)
  exact hclear.right

/-- From the outputs on, two bodies use the same from around them and reach nodes that are known
to have been met together, if this holds for all their nodes that are known. -/
theorem tied_seeks {left right : Body} (hbodies : stack.HasBodies level left right)
    (hclear : ∀ ⦃index index' : Nat⦄, known level index index' →
      stack.Clears all known level index index')
    (houtputs : Tied (stack.Covers known level) (· ∈ left.outputs) (· ∈ right.outputs)) :
    Tied (stack.Covers known level) left.Seeks right.Seeks := by
  obtain ⟨scope, hscope, rfl, rfl⟩ := hbodies
  constructor
  · refine fun name => Body.Seeks.of_closed
      (fun name => ∃ name', scope.right.Seeks name' ∧ stack.Covers known level name name') ?_ ?_
    · intro output houtput
      obtain ⟨name', houtput', hcovers⟩ := houtputs.left houtput
      exact ⟨name', .output houtput', hcovers⟩
    · rintro used name index slot node ⟨used', hused', hcovers⟩ horigin hnode hseeks
      obtain ⟨index', slot', horigin', hpair⟩ := hcovers.output_left hscope horigin
      obtain ⟨other, node', ⟨scope', hscope', hother, hnode'⟩, hnodes⟩ := hclear hpair
      obtain rfl := Option.some.inj (hscope.symm.trans hscope')
      obtain rfl := Option.some.inj (hnode.symm.trans hother)
      obtain ⟨name', hseeks', hcovers'⟩ := hnodes.seeks.left hseeks
      exact ⟨name', hused'.of_node horigin' hnode' hseeks', hcovers'⟩
  · refine fun name' => Body.Seeks.of_closed
      (fun name' => ∃ name, scope.left.Seeks name ∧ stack.Covers known level name name') ?_ ?_
    · intro output houtput
      obtain ⟨name, houtput', hcovers⟩ := houtputs.right houtput
      exact ⟨name, .output houtput', hcovers⟩
    · rintro used' name' index' slot node' ⟨used, hused, hcovers⟩ horigin hnode' hseeks
      obtain ⟨index, slot', horigin', hpair⟩ := hcovers.output_right hscope horigin
      obtain ⟨node, other, ⟨scope', hscope', hnode, hother⟩, hnodes⟩ := hclear hpair
      obtain rfl := Option.some.inj (hscope.symm.trans hscope')
      obtain rfl := Option.some.inj (hnode'.symm.trans hother)
      obtain ⟨name, hseeks', hcovers'⟩ := hnodes.seeks.right hseeks
      exact ⟨name, hused.of_node horigin' hnode hseeks', hcovers'⟩

/-- Two graphs are clear if their known pairs are and they use the same, and if all their nodes are in
known pairs where all have to take part. -/
theorem clear_of_tied {graph graph' : Graph} (hscope : stack.scope? level = some scope)
    (hscopeLeft : scope.left = graph.body)
    (hscopeRight : scope.right = graph'.body) (hbare : graph.Bare) (hbare' : graph'.Bare)
    (hunique : graph.body.UniqueScopes) (hunique' : graph'.body.UniqueScopes)
    (hclear : ∀ ⦃index index' : Nat⦄, known level index index' →
      stack.Clears all known level index index')
    (htied : Tied (stack.Covers known level) graph.body.Seeks graph'.body.Seeks)
    (hcover : all = true → (∀ index < scope.left.nodes.length, ∃ index', known level index index') ∧
      ∀ index' < scope.right.nodes.length, ∃ index, known level index index') :
    graph.Clear all ∧ graph'.Clear all := by
  refine ⟨⟨hbare, ?_⟩, hbare', ?_⟩
  · intro index node hnode hpart
    have hnode : scope.left.nodes[index]? = some node := hscopeLeft ▸ hnode
    have hknown : ∃ index', known level index index' := by
      rcases hpart with hall | hreaches
      · exact (hcover hall).1 index (List.getElem?_eq_some_iff.mp hnode).1
      · obtain ⟨name, slot, hseeks, horigin⟩ := hreaches.exists_seeks hunique
        obtain ⟨name', _, hcovers⟩ := htied.left hseeks
        obtain ⟨index', _, _, hpair⟩ := hcovers.output_left hscope (hscopeLeft ▸ horigin)
        exact ⟨index', hpair⟩
    obtain ⟨index', hpair⟩ := hknown
    exact (hclear hpair).left hscope hnode
  · intro index' node' hnode hpart
    have hnode : scope.right.nodes[index']? = some node' := hscopeRight ▸ hnode
    have hknown : ∃ index, known level index index' := by
      rcases hpart with hall | hreaches
      · exact (hcover hall).2 index' (List.getElem?_eq_some_iff.mp hnode).1
      · obtain ⟨name', slot, hseeks, horigin⟩ := hreaches.exists_seeks hunique'
        obtain ⟨name, _, hcovers⟩ := htied.right hseeks
        obtain ⟨index, _, _, hpair⟩ := hcovers.output_right hscope (hscopeRight ▸ horigin)
        exact ⟨index, hpair⟩
    obtain ⟨index, hpair⟩ := hknown
    exact (hclear hpair).right hscope hnode

/-- Names that two graphs capture are covered from the level around them, if those that they seek are
covered from their own. -/
theorem tied_captures {graph graph' : Graph} {inside : Nat}
    (hscope : stack.scope? inside = some scope) (hscopeLeft : scope.left = graph.body)
    (hscopeRight : scope.right = graph'.body) (hparent : scope.parent = some level)
    (htied : Tied (stack.Covers known inside) graph.body.Seeks graph'.body.Seeks) :
    Tied (stack.Covers known level) graph.Captures graph'.Captures := by
  constructor
  · rintro name ⟨hseeks, hnone⟩
    obtain ⟨name', hseeks', hcovers⟩ := htied.left hseeks
    obtain ⟨hnone', hcovers⟩ := hcovers.outward_left hscope hparent (hscopeLeft ▸ hnone)
    exact ⟨name', ⟨hseeks', hscopeRight ▸ hnone'⟩, hcovers⟩
  · rintro name' ⟨hseeks, hnone⟩
    obtain ⟨name, hseeks', hcovers⟩ := htied.right hseeks
    obtain ⟨hnone', hcovers⟩ := hcovers.outward_right hscope hparent (hscopeRight ▸ hnone)
    exact ⟨name, ⟨hseeks', hscopeLeft ▸ hnone'⟩, hcovers⟩

/-- A scope that is left takes nothing with it that its surroundings need. -/
theorem Covers.pop (hproper : stack.Proper leftRoot rightRoot) (hlevel : level + 1 < stack.depth)
    (hcovers : stack.Covers known level name name') :
    stack.pop.Covers (known.around stack.depth) level name name' := by
  induction hcovers with
  | inputs hscope hname hname' =>
      exact .inputs ((scope?_pop_of_lt hlevel).trans hscope) hname hname'
  | outputs hscope hname hname' hpair =>
      exact .outputs ((scope?_pop_of_lt hlevel).trans hscope) hname hname' ⟨hlevel, hpair⟩
  | outward hscope hname hname' hparent _ ih =>
      have hlt := hproper.parent_lt hscope hparent
      exact .outward ((scope?_pop_of_lt hlevel).trans hscope) hname hname' hparent (ih (by omega))

theorem Clears.pop (hproper : stack.Proper leftRoot rightRoot) (hlevel : level + 1 < stack.depth)
    (hclears : stack.Clears all known level index index') :
    stack.pop.Clears all (known.around stack.depth) level index index' := by
  obtain ⟨node, node', ⟨scope, hscope, hnodes⟩, hclear⟩ := hclears
  exact ⟨node, node', ⟨scope, (scope?_pop_of_lt hlevel).trans hscope, hnodes⟩,
    hclear.mono fun _ _ hcovers => hcovers.pop hproper hlevel⟩

end Covering

section Accounting

variable {leftRoot rightRoot : Body} {all : Bool} {before middle after : ScopeStack}
  {known known' : LevelPairs} {level left right : Nat}

theorem Accounts.refl (all : Bool) (stack : ScopeStack) :
    Accounts all stack stack fun level index index' => stack.partner? level index = some index' :=
  ⟨fun _ _ _ hpartner => hpartner, fun _ _ _ hpartner => Or.inl hpartner⟩

/-- What was known after the first part of a comparison is still accounted for when more is known. -/
theorem Accounts.old (haccounts : Accounts all before middle known)
    (hextends : middle.Extends after) (hknown : known ≤ known') (hpair : known level left right) :
    before.partner? level left = some right ∨ after.Clears all known' level left right :=
  (haccounts.clear hpair).imp_right fun hclears => hclears.mono hextends hknown

theorem Accounts.trans (hextends : middle.Extends after) (hfirst : Accounts all before middle known)
    (hsecond : Accounts all middle after known') :
    Accounts all before after (known.union known') := by
  refine ⟨fun _ _ _ hpartner => Or.inr (hsecond.partners hpartner), ?_⟩
  rintro level index index' (hpair | hpair)
  · exact hfirst.old hextends (LevelPairs.le_union_left _ _) hpair
  · rcases hsecond.clear hpair with hpartner | hclears
    · exact hfirst.old hextends (LevelPairs.le_union_left _ _) (hfirst.partners hpartner)
    · exact Or.inr (hclears.mono (Extends.refl _) (LevelPairs.le_union_right _ _))

/-- Between two parts of a comparison a pair of clear nodes may be written, or given up for the one
that its left node has. -/
theorem Accounts.trans_pair {scope : Scope} (hscope : middle.scope? level = some scope)
    (hextends : (middle.pair level left right).Extends after)
    (hfirst : Accounts all before middle known)
    (hsecond : Accounts all (middle.pair level left right) after known')
    (hclears :
      after.Clears all (known.union (known'.union (.only level left right))) level left right) :
    Accounts all before after (known.union (known'.union (.only level left right))) := by
  have hlater := (extends_pair middle level left right).trans hextends
  refine ⟨fun _ _ _ hpartner => Or.inr (Or.inl (hsecond.partners hpartner)), ?_⟩
  rintro place index index' (hpair | hpair | ⟨rfl, rfl, rfl⟩)
  · exact hfirst.old hlater (LevelPairs.le_union_left _ _) hpair
  · rcases hsecond.clear hpair with hpartner | hclear
    · rw [partner?_pair hscope] at hpartner
      split at hpartner
      next hsame =>
        -- the new pair is written only if its left node had no partner
        obtain ⟨rfl, rfl⟩ := hsame
        cases hpartnered : middle.partner? place index with
        | none =>
            rw [hpartnered] at hpartner
            cases hpartner
            exact Or.inr hclears
        | some partner =>
            rw [hpartnered] at hpartner
            cases hpartner
            exact hfirst.old hlater (LevelPairs.le_union_left _ _) (hfirst.partners hpartnered)
      next => exact hfirst.old hlater (LevelPairs.le_union_left _ _) (hfirst.partners hpartner)
    · exact Or.inr (hclear.mono (Extends.refl _) fun _ _ _ hknown => Or.inr (Or.inl hknown))
  · exact Or.inr hclears

/-- Where all nodes have partners or are one, they are in known pairs. -/
theorem Accounts.exists_known {scope : Scope} (haccounts : Accounts all before after known)
    (hscope : after.scope? level = some scope)
    (hcover : NodeCover scope.pairing.partner? scope.left.nodes.length scope.right.nodes.length) :
    (∀ index < scope.left.nodes.length, ∃ index', known level index index') ∧
      ∀ index' < scope.right.nodes.length, ∃ index, known level index index' := by
  constructor
  · intro index hindex
    obtain ⟨index', hpartner⟩ := hcover.total index hindex
    exact ⟨index', haccounts.partners ((partner?_of_scope? hscope).trans hpartner)⟩
  · intro index' hindex
    obtain ⟨index, hpartner⟩ := hcover.onto index' hindex
    exact ⟨index, haccounts.partners ((partner?_of_scope? hscope).trans hpartner)⟩

/-- What is accounted for in a scope that was entered and left is accounted for around it. -/
theorem Accounts.of_entered {stack stack' : ScopeStack} {parent : Nat} {left right : Body}
    (hproper : stack'.Proper leftRoot rightRoot)
    (hextends : (stack.push parent left right).Extends stack')
    (haccounts : Accounts all (stack.push parent left right) stack' known) :
    Accounts all stack stack'.pop (known.around stack'.depth) := by
  have hdepth : stack'.depth = stack.depth + 1 := by rw [hextends.depth_eq, depth_push]
  constructor
  · intro level index index' hpartner
    obtain ⟨scope, hscope, hpair⟩ := Option.bind_eq_some_iff.mp hpartner
    have hlevel := scope?_eq_some_lt hscope
    rw [hextends.pop.depth_eq] at hlevel
    refine ⟨by omega, haccounts.partners ?_⟩
    exact (partner?_of_scope? (scope?_eq_some_of_pop hscope)).trans hpair
  · rintro level index index' ⟨hlevel, hpair⟩
    refine (haccounts.clear hpair).imp (fun hpartner => ?_) fun hclears => hclears.pop hproper hlevel
    rwa [partner?, scope?_push_of_lt (by omega)] at hpartner

/-- No node of two bodies is unmatchable if all are in known pairs of clear nodes. -/
theorem not_unmatchable_of_known {stack : ScopeStack} {scope : Scope}
    (hscope : stack.scope? level = some scope)
    (hclear : ∀ ⦃index index' : Nat⦄, known level index index' →
      stack.Clears all known level index index')
    (hknown : (∀ index < scope.left.nodes.length, ∃ index', known level index index') ∧
      ∀ index' < scope.right.nodes.length, ∃ index, known level index index') :
    (∀ node ∈ scope.left.nodes, ¬ node.Unmatchable all) ∧
      ∀ node ∈ scope.right.nodes, ¬ node.Unmatchable all := by
  constructor
  · intro node hmem
    obtain ⟨index, hnode⟩ := List.mem_iff_getElem?.mp hmem
    obtain ⟨index', hpair⟩ := hknown.1 index (List.getElem?_eq_some_iff.mp hnode).1
    exact (hclear hpair).left hscope hnode
  · intro node hmem
    obtain ⟨index', hnode⟩ := List.mem_iff_getElem?.mp hmem
    obtain ⟨index, hpair⟩ := hknown.2 index' (List.getElem?_eq_some_iff.mp hnode).1
    exact (hclear hpair).right hscope hnode

end Accounting

end ScopeStack

end OpGraph
