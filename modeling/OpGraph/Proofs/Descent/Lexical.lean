import OpGraph.Proofs.Descent.Commitments
import OpGraph.Proofs.Descent.Depth
import OpGraph.Proofs.Descent.Settling
import OpGraph.Proofs.Scoping.Enclosing

/-!
Names are looked up lexically. The scopes of unrelated graphs may be on top of each other, when what
a graph captures leads to a node that carries graphs as well; but whoever follows the enclosing
levels, from the level of two names, comes by the bodies around the places where they are written,
and by no others. So what is found is the innermost definition of each of them.
-/

namespace OpGraph

/-- A level on the way outwards, with its two bodies. -/
structure VisitedLevel where
  level : Nat
  left : Body
  right : Body

namespace ScopeStack

/-- The levels that one comes by from a level, following the enclosing ones to the last. -/
inductive Visits (stack : ScopeStack) : Nat → List VisitedLevel → Prop where
  | last {level : Nat} {scope : Scope} : stack.scope? level = some scope → scope.parent = none →
      stack.Visits level [⟨level, scope.left, scope.right⟩]
  | outward {level parent : Nat} {scope : Scope} {visited : List VisitedLevel} :
      stack.scope? level = some scope → scope.parent = some parent →
      stack.Visits parent visited →
      stack.Visits level (⟨level, scope.left, scope.right⟩ :: visited)

/-- From every level one comes by bodies that enclose each other, in each of the operands. -/
def Lexical (leftRoot rightRoot : Body) (stack : ScopeStack) : Prop :=
  ∀ ⦃level : Nat⦄ ⦃scope : Scope⦄, stack.scope? level = some scope →
    ∃ visited, stack.Visits level visited ∧ leftRoot.HasPath (visited.map VisitedLevel.left) ∧
      rightRoot.HasPath (visited.map VisitedLevel.right)

section Visiting

variable {leftRoot rightRoot : Body} {stack stack' : ScopeStack} {level parent : Nat}
  {visited : List VisitedLevel}

/-- The first level that one comes by is that of the start. -/
theorem Visits.eq_cons (hvisits : stack.Visits level visited) :
    ∃ scope outer, stack.scope? level = some scope ∧
      visited = ⟨level, scope.left, scope.right⟩ :: outer := by
  cases hvisits with
  | last hscope _ => exact ⟨_, [], hscope, rfl⟩
  | outward hscope _ _ => exact ⟨_, _, hscope, rfl⟩

theorem Visits.of_extends (hextends : stack.Extends stack')
    (hvisits : stack.Visits level visited) : stack'.Visits level visited := by
  induction hvisits with
  | last hscope hparent =>
      obtain ⟨scope', hscope', hscopes⟩ := hextends.scope? hscope
      rw [← hscopes.left, ← hscopes.right]
      exact .last hscope' (hscopes.parent.trans hparent)
  | outward hscope hparent _ ih =>
      obtain ⟨scope', hscope', hscopes⟩ := hextends.scope? hscope
      rw [← hscopes.left, ← hscopes.right]
      exact .outward hscope' (hscopes.parent.trans hparent) ih

/-- A scope that is entered changes nothing for the other levels. -/
theorem Visits.push (hvisits : stack.Visits level visited) (left right : Body) :
    (stack.push parent left right).Visits level visited := by
  induction hvisits with
  | last hscope hparent =>
      exact .last ((scope?_push_of_lt (scope?_eq_some_lt hscope)).trans hscope) hparent
  | outward hscope hparent _ ih =>
      exact .outward ((scope?_push_of_lt (scope?_eq_some_lt hscope)).trans hscope) hparent ih

theorem lexical_ofBodies (left right : Body) : (ofBodies left right).Lexical left right := by
  intro level scope hscope
  obtain rfl : level = 0 := Nat.lt_one_iff.mp (scope?_eq_some_lt hscope)
  obtain rfl : { parent := none, left, right } = scope := Option.some.inj hscope
  exact ⟨_, .last hscope rfl, .root, .root⟩

theorem Lexical.of_extends (hlexical : stack.Lexical leftRoot rightRoot)
    (hextends : stack.Extends stack') : stack'.Lexical leftRoot rightRoot := by
  intro level scope' hscope'
  obtain ⟨scope, hscope, _⟩ := hextends.scope?_back hscope'
  obtain ⟨visited, hvisits, hleft, hright⟩ := hlexical hscope
  exact ⟨visited, hvisits.of_extends hextends, hleft, hright⟩

/-- Graphs of nodes at a level are entered inside of this level, whatever other scopes there are. -/
theorem Lexical.push (hlexical : stack.Lexical leftRoot rightRoot) {left right : Body}
    {graph graph' : Graph} (hbodies : stack.HasBodies level left right)
    (hcarried : Carried left right graph graph') :
    (stack.push level graph.body graph'.body).Lexical leftRoot rightRoot := by
  obtain ⟨scope, hscope, rfl, rfl⟩ := hbodies
  obtain ⟨⟨node, hnode, hcarries⟩, ⟨node', hnode', hcarries'⟩⟩ := hcarried
  intro place entered hentered
  rw [scope?_push] at hentered
  split at hentered
  next hplace =>
    cases hentered
    obtain ⟨visited, hvisits, hleft, hright⟩ := hlexical hscope
    obtain ⟨scope', outer, hscope', rfl⟩ := hvisits.eq_cons
    obtain rfl : scope = scope' := Option.some.inj (hscope.symm.trans hscope')
    have hentered := scope?_push_depth stack level graph.body graph'.body
    rw [← hplace] at hentered
    exact ⟨_, .outward hentered rfl (hvisits.push graph.body graph'.body),
      hleft.nested hnode hcarries, hright.nested hnode' hcarries'⟩
  next =>
    obtain ⟨visited, hvisits, hleft, hright⟩ := hlexical hentered
    exact ⟨visited, hvisits.push graph.body graph'.body, hleft, hright⟩

end Visiting

section Lookup

variable {leftRoot rightRoot : Body} {stack : ScopeStack} {level moves distance distance' : Nat}
  {visited : List VisitedLevel} {left right : String} {origin origin' : Origin}

theorem lookupOutward?_oneSided {scope : Scope} (hscope : stack.scope? level = some scope)
    (hone : (scope.left.origin? left = none) ≠ (scope.right.origin? right = none)) :
    stack.lookupOutward? left right moves level = some (level, .oneSided) := by
  have hlookup : stack.lookup? level left right = some .oneSided := by
    rw [lookup?, hscope, Option.map_some, Scope.lookup]
    cases hleft : scope.left.origin? left <;> cases hright : scope.right.origin? right <;>
      simp_all
  exact lookupOutward?_of_lookup hlookup (by simp) moves

/-- A lookup ends at its first level if one of the names is defined there, and goes on to the level
around it if none of them is. -/
theorem lookupOutward?_first {scope : Scope} {outer outer' : List Body}
    (hscope : stack.scope? level = some scope) (hleft : scope.left.UniqueNames)
    (hright : scope.right.UniqueNames)
    (hinner : InnermostDefinition (scope.left :: outer) left distance origin)
    (hinner' : InnermostDefinition (scope.right :: outer') right distance' origin') (moves : Nat) :
    (min distance distance' = 0 ∧ stack.lookupOutward? left right moves level =
        some (level, if distance = distance' then .here origin origin' else .oneSided)) ∨
      ∃ further further', distance = further + 1 ∧ distance' = further' + 1 ∧
        scope.left.origin? left = none ∧ scope.right.origin? right = none ∧
        InnermostDefinition outer left further origin ∧
        InnermostDefinition outer' right further' origin' := by
  have hname := hinner.name_ne_empty
  have hname' := hinner'.name_ne_empty
  rcases innermostDefinition_cons_iff.mp hinner with ⟨rfl, hdefines⟩ | ⟨further, rfl, hlacks, hrest⟩
  · have horigin := hdefines.origin? hleft
    refine Or.inl ⟨Nat.zero_min _, ?_⟩
    rcases innermostDefinition_cons_iff.mp hinner' with ⟨rfl, hdefines'⟩ | ⟨_, rfl, hlacks', _⟩
    · exact lookupOutward?_here hscope horigin (hdefines'.origin? hright) moves
    · have hnone' := hlacks'.origin?_eq_none fun hempty => absurd hempty hname'
      exact lookupOutward?_oneSided hscope (by simp [horigin, hnone'])
  · have hnone := hlacks.origin?_eq_none fun hempty => absurd hempty hname
    rcases innermostDefinition_cons_iff.mp hinner' with
      ⟨rfl, hdefines'⟩ | ⟨further', rfl, hlacks', hrest'⟩
    · have horigin' := hdefines'.origin? hright
      exact Or.inl ⟨Nat.min_zero _, lookupOutward?_oneSided hscope (by simp [horigin', hnone])⟩
    · have hnone' := hlacks'.origin?_eq_none fun hempty => absurd hempty hname'
      exact Or.inr ⟨further, further', rfl, rfl, hnone, hnone', hrest, hrest'⟩

/-- A lookup ends at the innermost definition of the two names that is nearer. It finds both there if
they are equally near, and only one of them if not. -/
theorem Visits.lookupOutward?_eq (hproper : stack.Proper leftRoot rightRoot)
    (hvisits : stack.Visits level visited)
    (hleft : ∀ body ∈ visited.map VisitedLevel.left, body.UniqueNames)
    (hright : ∀ body ∈ visited.map VisitedLevel.right, body.UniqueNames)
    (hinner : InnermostDefinition (visited.map VisitedLevel.left) left distance origin)
    (hinner' : InnermostDefinition (visited.map VisitedLevel.right) right distance' origin')
    (hmoves : level ≤ moves) :
    ∃ ending, visited[min distance distance']? = some ending ∧
      stack.lookupOutward? left right moves level =
        some (ending.level, if distance = distance' then .here origin origin' else .oneSided) := by
  induction hvisits generalizing moves distance distance' with
  | last hscope _ =>
      rcases lookupOutward?_first hscope (hleft _ List.mem_cons_self)
          (hright _ List.mem_cons_self) hinner hinner' moves with
        ⟨hmin, hlookup⟩ | ⟨_, _, _, _, _, _, hrest, _⟩
      · exact ⟨_, by rw [hmin]; rfl, hlookup⟩
      · obtain ⟨_, hbody, _⟩ := hrest.defines
        cases hbody
  | outward hscope hparent hrest ih =>
      rcases lookupOutward?_first hscope (hleft _ List.mem_cons_self)
          (hright _ List.mem_cons_self) hinner hinner' moves with
        ⟨hmin, hlookup⟩ | ⟨further, further', rfl, rfl, hnone, hnone', hfurther, hfurther'⟩
      · exact ⟨_, by rw [hmin]; rfl, hlookup⟩
      · have hlt := hproper.parent_lt hscope hparent
        obtain ⟨fewer, rfl⟩ : ∃ fewer, moves = fewer + 1 := ⟨moves - 1, by omega⟩
        obtain ⟨ending, hending, hlookup⟩ := ih
          (fun body hbody => hleft body (List.mem_cons_of_mem _ hbody))
          (fun body hbody => hright body (List.mem_cons_of_mem _ hbody)) hfurther hfurther'
          (by omega : _ ≤ fewer)
        refine ⟨ending, ?_, ?_⟩
        · rw [Nat.succ_min_succ, List.getElem?_cons_succ]
          exact hending
        · rw [lookupOutward?_outward hscope hnone hnone' hparent, hlookup]
          simp only [Nat.add_right_cancel_iff]

end Lookup

end ScopeStack

namespace CompareM

open ScopeStack

/-- Two names are written at the same place of a level: among the outputs of its bodies, or among the
inputs of the two nodes that the last step of the way names. -/
inductive WrittenTogether (visited : VisitedLevel) (left right : String) : List UseStep → Prop where
  | output {place : Nat} : visited.left.outputs[place]? = some left →
      visited.right.outputs[place]? = some right → WrittenTogether visited left right []
  | input {place index index' : Nat} {node node' : Node} {opType : String} {via : List UseStep} :
      visited.left.nodes[index]? = some node → visited.right.nodes[index']? = some node' →
      node.inputs[place]? = some left → node'.inputs[place]? = some right →
      WrittenTogether visited left right (.nodes visited.level index index' opType :: via)

/-- The names of a pending comparison are written at its level. -/
def Written (stack : ScopeStack) : Pending → Prop
  | .values level left right via => ∃ scope, stack.scope? level = some scope ∧
      WrittenTogether ⟨level, scope.left, scope.right⟩ left right via
  | .nodes .. => True

/-- How two names that are written at a level are looked up from there. -/
structure LexicalLookup (options : CompareOptions) (leftRoot rightRoot : Body)
    (state : CompareState) (level : Nat) (left right : String) (via : List UseStep)
    (visited : List VisitedLevel) : Prop where
  /-- The levels visited hold the bodies that enclose the place where the names are written, the
  innermost first, in both operands. -/
  visits : state.stack.Visits level visited
  left_path : leftRoot.HasPath (visited.map VisitedLevel.left)
  right_path : rightRoot.HasPath (visited.map VisitedLevel.right)
  written : ∃ innermost outer, visited = innermost :: outer ∧
    WrittenTogether innermost left right via
  /-- Both names are found at a level exactly if it holds the innermost definitions of both. -/
  here : ∀ ⦃found origin origin'⦄,
    state.stack.lookupOutward? left right level level = some (found, .here origin origin') ↔
      ∃ distance ending, visited[distance]? = some ending ∧ ending.level = found ∧
        InnermostDefinition (visited.map VisitedLevel.left) left distance origin ∧
        InnermostDefinition (visited.map VisitedLevel.right) right distance origin'
  /-- Only one of them is found exactly if the innermost definitions are at different levels. -/
  oneSided : (∃ found, state.stack.lookupOutward? left right level level =
      some (found, .oneSided)) ↔
    ∃ distance distance' origin origin', distance ≠ distance' ∧
      InnermostDefinition (visited.map VisitedLevel.left) left distance origin ∧
      InnermostDefinition (visited.map VisitedLevel.right) right distance' origin'
  /-- There is no other answer. -/
  bound : (∃ found origin origin', state.stack.lookupOutward? left right level level =
      some (found, .here origin origin')) ∨
    ∃ found, state.stack.lookupOutward? left right level level = some (found, .oneSided)
  /-- The step for the names compares where they come from if both are found, -/
  compares : ∀ ⦃found origin origin'⦄,
    state.stack.lookupOutward? left right level level = some (found, .here origin origin') →
    exec (valueStep options level left right via) state =
      exec (originStep options found left right origin origin' via) state
  /-- and ends the comparison if only one is. -/
  rejects : ∀ ⦃found⦄,
    state.stack.lookupOutward? left right level level = some (found, .oneSided) →
    exec (valueStep options level left right via) state =
      (.ok none, state.rejected options (.scopeAsymmetry left right) via)

/-- Whenever the comparison of two operands comes to two names, it looks them up lexically. -/
def LooksUpLexically (options : CompareOptions) (leftRoot rightRoot : Body) : Prop :=
  ∀ ⦃levels level : Nat⦄ ⦃left right : String⦄ ⦃via : List UseStep⦄ ⦃rest : List Pending⦄
    ⦃state : CompareState⦄,
    Reached options leftRoot rightRoot levels state (.values level left right via :: rest) →
    left ≠ "" → right ≠ "" →
    ∃ visited, LexicalLookup options leftRoot rightRoot state level left right via visited

section Reaching

variable {options : CompareOptions} {leftRoot rightRoot : Body} {levels : Nat}
  {state : CompareState} {pending : List Pending}

/-- The scopes that a comparison comes by are entered where their graphs are written. -/
theorem Reached.lexical (hreached : Reached options leftRoot rightRoot levels state pending) :
    state.stack.Lexical leftRoot rightRoot := by
  induction hreached with
  | outputs _ => exact lexical_ofBodies leftRoot rightRoot
  | step _ hstep ih => exact ih.of_extends ((stepRun_of_exec hstep).grows (nestedRun_grows _ _))
  | @nested _ _ _ _ _ _ _ _ scope leftNode rightNode _ _ call _ hfresh _ hplan hcalls _ _ ih =>
      have hextends := (callsRun_of_exec hcalls).grows (nestedRun_grows _ _)
      have hbodies : HasBodies _ _ scope.left scope.right := ⟨scope, hfresh.scope_eq, rfl, rfl⟩
      have hcall : call ∈ (attributePlan leftNode.attributes rightNode.attributes).calls := by
        rw [hplan]
        exact List.mem_append_right _ List.mem_cons_self
      obtain ⟨hcarries, hcarries'⟩ := mem_attributePlan hcall
      exact (ih.of_extends hextends).push (hbodies.of_extends hextends)
        ⟨⟨leftNode, List.mem_of_getElem? hfresh.left_eq, hcarries⟩,
          ⟨rightNode, List.mem_of_getElem? hfresh.right_eq, hcarries'⟩⟩

theorem Written.of_extends {stack stack' : ScopeStack} (hextends : stack.Extends stack')
    {next : Pending} (hwritten : Written stack next) : Written stack' next := by
  rcases next with ⟨level, left, right, via⟩ | _
  · obtain ⟨scope, hscope, htogether⟩ := hwritten
    obtain ⟨scope', hscope', hscopes⟩ := hextends.scope? hscope
    rw [← hscopes.left, ← hscopes.right] at htogether
    exact ⟨scope', hscope', htogether⟩
  · trivial

/-- The values of two lists are written where the lists are. -/
theorem written_of_pendingValues {stack : ScopeStack} {level : Nat} {lefts rights : List String}
    {via : List UseStep} {scope : Scope} (hscope : stack.scope? level = some scope)
    (htogether : ∀ ⦃place : Nat⦄ ⦃left right : String⦄, lefts[place]? = some left →
      rights[place]? = some right → WrittenTogether ⟨level, scope.left, scope.right⟩ left right via) :
    ∀ next ∈ pendingValues level lefts rights via, Written stack next := by
  intro next hnext
  obtain ⟨place, hplace⟩ := List.mem_iff_getElem?.mp hnext
  rw [pendingValues, List.getElem?_zipWith_eq_some] at hplace
  obtain ⟨left, right, hleft, hright, rfl⟩ := hplace
  exact ⟨scope, hscope, htogether hleft hright⟩

/-- What a step leads to is written at the level that it is pending at. -/
theorem StepRun.written {relation : NestedRelation} (hgrows : Grows relation) {next : Pending}
    {final : CompareState}
    (hrun : StepRun options relation state next (.ok (some pending)) final) :
    ∀ other ∈ pending, Written final.stack other := by
  cases hrun with
  | @namesLead _ found _ _ via lookup _ _ =>
      intro other hother
      unfold lookupPending at hother
      split at hother
      · rw [List.mem_singleton.mp hother]
        trivial
      · cases hother
  | partners _ _ => simp
  | @nodesPaired level left right via scope leftNode rightNode inner hfresh _ hcalls _ _ =>
      intro other hother
      have hextends := (hcalls.grows hgrows).trans (extends_pair inner.stack level left right)
      refine (written_of_pendingValues hfresh.scope_eq ?_ other hother).of_extends hextends
      exact fun place name name' hname hname' =>
        .input hfresh.left_eq hfresh.right_eq hname hname'

/-- All names that a comparison comes to are written at the level that they are pending at. -/
theorem Reached.written (hreached : Reached options leftRoot rightRoot levels state pending) :
    ∀ next ∈ pending, Written state.stack next := by
  induction hreached with
  | outputs _ =>
      have hroot : (CompareState.initial leftRoot rightRoot).stack.scope? 0 =
          some { parent := none, left := leftRoot, right := rightRoot } := rfl
      exact written_of_pendingValues hroot fun _ _ _ hname hname' =>
        .output hname hname'
  | step _ hstep ih =>
      have hrun := stepRun_of_exec hstep
      intro next hnext
      rcases List.mem_append.mp hnext with hled | hrest
      · exact StepRun.written (nestedRun_grows _ _) hrun next hled
      · exact (ih next (List.mem_cons_of_mem _ hrest)).of_extends (hrun.grows (nestedRun_grows _ _))
  | nested _ _ _ _ _ _ _ _ =>
      exact written_of_pendingValues (scope?_push_depth _ _ _ _) fun _ _ _ hname hname' =>
        .output hname hname'

/-- Names that are written together are among the outputs of the bodies or the inputs of nodes. -/
theorem WrittenTogether.mem {visited : VisitedLevel} {left right : String} {via : List UseStep}
    (htogether : WrittenTogether visited left right via) :
    (left ∈ visited.left.outputs ∨ ∃ node ∈ visited.left.nodes, left ∈ node.inputs) ∧
      (right ∈ visited.right.outputs ∨ ∃ node ∈ visited.right.nodes, right ∈ node.inputs) := by
  cases htogether with
  | output hleft hright =>
      exact ⟨Or.inl (List.mem_of_getElem? hleft), Or.inl (List.mem_of_getElem? hright)⟩
  | input hnode hnode' hleft hright =>
      exact ⟨Or.inr ⟨_, List.mem_of_getElem? hnode, List.mem_of_getElem? hleft⟩,
        Or.inr ⟨_, List.mem_of_getElem? hnode', List.mem_of_getElem? hright⟩⟩

/-- The comparison of operands that stand alone looks all names up lexically. -/
theorem looksUpLexically (hleft : leftRoot.StandsAlone) (hright : rightRoot.StandsAlone) :
    LooksUpLexically options leftRoot rightRoot := by
  intro levels level left right via rest state hreached hname hname'
  obtain ⟨scope, hscope, htogether⟩ := hreached.written _ List.mem_cons_self
  obtain ⟨visited, hvisits, hpath, hpath'⟩ := hreached.lexical hscope
  obtain ⟨scope', outer, hscope', rfl⟩ := hvisits.eq_cons
  obtain rfl : scope = scope' := Option.some.inj (hscope.symm.trans hscope')
  obtain ⟨hwritten, hwritten'⟩ := htogether.mem
  obtain ⟨distance, origin, hinner⟩ := hpath.exists_innermostDefinition hleft hname hwritten
  obtain ⟨distance', origin', hinner'⟩ := hpath'.exists_innermostDefinition hright hname' hwritten'
  have hnames : ∀ body ∈ (⟨level, scope.left, scope.right⟩ :: outer : List VisitedLevel).map
      VisitedLevel.left, body.UniqueNames :=
    fun body hbody => hleft.distinct.names body (hpath.hasScope body hbody)
  have hnames' : ∀ body ∈ (⟨level, scope.left, scope.right⟩ :: outer : List VisitedLevel).map
      VisitedLevel.right, body.UniqueNames :=
    fun body hbody => hright.distinct.names body (hpath'.hasScope body hbody)
  obtain ⟨ending, hending, hlookup⟩ := hvisits.lookupOutward?_eq hreached.proper hnames hnames'
    hinner hinner' (Nat.le_refl level)
  refine ⟨_, hvisits, hpath, hpath', ⟨_, _, rfl, htogether⟩, ?_, ?_, ?_, ?_, ?_⟩
  · intro found place place'
    constructor
    · intro hhere
      by_cases hsame : distance = distance'
      · subst hsame
        rw [if_pos rfl, hhere] at hlookup
        cases hlookup
        rw [Nat.min_self] at hending
        exact ⟨distance, ending, hending, rfl, hinner, hinner'⟩
      · rw [if_neg hsame, hhere] at hlookup
        cases hlookup
    · rintro ⟨_, ending', hending', rfl, hplace, hplace'⟩
      obtain ⟨rfl, rfl⟩ := hplace.unique hnames hinner
      obtain ⟨rfl, rfl⟩ := hplace'.unique hnames' hinner'
      rw [Nat.min_self, hending', Option.some.injEq] at hending
      rw [hlookup, if_pos rfl, hending]
  · constructor
    · rintro ⟨found, honeSided⟩
      refine ⟨distance, distance', origin, origin', ?_, hinner, hinner'⟩
      rintro rfl
      rw [if_pos rfl, honeSided] at hlookup
      cases hlookup
    · rintro ⟨_, _, _, _, hne, hplace, hplace'⟩
      obtain ⟨rfl, rfl⟩ := hplace.unique hnames hinner
      obtain ⟨rfl, rfl⟩ := hplace'.unique hnames' hinner'
      exact ⟨ending.level, by rw [hlookup, if_neg hne]⟩
  · by_cases hsame : distance = distance'
    · exact Or.inl ⟨ending.level, origin, origin', by rw [hlookup, if_pos hsame]⟩
    · exact Or.inr ⟨ending.level, by rw [hlookup, if_neg hsame]⟩
  · intro found place place' hhere
    rw [exec_valueStep, hhere, exec_originStep]
  · intro found honeSided
    rw [exec_valueStep, honeSided]
    rfl

end Reaching

end CompareM

open CompareM

/-- In the comparison of well-formed operands names are looked up lexically, whatever scopes are in
use. -/
theorem compare_looks_up_lexically (options : CompareOptions) :
    (∀ left right : Function, left.checkWellFormed = .ok () → right.checkWellFormed = .ok () →
      LooksUpLexically options left.body right.body) ∧
    ∀ left right : Graph, left.checkWellFormed = .ok () → right.checkWellFormed = .ok () →
      LooksUpLexically options left.body right.body :=
  ⟨fun _ _ hleft hright =>
      looksUpLexically (Function.standsAlone hleft) (Function.standsAlone hright),
    fun _ _ hleft hright => looksUpLexically (Graph.standsAlone hleft) (Graph.standsAlone hright)⟩

/-- While the graph of the second of two chained choices is compared, that of the first one is entered
on top of it. From there names are looked up in the operand, not in the scope below. -/
theorem compare_looks_up_lexically_chainedChoices :
    ∃ state visited, Reached {} Graph.chainedChoices.body Graph.chainedChoices.body 254 state
        [.values 2 "x" "x" []] ∧ state.stack.depth = 3 ∧
      visited.map VisitedLevel.level = [2, 0] ∧
      LexicalLookup {} Graph.chainedChoices.body Graph.chainedChoices.body state 2 "x" "x" []
        visited := by
  let operand : Body := Graph.chainedChoices.body
  let first : Graph := { outputs := ["x"] }
  let second : Graph := { outputs := ["a"] }
  let state : CompareState := .initial operand operand
  let inner : CompareState := state.entered 0 second.body second.body
  have houtput : Reached {} operand operand 256 state [.values 0 "y" "y" []] := .outputs rfl
  have hchoice : Reached {} operand operand 256 state [.nodes 0 1 1 []] := .step houtput rfl
  have hgraph : Reached {} operand operand 255 inner [.values 1 "a" "a" []] := by
    have hplan : (attributePlan [⟨"body", .graph second⟩] [⟨"body", .graph second⟩]).calls =
        [] ++ ⟨"body", 0, second, second⟩ :: [] := rfl
    exact .nested hchoice ⟨rfl, rfl, rfl, rfl⟩ rfl hplan rfl rfl rfl
  have hcaptured : Reached {} operand operand 255 inner [.nodes 0 0 0 []] := .step hgraph rfl
  have hontop : Reached {} operand operand 254 (inner.entered 0 first.body first.body)
      [.values 2 "x" "x" []] := by
    have hplan : (attributePlan [⟨"body", .graph first⟩] [⟨"body", .graph first⟩]).calls =
        [] ++ ⟨"body", 0, first, first⟩ :: [] := rfl
    exact .nested hcaptured ⟨rfl, rfl, rfl, rfl⟩ rfl hplan rfl rfl rfl
  obtain ⟨visited, hlookup⟩ :=
    (compare_looks_up_lexically {}).2 _ _ rfl rfl hontop (by decide) (by decide)
  refine ⟨_, visited, hontop, rfl, ?_, hlookup⟩
  -- the scope at level 2 was entered inside of level 0, and there is nothing around that
  cases hlookup.visits with
  | last hscope hparent =>
      cases hscope
      cases hparent
  | outward hscope hparent hrest =>
      cases hscope
      cases hparent
      cases hrest with
      | last _ _ => rfl
      | outward hscope hparent _ =>
          cases hscope
          cases hparent

end OpGraph
