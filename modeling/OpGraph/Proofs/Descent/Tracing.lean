import OpGraph.Proofs.Descent.PairedOnce

/-!
What a comparison meets, whatever the operands are and however it ends. All that is pending and all
that is paired is met by the searches of the two operands in step; a nested scope stands behind a
pair of nodes that was met. So a node has no partner unless both are reached from the outputs, and
what is looked for is always there: only the limit on the depth of the nesting may stop a comparison,
or a left node that depends on itself and is paired twice.
-/

namespace OpGraph

namespace Body

/-- Two nodes are behind names that are met together. -/
def MeetTogether (left right : Body) (index index' : Nat) : Prop :=
  ∃ name name' slot slot', SeekTogether left right name name' ∧
    left.origin? name = some (.output index slot) ∧ right.origin? name' = some (.output index' slot')

/-- Two graphs are at the same place of nodes that are met together. -/
def HoldTogether (left right : Body) (graph graph' : Graph) : Prop :=
  ∃ index index' node node', left.MeetTogether right index index' ∧
    left.nodes[index]? = some node ∧ right.nodes[index']? = some node' ∧
    node.CarryTogether node' graph graph'

section Meeting

variable {left right : Body} {index index' : Nat} {node node' : Node} {graph graph' : Graph}

/-- Nodes that are met together are reached on either side. -/
theorem MeetTogether.reaches (hmeet : left.MeetTogether right index index') :
    left.Reaches index ∧ right.Reaches index' := by
  obtain ⟨name, name', slot, slot', htogether, horigin, horigin'⟩ := hmeet
  exact ⟨htogether.seeks.reaches horigin, htogether.symm.seeks.reaches horigin'⟩

theorem MeetTogether.in_range (hmeet : left.MeetTogether right index index') :
    index < left.nodes.length ∧ index' < right.nodes.length := by
  obtain ⟨name, name', slot, slot', htogether, horigin, horigin'⟩ := hmeet
  exact ⟨(defines_of_origin?_eq_output horigin).lt_length,
    (defines_of_origin?_eq_output horigin').lt_length⟩

theorem MeetTogether.input (hmeet : left.MeetTogether right index index')
    (hnode : left.nodes[index]? = some node) (hnode' : right.nodes[index']? = some node')
    {name name' : String} {place : Nat} (hname : node.inputs[place]? = some name)
    (hname' : node'.inputs[place]? = some name') : SeekTogether left right name name' := by
  obtain ⟨_, _, _, _, htogether, horigin, horigin'⟩ := hmeet
  exact .input htogether horigin hnode horigin' hnode' hname hname'

/-- Names that graphs at the same place capture are met together further out. -/
theorem HoldTogether.captured (hhold : left.HoldTogether right graph graph') {name name' : String}
    (htogether : SeekTogether graph.body graph'.body name name')
    (hnone : graph.body.origin? name = none) (hnone' : graph'.body.origin? name' = none) :
    SeekTogether left right name name' := by
  obtain ⟨_, _, _, _, ⟨_, _, _, _, hused, horigin, horigin'⟩, hnode, hnode', hcarry⟩ := hhold
  exact .captured hused horigin hnode horigin' hnode' hcarry htogether hnone hnone'

theorem HoldTogether.carried (hhold : left.HoldTogether right graph graph') :
    Carried left right graph graph' := by
  obtain ⟨_, _, _, _, _, hnode, hnode', hcarry⟩ := hhold
  exact ⟨⟨_, List.mem_of_getElem? hnode, hcarry.carries⟩,
    ⟨_, List.mem_of_getElem? hnode', hcarry.symm.carries⟩⟩

end Meeting

end Body

namespace ScopeStack

/-- Two graphs are at the same place of nodes of a level that are met together. -/
def HoldTogether (stack : ScopeStack) (level : Nat) (graph graph' : Graph) : Prop :=
  ∃ scope, stack.scope? level = some scope ∧ scope.left.HoldTogether scope.right graph graph'

/-- Nested scopes are of graphs at the same place of nodes that are met together, and partners are
met together. -/
structure Traced (stack : ScopeStack) : Prop where
  nested : ∀ ⦃level parent : Nat⦄ ⦃scope : Scope⦄, stack.scope? level = some scope →
    scope.parent = some parent → ∃ graph graph', stack.HoldTogether parent graph graph' ∧
      scope.left = graph.body ∧ scope.right = graph'.body
  paired : ∀ ⦃level index index' : Nat⦄ ⦃scope : Scope⦄, stack.scope? level = some scope →
    stack.partner? level index = some index' → scope.left.MeetTogether scope.right index index'

/-- What is to be compared is met together. -/
def Met (stack : ScopeStack) : Pending → Prop
  | .values level left right _ => ∃ scope, stack.scope? level = some scope ∧
      Body.SeekTogether scope.left scope.right left right
  | .nodes level left right _ => ∃ scope, stack.scope? level = some scope ∧
      scope.left.MeetTogether scope.right left right

section Tracing

variable {leftRoot rightRoot : Body} {stack stack' : ScopeStack} {level : Nat}
  {graph graph' : Graph}

theorem HoldTogether.of_extends (hextends : stack.Extends stack')
    (hhold : stack.HoldTogether level graph graph') : stack'.HoldTogether level graph graph' := by
  obtain ⟨scope, hscope, hholds⟩ := hhold
  obtain ⟨scope', hscope', hscopes⟩ := hextends.scope? hscope
  exact ⟨scope', hscope', by rwa [hscopes.left, hscopes.right]⟩

theorem Met.of_extends (hextends : stack.Extends stack') {next : Pending} (hmet : stack.Met next) :
    stack'.Met next := by
  rcases next with ⟨level, left, right, via⟩ | ⟨level, left, right, via⟩
  all_goals
    obtain ⟨scope, hscope, hmeets⟩ := hmet
    obtain ⟨scope', hscope', hscopes⟩ := hextends.scope? hscope
    exact ⟨scope', hscope', by rwa [hscopes.left, hscopes.right]⟩

/-- A lookup from a level that is there ends, for each level stands behind the one around it. -/
theorem lookupOutward?_ne_none (hparents : ∀ {level parent : Nat} {scope : Scope},
      stack.scope? level = some scope → scope.parent = some parent → parent < level) {scope : Scope}
    (hscope : stack.scope? level = some scope) {left right : String} {moves : Nat}
    (hmoves : level ≤ moves) : stack.lookupOutward? left right moves level ≠ none := by
  induction moves generalizing level scope with
  | zero =>
      obtain rfl : level = 0 := Nat.le_zero.mp hmoves
      rw [lookupOutward?, lookup?, hscope, Option.map_some]
      split
      · simp_all
      next houtward =>
        obtain ⟨_, _, hparent⟩ := lookup_eq_outward (Option.some.inj houtward)
        exact absurd (hparents hscope hparent) (Nat.not_lt_zero _)
      · simp
  | succ moves ih =>
      rw [lookupOutward?, lookup?, hscope, Option.map_some]
      split
      · simp_all
      next houtward =>
        obtain ⟨_, _, hparent⟩ := lookup_eq_outward (Option.some.inj houtward)
        have hlt := hparents hscope hparent
        have hdepth : _ < stack.depth := Nat.lt_trans hlt (scope?_eq_some_lt hscope)
        exact ih (List.getElem?_eq_getElem hdepth) (by omega)
      · simp

/-- Where the lookup of names ends that are met together, they are met together too. -/
theorem Traced.lookup_ends (htraced : stack.Traced) {scope : Scope} {moves found : Nat}
    {left right : String} {lookup : Lookup} (hscope : stack.scope? level = some scope)
    (htogether : Body.SeekTogether scope.left scope.right left right)
    (hlookup : stack.lookupOutward? left right moves level = some (found, lookup)) :
    ∃ scope', stack.scope? found = some scope' ∧
      Body.SeekTogether scope'.left scope'.right left right ∧
      scope'.lookup left right = lookup := by
  have hends : ∀ {level : Nat} {scope : Scope}, stack.scope? level = some scope →
      Body.SeekTogether scope.left scope.right left right →
      stack.lookup? level left right = some lookup → ∃ scope', stack.scope? level = some scope' ∧
        Body.SeekTogether scope'.left scope'.right left right ∧
        scope'.lookup left right = lookup := by
    intro level scope hscope htogether hlevel
    rw [lookup?, hscope, Option.map_some, Option.some.injEq] at hlevel
    exact ⟨scope, hscope, htogether, hlevel⟩
  induction moves generalizing level scope with
  | zero =>
      rcases lookupOutward?_eq_some hlookup with ⟨hlevel, rfl⟩ | ⟨_, _, hmoves, _⟩
      · exact hends hscope htogether hlevel
      · cases hmoves
  | succ moves ih =>
      rcases lookupOutward?_eq_some hlookup with ⟨hlevel, rfl⟩ | ⟨parent, _, hmoves, hlevel, hrest⟩
      · exact hends hscope htogether hlevel
      · cases hmoves
        rw [lookup?, hscope, Option.map_some, Option.some.injEq] at hlevel
        obtain ⟨hnone, hnone', hparent⟩ := lookup_eq_outward hlevel
        obtain ⟨graph, graph', ⟨outer, houter, hhold⟩, hleft, hright⟩ :=
          htraced.nested hscope hparent
        rw [hleft, hright] at htogether
        rw [hleft] at hnone
        rw [hright] at hnone'
        exact ih houter (hhold.captured htogether hnone hnone') hrest

/-- Where names that are met together are found, they are met together too. -/
theorem Traced.lookup (htraced : stack.Traced) {scope : Scope} {found moves : Nat}
    {left right : String} {origin origin' : Origin} (hscope : stack.scope? level = some scope)
    (htogether : Body.SeekTogether scope.left scope.right left right)
    (hlookup : stack.lookupOutward? left right moves level = some (found, .here origin origin')) :
    ∃ scope', stack.scope? found = some scope' ∧
      Body.SeekTogether scope'.left scope'.right left right ∧
      scope'.left.origin? left = some origin ∧ scope'.right.origin? right = some origin' := by
  obtain ⟨scope', hscope', htogether', hfound⟩ := htraced.lookup_ends hscope htogether hlookup
  exact ⟨scope', hscope', htogether', lookup_eq_here hfound⟩

theorem Traced.pair (htraced : stack.Traced) {scope : Scope} {left right : Nat}
    (hscope : stack.scope? level = some scope)
    (hmeet : scope.left.MeetTogether scope.right left right) :
    (stack.pair level left right).Traced := by
  have hextends := extends_pair stack level left right
  constructor
  · intro other parent scope' hscope' hparent
    obtain ⟨before, hbefore, hscopes⟩ := hextends.scope?_back hscope'
    rw [hscopes.parent] at hparent
    obtain ⟨graph, graph', hhold, hleft, hright⟩ := htraced.nested hbefore hparent
    exact ⟨graph, graph', hhold.of_extends hextends, hscopes.left.trans hleft,
      hscopes.right.trans hright⟩
  · intro other index index' scope' hscope' hpair
    obtain ⟨before, hbefore, hscopes⟩ := hextends.scope?_back hscope'
    rw [hscopes.left, hscopes.right]
    rw [partner?_pair hscope] at hpair
    split at hpair
    next hsame =>
      obtain ⟨rfl, rfl⟩ := hsame
      cases hold : stack.partner? other index with
      | some partner =>
          rw [hold, Option.getD_some] at hpair
          exact htraced.paired hbefore (hold.trans hpair)
      | none =>
          rw [hold, Option.getD_none, Option.some.injEq] at hpair
          rw [hscope, Option.some.injEq] at hbefore
          exact hbefore ▸ hpair ▸ hmeet
    next => exact htraced.paired hbefore hpair

theorem Traced.push (htraced : stack.Traced) (hhold : stack.HoldTogether level graph graph') :
    (stack.push level graph.body graph'.body).Traced := by
  have hkept : ∀ {other : Nat} {lefts rights : Graph}, stack.HoldTogether other lefts rights →
      (stack.push level graph.body graph'.body).HoldTogether other lefts rights := by
    rintro other lefts rights ⟨scope, hscope, hholds⟩
    exact ⟨scope, by rwa [scope?_push_of_lt (scope?_eq_some_lt hscope)], hholds⟩
  constructor
  · intro other parent scope hscope hparent
    rw [scope?_push] at hscope
    split at hscope
    · cases hscope
      cases hparent
      exact ⟨graph, graph', hkept hhold, rfl, rfl⟩
    · obtain ⟨lefts, rights, hholds, hbodies⟩ := htraced.nested hscope hparent
      exact ⟨lefts, rights, hkept hholds, hbodies⟩
  · intro other index index' scope hscope hpair
    rw [partner?_of_scope? hscope] at hpair
    rw [scope?_push] at hscope
    split at hscope
    · cases hscope
      simp [Pairing.partner?] at hpair
    · exact htraced.paired hscope ((partner?_of_scope? hscope).trans hpair)

theorem Traced.pop (hproper : stack.Proper leftRoot rightRoot) (htraced : stack.Traced)
    (hdepth : stack.pop.depth + 1 = stack.depth) : stack.pop.Traced := by
  constructor
  · intro other parent scope hscope hparent
    have hbefore := scope?_eq_some_of_pop hscope
    have hlt := scope?_eq_some_lt hscope
    have hparentLt := hproper.parent_lt hbefore hparent
    obtain ⟨graph, graph', ⟨outer, houter, hhold⟩, hbodies⟩ := htraced.nested hbefore hparent
    exact ⟨graph, graph', ⟨outer, by rwa [scope?_pop_of_lt (by omega)], hhold⟩, hbodies⟩
  · intro other index index' scope hscope hpair
    have hbefore := scope?_eq_some_of_pop hscope
    rw [partner?_of_scope? hscope] at hpair
    exact htraced.paired hbefore ((partner?_of_scope? hbefore).trans hpair)

theorem traced_ofBodies (left right : Body) : (ofBodies left right).Traced := by
  have hroot : ∀ {level : Nat} {scope : Scope}, (ofBodies left right).scope? level = some scope →
      scope = { parent := none, left, right } := fun hscope =>
    List.mem_singleton.mp (List.mem_of_getElem? hscope)
  constructor
  · intro level parent scope hscope hparent
    rw [hroot hscope] at hparent
    cases hparent
  · intro level index index' scope hscope hpair
    rw [partner?_of_scope? hscope, hroot hscope] at hpair
    simp [Pairing.partner?] at hpair

end Tracing

end ScopeStack

namespace CompareM

open ScopeStack

/-- So a comparison ends that is only ever given up for its depth, or because it comes to pair a node
twice. -/
inductive EndsWith {α : Type} (options : CompareOptions) (value : α) : Outcome α → Prop where
  | answered : EndsWith options value (.ok value)
  | tooDeep : EndsWith options value (.error (.depthLimitExceeded options.depthLimit))
  | pairedTwice : EndsWith options value (.error (.fault .pairedTwice))

/-- What stops a part of a comparison stops the whole in the same way. -/
theorem EndsWith.stopped {α β : Type} {options : CompareOptions} {value : α} {error : CompareError}
    (hends : EndsWith options value (.error error)) (other : β) :
    EndsWith options other (.error error) := by
  cases hends with
  | tooDeep => exact .tooDeep
  | pairedTwice => exact .pairedTwice

/-- A comparison of graphs that are met together ends in one of these ways, and pairs only nodes that
are met together. -/
def Traces (options : CompareOptions) (leftRoot rightRoot : Body) (relation : NestedRelation) :
    Prop :=
  ∀ ⦃level : Nat⦄ ⦃graph graph' : Graph⦄ ⦃state final : CompareState⦄ ⦃outcome : Outcome Bool⦄,
    relation level graph graph' state outcome final → state.stack.Proper leftRoot rightRoot →
    state.stack.Traced → state.stack.HoldTogether level graph graph' →
    (∃ matched, EndsWith options matched outcome) ∧ final.stack.Traced

section Runs

variable {leftRoot rightRoot : Body} {options : CompareOptions} {relation : NestedRelation}
  {level : Nat} {state final : CompareState}

theorem CallsRun.traced (htraces : Traces options leftRoot rightRoot relation)
    (hgrows : Grows relation) {calls : List GraphCall} {outcome : Outcome (Option GraphCall)}
    (hrun : CallsRun relation level calls state outcome final)
    (hproper : state.stack.Proper leftRoot rightRoot) (htraced : state.stack.Traced)
    (hholds : ∀ call ∈ calls, state.stack.HoldTogether level call.left call.right) :
    (∃ differing, EndsWith options differing outcome) ∧ final.stack.Traced := by
  induction hrun with
  | finished => exact ⟨⟨none, .answered⟩, htraced⟩
  | matched hcall _ ih =>
      have hextends := hgrows _ _ _ _ _ _ hcall
      obtain ⟨_, htraced'⟩ := htraces hcall hproper htraced (hholds _ List.mem_cons_self)
      refine ih (hproper.of_extends hextends) htraced' fun call hmem => ?_
      exact (hholds call (List.mem_cons_of_mem _ hmem)).of_extends hextends
  | differed hcall =>
      obtain ⟨_, htraced'⟩ := htraces hcall hproper htraced (hholds _ List.mem_cons_self)
      exact ⟨⟨_, .answered⟩, htraced'⟩
  | stopped hcall =>
      obtain ⟨⟨matched, hends⟩, htraced'⟩ :=
        htraces hcall hproper htraced (hholds _ List.mem_cons_self)
      exact ⟨⟨none, hends.stopped none⟩, htraced'⟩

/-- The calls for two nodes that are met together are for graphs at the same place of them. -/
theorem FreshNodes.traced (htraces : Traces options leftRoot rightRoot relation)
    (hgrows : Grows relation) {left right : Nat} {scope : Scope} {leftNode rightNode : Node}
    {outcome : Outcome (Option GraphCall)} (hproper : state.stack.Proper leftRoot rightRoot)
    (htraced : state.stack.Traced)
    (hfresh : FreshNodes state.stack level left right scope leftNode rightNode)
    (hmeet : scope.left.MeetTogether scope.right left right)
    (hcalls : CallsRun relation level
      (attributePlan leftNode.attributes rightNode.attributes).calls state outcome final) :
    (∃ differing, EndsWith options differing outcome) ∧ final.stack.Traced := by
  refine hcalls.traced htraces hgrows hproper htraced fun call hcall => ?_
  exact ⟨scope, hfresh.scope_eq, left, right, leftNode, rightNode, hmeet, hfresh.left_eq,
    hfresh.right_eq, carryTogether_of_mem hcall⟩

theorem met_of_lookup {stack : ScopeStack} {scope : Scope} {found : Nat} {left right : String}
    {lookup : Lookup} {via : List UseStep} (htraced : stack.Traced)
    (hscope : stack.scope? level = some scope)
    (htogether : Body.SeekTogether scope.left scope.right left right)
    (hlookup : stack.lookupOutward? left right level level = some (found, lookup)) {next : Pending}
    (hnext : next ∈ lookupPending found via lookup) : stack.Met next := by
  unfold lookupPending at hnext
  split at hnext
  · obtain ⟨scope', hscope', htogether', horigin, horigin'⟩ :=
      htraced.lookup hscope htogether hlookup
    rw [List.mem_singleton.mp hnext]
    exact ⟨scope', hscope', _, _, _, _, htogether', horigin, horigin'⟩
  · cases hnext

theorem met_of_pendingValues {stack : ScopeStack} {scope : Scope} {lefts rights : List String}
    {via : List UseStep} (hscope : stack.scope? level = some scope)
    (htogether : ∀ (place : Nat) (left right : String), lefts[place]? = some left →
      rights[place]? = some right → Body.SeekTogether scope.left scope.right left right)
    {next : Pending} (hnext : next ∈ pendingValues level lefts rights via) : stack.Met next := by
  obtain ⟨place, hplace⟩ := List.mem_iff_getElem?.mp hnext
  obtain ⟨left, right, hleft, hright, rfl⟩ := List.getElem?_zipWith_eq_some.mp hplace
  exact ⟨scope, hscope, htogether place left right hleft hright⟩

/-- A step on what is met together ends in one of these ways, and leads to what is met together. -/
theorem StepRun.traced (htraces : Traces options leftRoot rightRoot relation)
    (hgrows : Grows relation) {next : Pending} {outcome : Outcome (Option (List Pending))}
    (hrun : StepRun options relation state next outcome final)
    (hproper : state.stack.Proper leftRoot rightRoot) (htraced : state.stack.Traced)
    (hmet : state.stack.Met next) :
    (∃ pending?, EndsWith options pending? outcome ∧
        ∀ pending ∈ pending?, ∀ other ∈ pending, final.stack.Met other) ∧ final.stack.Traced := by
  have hmeets : ∀ {level left right : Nat} {via : List UseStep} {scope : Scope},
      state.stack.Met (.nodes level left right via) → state.stack.scope? level = some scope →
      scope.left.MeetTogether scope.right left right := by
    rintro level left right via scope ⟨scope', hscope', hmeet⟩ hscope
    rw [hscope, Option.some.injEq] at hscope'
    exact hscope' ▸ hmeet
  cases hrun with
  | namesLost hlookup =>
      obtain ⟨scope, hscope, _⟩ := hmet
      exact absurd hlookup (lookupOutward?_ne_none hproper.parent_lt hscope (Nat.le_refl _))
  | namesLead hlookup _ =>
      obtain ⟨scope, hscope, htogether⟩ := hmet
      refine ⟨⟨_, .answered, ?_⟩, htraced⟩
      rintro _ ⟨⟩ other hother
      exact met_of_lookup htraced hscope htogether hlookup hother
  | scopeLost hlost =>
      obtain ⟨_, hscope, _⟩ := hmet
      simp [hlost] at hscope
  | leftLost hscope _ hlost =>
      have hlt := (hmeets hmet hscope).in_range.1
      simp [List.getElem?_eq_getElem hlt] at hlost
  | rightLost hscope _ _ hlost =>
      have hlt := (hmeets hmet hscope).in_range.2
      simp [List.getElem?_eq_getElem hlt] at hlost
  | partners _ _ => exact ⟨⟨some [], .answered, by simp⟩, htraced⟩
  | namesDiffer | conflict | nodesDiffer =>
      rw [CompareState.stack_rejected]
      exact ⟨⟨none, .answered, by simp⟩, htraced⟩
  | callStopped hfresh _ hcalls =>
      obtain ⟨⟨differing, hends⟩, htraced'⟩ :=
        hfresh.traced htraces hgrows hproper htraced (hmeets hmet hfresh.scope_eq) hcalls
      exact ⟨⟨none, hends.stopped none, by simp⟩, htraced'⟩
  | pairedTwice hfresh _ hcalls _ _ _ =>
      have hcalled :=
        hfresh.traced htraces hgrows hproper htraced (hmeets hmet hfresh.scope_eq) hcalls
      exact ⟨⟨none, .pairedTwice, by simp⟩, hcalled.2⟩
  | callDiffered hfresh _ hcalls =>
      have hcalled :=
        hfresh.traced htraces hgrows hproper htraced (hmeets hmet hfresh.scope_eq) hcalls
      exact ⟨⟨none, .answered, by simp⟩, hcalled.2⟩
  | attributesDiffer hfresh _ hcalls _ | inputCountsDiffer hfresh _ hcalls _ _ =>
      have hcalled :=
        hfresh.traced htraces hgrows hproper htraced (hmeets hmet hfresh.scope_eq) hcalls
      rw [CompareState.stack_rejected]
      exact ⟨⟨none, .answered, by simp⟩, hcalled.2⟩
  | @nodesPaired level left right via scope leftNode rightNode inner hfresh _ hcalls _ _ =>
      have hmeet := hmeets hmet hfresh.scope_eq
      obtain ⟨_, htraced'⟩ := hfresh.traced htraces hgrows hproper htraced hmeet hcalls
      obtain ⟨scope', hscope', hscopes⟩ := (hcalls.grows hgrows).scope? hfresh.scope_eq
      have hextends := (hcalls.grows hgrows).trans (extends_pair inner.stack level left right)
      refine ⟨⟨_, .answered, ?_⟩, htraced'.pair hscope' (by rwa [hscopes.left, hscopes.right])⟩
      rintro _ ⟨⟩ other hother
      refine (met_of_pendingValues hfresh.scope_eq ?_ hother).of_extends hextends
      intro place name name' hname hname'
      exact hmeet.input hfresh.left_eq hfresh.right_eq hname hname'

/-- A descent over what is met together ends in one of these ways. -/
theorem DrainRun.traced (htraces : Traces options leftRoot rightRoot relation)
    (hgrows : Grows relation) {pending : List Pending} {outcome : Outcome Bool}
    (hrun : DrainRun options relation state pending outcome final)
    (hproper : state.stack.Proper leftRoot rightRoot) (htraced : state.stack.Traced)
    (hmet : ∀ next ∈ pending, state.stack.Met next) :
    (∃ matched, EndsWith options matched outcome) ∧ final.stack.Traced := by
  induction hrun with
  | finished => exact ⟨⟨true, .answered⟩, htraced⟩
  | failed hstep =>
      have hstepped := hstep.traced htraces hgrows hproper htraced (hmet _ List.mem_cons_self)
      exact ⟨⟨false, .answered⟩, hstepped.2⟩
  | stopped hstep =>
      obtain ⟨⟨_, hends, _⟩, htraced'⟩ :=
        hstep.traced htraces hgrows hproper htraced (hmet _ List.mem_cons_self)
      exact ⟨⟨false, hends.stopped false⟩, htraced'⟩
  | continued hstep _ ih =>
      have hextends := hstep.grows hgrows
      obtain ⟨⟨_, hends, hleads⟩, htraced'⟩ :=
        hstep.traced htraces hgrows hproper htraced (hmet _ List.mem_cons_self)
      cases hends
      refine ih (hproper.of_extends hextends) htraced' fun next hnext => ?_
      rcases List.mem_append.mp hnext with hled | hrest
      · exact hleads _ rfl next hled
      · exact (hmet next (List.mem_cons_of_mem _ hrest)).of_extends hextends

theorem OutputsRun.traced (htraces : Traces options leftRoot rightRoot relation)
    (hgrows : Grows relation) {left right : Body} {outcome : Outcome Bool}
    (hrun : OutputsRun options relation level left.outputs right.outputs state outcome final)
    (hproper : state.stack.Proper leftRoot rightRoot) (htraced : state.stack.Traced)
    (hbodies : state.stack.HasBodies level left right) :
    (∃ matched, EndsWith options matched outcome) ∧ final.stack.Traced := by
  obtain ⟨scope, hscope, rfl, rfl⟩ := hbodies
  cases hrun with
  | countsDiffer _ =>
      rw [CompareState.stack_rejected]
      exact ⟨⟨false, .answered⟩, htraced⟩
  | drained _ hdrain =>
      refine hdrain.traced htraces hgrows hproper htraced fun next hnext => ?_
      exact met_of_pendingValues hscope (fun _ _ _ hname hname' => .output hname hname') hnext

theorem PairedRun.ends {scope : Scope} {outcome : Outcome Bool}
    (hrun : PairedRun options level state outcome final)
    (hscope : state.stack.scope? level = some scope) : ∃ matched, outcome = .ok matched := by
  cases hrun with
  | lost hlost => simp [hscope] at hlost
  | failed _ _ => exact ⟨false, rfl⟩
  | passed _ _ => exact ⟨true, rfl⟩

theorem BodiesRun.traced (htraces : Traces options leftRoot rightRoot relation)
    (hgrows : Grows relation) {left right : Body} {outcome : Outcome Bool}
    (hrun : BodiesRun options relation level state outcome final)
    (hproper : state.stack.Proper leftRoot rightRoot) (htraced : state.stack.Traced)
    (hbodies : state.stack.HasBodies level left right) :
    (∃ matched, EndsWith options matched outcome) ∧ final.stack.Traced := by
  obtain ⟨scope, hscope, hleft, hright⟩ := hbodies
  have hruns := hrun.outputs_or_paired hscope
  rw [hleft, hright] at hruns
  rcases hruns with houtputs | ⟨_, inner, houtputs, hpaired⟩
  · exact houtputs.traced htraces hgrows hproper htraced ⟨scope, hscope, hleft, hright⟩
  · obtain ⟨_, htraced'⟩ :=
      houtputs.traced htraces hgrows hproper htraced ⟨scope, hscope, hleft, hright⟩
    obtain ⟨scope', hscope', _⟩ := (houtputs.grows hgrows).scope? hscope
    obtain ⟨matched, houtcome⟩ := hpaired.ends hscope'
    rw [hpaired.stack_eq]
    exact ⟨⟨matched, houtcome ▸ .answered⟩, htraced'⟩

/-- Nested comparisons end in one of these ways, and pair only nodes that are met together. -/
theorem nestedRun_traces (options : CompareOptions) (leftRoot rightRoot : Body) (levels : Nat) :
    Traces options leftRoot rightRoot (NestedRun options levels) := by
  induction levels with
  | zero =>
      intro level graph graph' state final outcome hrun _ htraced _
      rcases hrun with _ | ⟨_, rfl, rfl⟩
      · rw [CompareState.stack_rejected]
        exact ⟨⟨false, .answered⟩, htraced⟩
      · exact ⟨⟨false, .tooDeep⟩, htraced⟩
  | succ levels ih =>
      intro level graph graph' state final outcome hrun hproper htraced hhold
      rcases hrun with _ | ⟨_, inner, hrun, rfl⟩
      · rw [CompareState.stack_rejected]
        exact ⟨⟨false, .answered⟩, htraced⟩
      · have hgrows := nestedRun_grows options levels
        obtain ⟨scope, hscope, hholds⟩ := hhold
        have hproper' := Proper.entered hproper ⟨scope, hscope, rfl, rfl⟩ hholds.carried
        obtain ⟨hends, htraced'⟩ := hrun.traced ih hgrows hproper'
          (htraced.push ⟨scope, hscope, hholds⟩)
          (entered_hasBodies state level graph.body graph'.body)
        have hextends := hrun.grows hgrows
        refine ⟨hends, htraced'.pop (hproper'.of_extends hextends) ?_⟩
        rw [hextends.pop.depth_eq, hextends.depth_eq, CompareState.stack_entered, depth_push]

end Runs

end CompareM

open CompareM

section Operands

variable {options : CompareOptions} {left right : Body} {outcome : Outcome Bool}
  {final : CompareState}

/-- The comparison of the outputs of two operands ends in one of these ways, and pairs only nodes that
are met together. -/
theorem traced_of_outputsRun
    (hrun : OutputsRun options (NestedRun options options.depthLimit) 0 left.outputs right.outputs
      (.initial left right) outcome final) :
    (∃ matched, EndsWith options matched outcome) ∧ final.stack.Traced :=
  hrun.traced (nestedRun_traces options left right options.depthLimit)
    (nestedRun_grows options options.depthLimit) (ScopeStack.proper_ofBodies left right)
    (ScopeStack.traced_ofBodies left right) ⟨_, rfl, rfl, rfl⟩

/-- The pairs at the root are of nodes that are met together. -/
theorem meetTogether_of_outputsRun
    (hrun : OutputsRun options (NestedRun options options.depthLimit) 0 left.outputs right.outputs
      (.initial left right) outcome final) {index index' : Nat}
    (hpartner : final.stack.root.pairing.partner? index = some index') :
    left.MeetTogether right index index' := by
  obtain ⟨hscope, hleft, hright⟩ :=
    root_eq_of_extends (hrun.grows (nestedRun_grows options options.depthLimit))
  rw [← ScopeStack.partner?_of_scope? hscope] at hpartner
  have hmeet := (traced_of_outputsRun hrun).2.paired hscope hpartner
  rwa [hleft, hright] at hmeet

namespace Operands

variable {operands : Operands}

/-- The comparison of two operands ends, with an answer, for its depth, or because it comes to pair a
node twice. -/
theorem ending_ends (options : CompareOptions) (operands : Operands) :
    ∃ matched, EndsWith options matched (operands.ending options).1 := by
  have hrun := operands.ending_run options
  generalize operands.ending options = ending at hrun
  obtain ⟨outcome, final⟩ := ending
  cases hrun with
  | openingsDiffer => exact ⟨false, .answered⟩
  | failed _ houtputs _ => exact (traced_of_outputsRun houtputs).1
  | matched => exact ⟨true, .answered⟩
  | checked _ houtputs _ hpaired =>
      obtain ⟨hscope, _⟩ :=
        root_eq_of_extends (houtputs.grows (nestedRun_grows options options.depthLimit))
      obtain ⟨matched, houtcome⟩ := hpaired.ends hscope
      exact ⟨matched, houtcome ▸ .answered⟩

/-- The comparison of operands that are as required ends with a verdict or for its depth, unless a
left node depends on itself: then it may come to pair a node twice. -/
theorem compare_ends (hcheck : operands.check options = .ok ()) :
    (∃ verdict, operands.compare options = .ok verdict) ∨
      operands.compare options =
        .error (.unfinished (.depthLimitExceeded options.depthLimit)) ∨
      ¬ operands.left.AcyclicScopes ∧
        operands.compare options = .error (.unfinished (.fault .pairedTwice)) := by
  have hcompare := compare_of_check hcheck
  obtain ⟨matched, hends⟩ := operands.ending_ends options
  generalize (operands.ending options).1 = outcome at hcompare hends
  cases hends with
  | answered => exact Or.inl ⟨_, hcompare⟩
  | tooDeep => exact Or.inr (Or.inl hcompare)
  | pairedTwice =>
      exact Or.inr (Or.inr ⟨fun hacyclic => compare_ne_pairedTwice hacyclic hcompare, hcompare⟩)

/-- Where no left node depends on itself, the comparison ends with a verdict or for its depth. -/
theorem compare_ends_of_acyclic (hcheck : operands.check options = .ok ())
    (hacyclic : operands.left.AcyclicScopes) :
    (∃ verdict, operands.compare options = .ok verdict) ∨
      operands.compare options =
        .error (.unfinished (.depthLimitExceeded options.depthLimit)) := by
  rcases compare_ends hcheck with hverdict | hdepth | ⟨hcyclic, _⟩
  · exact Or.inl hverdict
  · exact Or.inr hdepth
  · exact absurd hacyclic hcyclic

/-- The pairs of two operands that are found equivalent are of nodes that are met together, whatever
the operands are. -/
theorem meetTogether_of_compare {pairing : Pairing} {index index' : Nat}
    (hcompare : operands.compare options = .ok (.equivalent pairing))
    (hpartner : pairing.partner? index = some index') :
    operands.left.MeetTogether operands.right index index' := by
  obtain ⟨_, final, houtputs, rfl, _⟩ := outputs_of_compare hcompare
  exact meetTogether_of_outputsRun houtputs hpartner

end Operands

end Operands

end OpGraph
