import OpGraph.Proofs.Descent.Depth
import OpGraph.Proofs.Matching.Rearrangement

/-!
Two states of comparisons whose operands are presented in different ways. The scopes are the same
but for the presentation of their bodies, and so are the pairs. What one state tells of two names,
the other one tells of the new names.
-/

namespace OpGraph

open CompareM

theorem isSome_eq_of_rel {α β : Type} {rel : α → β → Prop} {value? : Option α} {value?' : Option β}
    (hrel : Option.Rel rel value? value?') : value?.isSome = value?'.isSome := by
  cases hrel <;> rfl

section Pairings

/-- The same pairs in the same order, with the nodes at other places. -/
def Pairing.MovedBy (pairing pairing' : Pairing) (left? right? : Nat → Option Nat) : Prop :=
  List.Forall₂ (fun pair pair' => left? pair.1 = some pair'.1 ∧ right? pair.2 = some pair'.2)
    pairing.entries pairing'.entries

namespace Pairing

variable {pairing pairing' : Pairing} {left? right? : Nat → Option Nat} {left left' right right' : Nat}

theorem MovedBy.partner? (hmoved : pairing.MovedBy pairing' left? right?)
    (hinjective : ∀ index other place, left? index = some place → left? other = some place →
      index = other) (hleft : left? left = some left') :
    Option.Rel (fun right right' => right? right = some right') (pairing.partner? left)
      (pairing'.partner? left') := by
  rw [MovedBy] at hmoved
  rw [Pairing.partner?, Pairing.partner?]
  generalize pairing.entries = entries at hmoved
  generalize pairing'.entries = entries' at hmoved
  induction hmoved with
  | nil => exact .none
  | @cons pair pair' _ _ hpair _ ih =>
      have hiff : (left == pair.1) = (left' == pair'.1) := by
        rw [Bool.eq_iff_iff, beq_iff_eq, beq_iff_eq]
        constructor
        · rintro rfl
          exact Option.some.inj (hleft.symm.trans hpair.1)
        · rintro rfl
          exact hinjective _ _ _ hleft hpair.1
      rw [List.lookup_cons, List.lookup_cons, ← hiff]
      split
      · exact .some hpair.2
      · exact ih

theorem entries_insertIfNew (pairing : Pairing) (left right : Nat) :
    (pairing.insertIfNew left right).entries =
      if (pairing.partner? left).isSome then pairing.entries
      else pairing.entries ++ [(left, right)] := by
  unfold insertIfNew
  split
  next hleft =>
    obtain ⟨partner, hpartner⟩ := mem_lefts_iff.mp hleft
    rw [hpartner, Option.isSome_some, if_pos rfl]
  next hleft =>
    rw [partner?_eq_none_iff.mpr hleft]
    rfl

theorem MovedBy.insertIfNew (hmoved : pairing.MovedBy pairing' left? right?)
    (hinjective : ∀ index other place, left? index = some place → left? other = some place →
      index = other) (hleft : left? left = some left') (hright : right? right = some right') :
    (pairing.insertIfNew left right).MovedBy (pairing'.insertIfNew left' right') left? right? := by
  have hsome := isSome_eq_of_rel (hmoved.partner? hinjective hleft)
  rw [MovedBy, entries_insertIfNew, entries_insertIfNew, ← hsome]
  split
  · exact hmoved
  · exact List.rel_append hmoved (.cons ⟨hleft, hright⟩ .nil)

theorem MovedBy.partner?_eq_some_iff (hmoved : pairing.MovedBy pairing' left? right?) :
    pairing'.partner? left' = some right' ↔
      ∃ left right, left? left = some left' ∧ right? right = some right' ∧
        pairing.partner? left = some right := by
  simp only [← mem_entries_iff, List.mem_iff_getElem?]
  rw [MovedBy, forall₂_iff_getElem?] at hmoved
  obtain ⟨hlength, hmoved⟩ := hmoved
  constructor
  · rintro ⟨place, hplace'⟩
    obtain ⟨⟨left, right⟩, hplace⟩ := exists_getElem?_of_length_eq hlength.symm hplace'
    obtain ⟨hleft, hright⟩ := hmoved place _ _ hplace hplace'
    exact ⟨left, right, hleft, hright, place, hplace⟩
  · rintro ⟨left, right, hleft, hright, place, hplace⟩
    obtain ⟨⟨index, index'⟩, hplace'⟩ := exists_getElem?_of_length_eq hlength hplace
    obtain ⟨hindex, hindex'⟩ := hmoved place _ _ hplace hplace'
    obtain rfl := Option.some.inj (hleft.symm.trans hindex)
    obtain rfl := Option.some.inj (hright.symm.trans hindex')
    exact ⟨place, hplace'⟩

/-- Moved pairs are equally many, with as many targets. -/
theorem MovedBy.counts (hmoved : pairing.MovedBy pairing' left? right?)
    (hinjective : ∀ index other place, right? index = some place → right? other = some place →
      index = other) :
    pairing.size = pairing'.size ∧ pairing.targetCount = pairing'.targetCount := by
  refine ⟨List.Forall₂.length_eq hmoved, ?_⟩
  have hrights : List.Forall₂ (fun right right' => right? right = some right')
      (pairing.entries.map Prod.snd) (pairing'.entries.map Prod.snd) := by
    rw [List.forall₂_map_left_iff, List.forall₂_map_right_iff]
    exact List.Forall₂.imp (fun _ _ hpair => hpair.2) hmoved
  rw [targetCount, targetCount, length_eraseDups, length_eraseDups]
  generalize pairing.entries.map Prod.snd = rights at hrights
  generalize pairing'.entries.map Prod.snd = rights' at hrights
  induction hrights with
  | nil => rfl
  | @cons right right' rights rights' hright hrest ih =>
      have hiff : right ∈ rights ↔ right' ∈ rights' := by
        rw [List.mem_iff_getElem?, List.mem_iff_getElem?]
        obtain ⟨hlength, hplaces⟩ := forall₂_iff_getElem?.mp hrest
        refine exists_congr fun place => ⟨fun hplace => ?_, fun hplace' => ?_⟩
        · obtain ⟨other, hplace'⟩ := exists_getElem?_of_length_eq hlength hplace
          rw [hplace', ← hplaces place _ _ hplace hplace', hright]
        · obtain ⟨other, hplace⟩ := exists_getElem?_of_length_eq hlength.symm hplace'
          rw [hplace, hinjective _ _ _ hright (hplaces place _ _ hplace hplace')]
      by_cases hmem : right ∈ rights
      · rw [List.dedup_cons_of_mem hmem, List.dedup_cons_of_mem (hiff.mp hmem), ih]
      · rw [List.dedup_cons_of_notMem hmem, List.dedup_cons_of_notMem (mt hiff.mpr hmem),
          List.length_cons, List.length_cons, ih]

end Pairing

end Pairings

section Plans

variable {names names' : String → String}

theorem ValueRearranged.alike {value value' : AttributeValue}
    (hvalue : ValueRearranged names value value') : value.Alike (GraphRearranged names) value' := by
  cases hvalue with
  | plain hgraph hgraphs => exact .plain hgraph hgraphs
  | graph hgraph => exact .graph hgraph
  | graphs hlength hgraphs => exact .graphs (forall₂_iff_getElem?.mpr ⟨hlength, hgraphs⟩)

/-- Attributes are planned for in the same way, however their graphs are presented. -/
theorem attributePlan_presented {lefts rights lefts' rights' : List Attribute}
    (hlefts : AttributesRearranged names lefts lefts')
    (hrights : AttributesRearranged names' rights rights') :
    (attributePlan lefts rights).Alike (GraphRearranged names) (GraphRearranged names')
      (attributePlan lefts' rights') :=
  attributePlan_alike (hlefts.imp fun _ _ hattr => ⟨hattr.name, hattr.value.alike⟩)
    (hrights.imp fun _ _ hattr => ⟨hattr.name, hattr.value.alike⟩)

/-- Graphs with as many inputs and with the same initializers differ in the same way by headers. -/
theorem headerDifference?_alike {left right left' right' : Graph}
    (hinputs : left.inputs.length = left'.inputs.length)
    (hinputs' : right.inputs.length = right'.inputs.length)
    (hdense : left.initializers = left'.initializers)
    (hdense' : right.initializers = right'.initializers)
    (hsparse : left.sparseInitializers = left'.sparseInitializers)
    (hsparse' : right.sparseInitializers = right'.sparseInitializers) :
    headerDifference? left right = headerDifference? left' right' := by
  rw [headerDifference?, headerDifference?, hinputs, hinputs', hdense, hdense', hsparse, hsparse']

theorem headerDifference?_presented {left right left' right' : Graph}
    (hleft : GraphRearranged names left left') (hright : GraphRearranged names' right right') :
    headerDifference? left right = headerDifference? left' right' := by
  obtain ⟨_, _, hrenamed, _, hdense, hsparse⟩ := graphRearranged_iff.mp hleft
  obtain ⟨_, _, hrenamed', _, hdense', hsparse'⟩ := graphRearranged_iff.mp hright
  exact headerDifference?_alike hrenamed.inputs_length hrenamed'.inputs_length hdense hdense'
    hsparse hsparse'

end Plans

/-- How a body is presented: the new names and places, and the layers around them, of which the
innermost is that of the body itself. -/
structure Presentation where
  names : String → String
  place? : Nat → Option Nat
  layers : List Layer

/-- The second body is the first one as it is presented inside of the given layers. -/
structure Presentation.Presents (presentation : Presentation) (outer : List Layer)
    (body body' : Body) : Prop where
  layers_eq : presentation.layers = ⟨body, body', presentation.place?⟩ :: outer
  renamed : body.RenamedBy body' presentation.names presentation.place?
    (AttributesRearranged presentation.names)
  found : ∀ name, body.Uses name →
    FoundAlike presentation.layers name (presentation.names name)
  unique : body.UniqueScopes

/-- How the two bodies of a scope are presented. -/
structure ScopePresentation where
  left : Presentation
  right : Presentation

/-- How the bodies of so many scopes are presented, level by level. -/
structure Presentations where
  depth : Nat
  scope : Nat → ScopePresentation

/-- One more scope, the innermost. -/
def Presentations.push (maps : Presentations) (inner : ScopePresentation) : Presentations where
  depth := maps.depth + 1
  scope level := if level = maps.depth then inner else maps.scope level

/-- The layers around the bodies of a scope with this parent, on one side. -/
def Presentations.around (maps : Presentations) (side : ScopePresentation → Presentation)
    (parent? : Option Nat) : List Layer :=
  parent?.elim [] fun parent => (side (maps.scope parent)).layers

/-- Two scopes at a level are the same but for the presentation of their bodies. -/
structure Scope.PresentedAs (maps : Presentations) (level : Nat) (scope scope' : Scope) : Prop where
  parent : scope.parent = scope'.parent
  parent_lt : ∀ parent, scope.parent = some parent → parent < level
  left : (maps.scope level).left.Presents (maps.around (·.left) scope.parent) scope.left scope'.left
  right : (maps.scope level).right.Presents (maps.around (·.right) scope.parent) scope.right
    scope'.right
  pairing : scope.pairing.MovedBy scope'.pairing (maps.scope level).left.place?
    (maps.scope level).right.place?

/-- Two stacks are the same but for the presentation of the bodies. -/
structure ScopeStack.PresentedAs (maps : Presentations) (stack stack' : ScopeStack) : Prop where
  depth_eq : stack.depth = maps.depth
  depth_eq' : stack'.depth = maps.depth
  scopes : ∀ ⦃level : Nat⦄ ⦃scope scope' : Scope⦄, stack.scope? level = some scope →
    stack'.scope? level = some scope' → scope.PresentedAs maps level scope'

/-- The second graph is the first one, which the body carries, as it is presented inside of it. -/
structure Presentation.PresentsGraph (presentation : Presentation) (graph graph' : Graph) :
    Prop where
  carried : ∃ layer ∈ presentation.layers.head?, ∃ node ∈ layer.left.nodes, node.Carries graph
  rearranged : GraphRearranged presentation.names graph graph'

section Presenting

variable {presentation : Presentation} {outer : List Layer} {body body' : Body}

/-- An operand that stands alone is presented by its renaming. -/
theorem Presentation.presents_root {names : String → String} {place? : Nat → Option Nat}
    (halone : body.StandsAlone)
    (hrenamed : body.RenamedBy body' names place? (AttributesRearranged names)) :
    (⟨names, place?, [⟨body, body', place?⟩]⟩ : Presentation).Presents [] body body' where
  layers_eq := rfl
  renamed := hrenamed
  found _ huses := hrenamed.foundAlike_root halone huses
  unique := halone.distinct.names

/-- A node of a body that is presented has its place there, under other names. -/
theorem Presentation.Presents.exists_nodes (hpresents : presentation.Presents outer body body')
    {index index' : Nat} (hplace : presentation.place? index = some index') :
    ∃ node node', body.nodes[index]? = some node ∧ body'.nodes[index']? = some node' ∧
      node.RenamedBy node' presentation.names (AttributesRearranged presentation.names) := by
  obtain ⟨hindex, hindex'⟩ := hpresents.renamed.bijection.in_range index index' hplace
  exact ⟨_, _, List.getElem?_eq_getElem hindex, List.getElem?_eq_getElem hindex',
    hpresents.renamed.nodes index index' _ _ hplace (List.getElem?_eq_getElem hindex)
      (List.getElem?_eq_getElem hindex')⟩

theorem Presentation.Presents.head_layer (hpresents : presentation.Presents outer body body')
    {node : Node} (hnode : node ∈ body.nodes) :
    ∃ layer ∈ presentation.layers.head?, node ∈ layer.left.nodes := by
  rw [hpresents.layers_eq]
  exact ⟨_, rfl, hnode⟩

/-- Names that a body uses are found alike under their new names. -/
theorem Presentation.Presents.foundAlike (hpresents : presentation.Presents outer body body')
    {used : List String} (huses : ∀ name ∈ used, body.Uses name) :
    List.Forall₂ (FoundAlike presentation.layers) used (used.map presentation.names) :=
  List.forall₂_map_right_iff.mpr
    (List.forall₂_same.mpr fun name hname => hpresents.found name (huses name hname))

/-- A graph in an attribute of a body that is presented is presented inside of it. -/
theorem Presentation.Presents.exists_inner (hpresents : presentation.Presents outer body body')
    {graph graph' : Graph} (hgraph : presentation.PresentsGraph graph graph') :
    ∃ inner : Presentation, inner.Presents presentation.layers graph.body graph'.body := by
  obtain ⟨⟨layer, hlayer, node, hnode, hcarries⟩, hgraph⟩ := hgraph
  rw [hpresents.layers_eq] at hlayer
  obtain rfl := Option.some.inj hlayer
  obtain ⟨names, place?, hrenamed, hwithin, _⟩ := graphRearranged_iff.mp hgraph
  have hunique := hpresents.unique.of_carries hnode hcarries
  refine ⟨⟨names, place?, ⟨graph.body, graph'.body, place?⟩ :: presentation.layers⟩, rfl, hrenamed,
    fun name huses => hrenamed.foundAlike (hunique _ .root) (fun name hcaptures => ?_) huses, hunique⟩
  rw [hwithin.outside name (Body.notMem_definedNames_of_lacks hcaptures.lacks)]
  exact ⟨hwithin.captures name hcaptures,
    hpresents.found name (Or.inr ⟨node, hnode, hcaptures.mentions hcarries⟩)⟩

end Presenting

namespace ScopeStack

variable {maps : Presentations} {stack stack' : ScopeStack} {level : Nat}

theorem PresentedAs.scope? (hstack : stack.PresentedAs maps stack') {scope : Scope}
    (hscope : stack.scope? level = some scope) :
    ∃ scope', stack'.scope? level = some scope' ∧ scope.PresentedAs maps level scope' := by
  have hlevel := scope?_eq_some_lt hscope
  rw [hstack.depth_eq, ← hstack.depth_eq'] at hlevel
  obtain ⟨scope', hscope'⟩ := exists_scope? hlevel
  exact ⟨scope', hscope', hstack.scopes hscope hscope'⟩

theorem PresentedAs.scope?_eq_none (hstack : stack.PresentedAs maps stack')
    (hscope : stack.scope? level = none) : stack'.scope? level = none := by
  rw [ScopeStack.scope?, List.getElem?_eq_none_iff] at hscope ⊢
  have hdepth := hstack.depth_eq
  have hdepth' := hstack.depth_eq'
  rw [depth] at hdepth hdepth'
  omega

/-- A node has a partner in one state if it has one in the other. -/
theorem PresentedAs.partner?_eq_none_iff (hstack : stack.PresentedAs maps stack')
    {left left' : Nat} (hleft : (maps.scope level).left.place? left = some left') :
    stack.partner? level left = none ↔ stack'.partner? level left' = none := by
  cases hscope : stack.scope? level with
  | none => simp [partner?, hscope, hstack.scope?_eq_none hscope]
  | some scope =>
      obtain ⟨scope', hscope', hscopes⟩ := hstack.scope? hscope
      have hrel := hscopes.pairing.partner? hscopes.left.renamed.bijection.injective hleft
      rw [partner?_of_scope? hscope, partner?_of_scope? hscope', ← Option.not_isSome_iff_eq_none,
        ← Option.not_isSome_iff_eq_none, isSome_eq_of_rel hrel]

/-- Pairing two nodes in one state, and the same nodes in the other one. -/
theorem PresentedAs.pair (hstack : stack.PresentedAs maps stack') {left left' right right' : Nat}
    (hleft : (maps.scope level).left.place? left = some left')
    (hright : (maps.scope level).right.place? right = some right') :
    (stack.pair level left right).PresentedAs maps (stack'.pair level left' right') where
  depth_eq := by rw [depth_pair, hstack.depth_eq]
  depth_eq' := by rw [depth_pair, hstack.depth_eq']
  scopes other scope scope' hscope hscope' := by
    rw [scope?_pair] at hscope hscope'
    by_cases hother : other = level
    · subst hother
      rw [if_pos rfl] at hscope hscope'
      obtain ⟨before, hbefore, rfl⟩ := Option.map_eq_some_iff.mp hscope
      obtain ⟨before', hbefore', rfl⟩ := Option.map_eq_some_iff.mp hscope'
      have hscopes := hstack.scopes hbefore hbefore'
      exact { hscopes with
        pairing := hscopes.pairing.insertIfNew hscopes.left.renamed.bijection.injective hleft hright }
    · rw [if_neg hother] at hscope hscope'
      exact hstack.scopes hscope hscope'

end ScopeStack

section Entering

variable {maps : Presentations} {inner : ScopePresentation} {stack stack' : ScopeStack} {level : Nat}

theorem Presentations.push_depth (maps : Presentations) (inner : ScopePresentation) :
    (maps.push inner).scope maps.depth = inner := if_pos rfl

theorem Presentations.push_of_lt (hlevel : level < maps.depth) :
    (maps.push inner).scope level = maps.scope level := if_neg (Nat.ne_of_lt hlevel)

theorem Presentations.around_push {side : ScopePresentation → Presentation} {parent? : Option Nat}
    (hparent : ∀ parent, parent? = some parent → parent < maps.depth) :
    (maps.push inner).around side parent? = maps.around side parent? := by
  cases parent? with
  | none => rfl
  | some parent =>
      rw [around, around, Option.elim_some, Option.elim_some, push_of_lt (hparent parent rfl)]

/-- A further scope does not change how the others are presented. -/
theorem Scope.presentedAs_push_iff {scope scope' : Scope} (hlevel : level < maps.depth) :
    scope.PresentedAs (maps.push inner) level scope' ↔ scope.PresentedAs maps level scope' := by
  have hscope := @Presentations.push_of_lt maps inner level hlevel
  have haround : (∀ parent, scope.parent = some parent → parent < level) →
      ∀ side, (maps.push inner).around side scope.parent = maps.around side scope.parent :=
    fun hparent side => Presentations.around_push fun parent heq =>
      Nat.lt_trans (hparent parent heq) hlevel
  constructor
  · rintro ⟨hparent, hlt, hleft, hright, hpairing⟩
    rw [hscope, haround hlt] at hleft hright
    rw [hscope] at hpairing
    exact ⟨hparent, hlt, hleft, hright, hpairing⟩
  · rintro ⟨hparent, hlt, hleft, hright, hpairing⟩
    refine ⟨hparent, hlt, ?_, ?_, ?_⟩
    · rwa [hscope, haround hlt]
    · rwa [hscope, haround hlt]
    · rwa [hscope]

namespace ScopeStack

/-- Entering graphs of a scope in one state, and the same graphs in the other one. -/
theorem PresentedAs.push {left right left' right' : Body} (hstack : stack.PresentedAs maps stack')
    (hlevel : level < maps.depth)
    (hleft : inner.left.Presents (maps.scope level).left.layers left left')
    (hright : inner.right.Presents (maps.scope level).right.layers right right') :
    (stack.push level left right).PresentedAs (maps.push inner) (stack'.push level left' right') where
  depth_eq := by rw [depth_push, hstack.depth_eq, Presentations.push]
  depth_eq' := by rw [depth_push, hstack.depth_eq', Presentations.push]
  scopes other scope scope' hscope hscope' := by
    rw [scope?_push, hstack.depth_eq] at hscope
    rw [scope?_push, hstack.depth_eq'] at hscope'
    by_cases hother : other = maps.depth
    · subst hother
      rw [if_pos rfl, Option.some.injEq] at hscope hscope'
      subst hscope hscope'
      refine ⟨rfl, fun parent heq => Option.some.inj heq ▸ hlevel, ?_, ?_, .nil⟩
      · rw [Presentations.push_depth, Presentations.around_push fun parent heq =>
          Option.some.inj heq ▸ hlevel]
        exact hleft
      · rw [Presentations.push_depth, Presentations.around_push fun parent heq =>
          Option.some.inj heq ▸ hlevel]
        exact hright
    · rw [if_neg hother] at hscope hscope'
      have hlt := scope?_eq_some_lt hscope
      rw [hstack.depth_eq] at hlt
      exact (Scope.presentedAs_push_iff hlt).mpr (hstack.scopes hscope hscope')

/-- Leaving the innermost scope in both states. -/
theorem PresentedAs.pop (hstack : stack.PresentedAs (maps.push inner) stack')
    (hpos : 0 < maps.depth) : stack.pop.PresentedAs maps stack'.pop := by
  have hdepth : stack.depth = maps.depth + 1 := hstack.depth_eq
  have hdepth' : stack'.depth = maps.depth + 1 := hstack.depth_eq'
  have hpop := @ScopeStack.depth_pop stack (by omega)
  have hpop' := @ScopeStack.depth_pop stack' (by omega)
  refine ⟨by omega, by omega, fun level scope scope' hscope hscope' => ?_⟩
  have hlevel := scope?_eq_some_lt hscope
  exact (Scope.presentedAs_push_iff (by omega)).mp
    (hstack.scopes (scope?_eq_some_of_pop hscope) (scope?_eq_some_of_pop hscope'))

end ScopeStack

end Entering

/-- What two scopes tell of names that are found alike: both of them are defined there, at places
that match, or one of them is, or there is nothing around. -/
inductive LookupsPresented (map : ScopePresentation) : Lookup → Lookup → Prop where
  | here {origin origin' other other' : Origin} : OriginsMatch map.left.place? origin origin' →
      OriginsMatch map.right.place? other other' →
      LookupsPresented map (.here origin other) (.here origin' other')
  | oneSided : LookupsPresented map .oneSided .oneSided
  | nowhere : LookupsPresented map .nowhere .nowhere

section Lookups

variable {maps : Presentations} {stack stack' : ScopeStack} {scope scope' : Scope} {level : Nat}
  {left left' right right' : String} {via via' : List UseStep}

/-- What two scopes tell of names that are found alike corresponds, or the names are found alike
further out. -/
theorem Scope.PresentedAs.lookup (hscope : scope.PresentedAs maps level scope')
    (hleft : FoundAlike (maps.scope level).left.layers left left')
    (hright : FoundAlike (maps.scope level).right.layers right right') :
    LookupsPresented (maps.scope level) (scope.lookup left right) (scope'.lookup left' right') ∨
      ∃ parent, scope.lookup left right = .outward parent ∧
        scope'.lookup left' right' = .outward parent ∧
        FoundAlike (maps.scope parent).left.layers left left' ∧
        FoundAlike (maps.scope parent).right.layers right right' := by
  rw [hscope.left.layers_eq] at hleft
  rw [hscope.right.layers_eq] at hright
  unfold Scope.lookup
  cases hleft with
  | here horigin horigin' hmatch =>
      cases hright with
      | here hother hother' hmatch' =>
          simp only [horigin, horigin', hother, hother']
          exact Or.inl (.here hmatch hmatch')
      | outward hother hother' _ =>
          simp only [horigin, horigin', hother, hother']
          exact Or.inl .oneSided
  | outward horigin horigin' houter =>
      cases hright with
      | here hother hother' _ =>
          simp only [horigin, horigin', hother, hother']
          exact Or.inl .oneSided
      | outward hother hother' houter' =>
          simp only [horigin, horigin', hother, hother', ← hscope.parent]
          cases hparent : scope.parent with
          | none => exact Or.inl .nowhere
          | some parent =>
              rw [hparent] at houter houter'
              exact Or.inr ⟨parent, rfl, rfl, houter, houter'⟩

theorem LookupsPresented.ne_outward {map : ScopePresentation} {lookup lookup' : Lookup}
    (hlookup : LookupsPresented map lookup lookup') (parent : Nat) :
    lookup ≠ .outward parent ∧ lookup' ≠ .outward parent := by
  cases hlookup <;> exact ⟨nofun, nofun⟩

/-- Names that are found alike are decided on at the same level, and in the same way. -/
theorem ScopeStack.PresentedAs.lookupOutward? (hstack : stack.PresentedAs maps stack')
    (hleft : FoundAlike (maps.scope level).left.layers left left')
    (hright : FoundAlike (maps.scope level).right.layers right right') (moves : Nat) :
    Option.Rel (fun found found' => found.1 = found'.1 ∧
      LookupsPresented (maps.scope found.1) found.2 found'.2)
      (stack.lookupOutward? left right moves level)
      (stack'.lookupOutward? left' right' moves level) := by
  induction moves using Nat.strongRecOn generalizing level with
  | ind moves ih =>
      cases hscope : stack.scope? level with
      | none =>
          have hscope' := hstack.scope?_eq_none hscope
          cases moves <;>
            · simp only [ScopeStack.lookupOutward?, lookup?, hscope, hscope', Option.map_none]
              exact .none
      | some scope =>
          obtain ⟨scope', hscope', hscopes⟩ := hstack.scope? hscope
          rcases hscopes.lookup hleft hright with hlookup | ⟨parent, hparent, hparent', houter⟩
          · rw [lookupOutward?_of_lookup (by rw [lookup?, hscope, Option.map_some])
              fun parent => (hlookup.ne_outward parent).1,
              lookupOutward?_of_lookup (by rw [lookup?, hscope', Option.map_some])
              fun parent => (hlookup.ne_outward parent).2]
            exact .some ⟨rfl, hlookup⟩
          · cases moves with
            | zero =>
                simp only [ScopeStack.lookupOutward?, lookup?, hscope, hscope', Option.map_some,
                  hparent, hparent']
                exact .none
            | succ moves =>
                simp only [ScopeStack.lookupOutward?, lookup?, hscope, hscope', Option.map_some,
                  hparent, hparent']
                exact ih moves (Nat.lt_succ_self moves) houter.1 houter.2

end Lookups

/-- Two pending comparisons are the same but for the presentation. -/
inductive Pending.PresentedAs (maps : Presentations) : Pending → Pending → Prop where
  | values {level : Nat} {left left' right right' : String} {via via' : List UseStep} :
      FoundAlike (maps.scope level).left.layers left left' →
      FoundAlike (maps.scope level).right.layers right right' →
      PresentedAs maps (.values level left right via) (.values level left' right' via')
  | nodes {level left left' right right' : Nat} {via via' : List UseStep} :
      (maps.scope level).left.place? left = some left' →
      (maps.scope level).right.place? right = some right' →
      PresentedAs maps (.nodes level left right via) (.nodes level left' right' via')

section Pendings

variable {maps : Presentations} {level : Nat} {via via' : List UseStep}

/-- Lookups that correspond fail together. -/
theorem LookupsPresented.isSome_eq {map : ScopePresentation} {lookup lookup' : Lookup}
    {left left' right right' : String} (hlookup : LookupsPresented map lookup lookup') :
    (lookupRule? left right lookup).isSome = (lookupRule? left' right' lookup').isSome := by
  cases hlookup with
  | oneSided => rfl
  | nowhere => rfl
  | @here origin origin' other other' hmatch hmatch' =>
      have hslot : origin'.slot = origin.slot := by cases hmatch <;> rfl
      have hslot' : other'.slot = other.slot := by cases hmatch' <;> rfl
      by_cases hsame : origin.slot = other.slot
      · simp only [lookupRule?, hslot, hslot', hsame, ne_eq, not_true_eq_false, if_false]
        cases hmatch <;> cases hmatch' <;> rfl
      · simp only [lookupRule?, hslot, hslot', hsame, ne_eq, not_false_eq_true, if_true,
          Option.isSome_some]

/-- Lookups that correspond lead to the same nodes. -/
theorem LookupsPresented.pending {lookup lookup' : Lookup}
    (hlookup : LookupsPresented (maps.scope level) lookup lookup') :
    List.Forall₂ (Pending.PresentedAs maps) (lookupPending level via lookup)
      (lookupPending level via' lookup') := by
  cases hlookup with
  | oneSided => exact .nil
  | nowhere => exact .nil
  | here hmatch hmatch' =>
      cases hmatch with
      | input slot => cases hmatch' <;> exact .nil
      | output slot hplace =>
          cases hmatch' with
          | input slot => exact .nil
          | output slot' hplace' => exact .cons (.nodes hplace hplace') .nil

/-- The values of lists that are found alike are pending in both comparisons. -/
theorem pendingValues_presented {lefts lefts' rights rights' : List String}
    (hlefts : List.Forall₂ (FoundAlike (maps.scope level).left.layers) lefts lefts')
    (hrights : List.Forall₂ (FoundAlike (maps.scope level).right.layers) rights rights') :
    List.Forall₂ (Pending.PresentedAs maps) (pendingValues level lefts rights via)
      (pendingValues level lefts' rights' via') := by
  induction hlefts generalizing rights rights' with
  | nil => exact .nil
  | cons hleft _ ih =>
      cases hrights with
      | nil => exact .nil
      | cons hright hrights => exact .cons (.values hleft hright) (ih hrights)

end Pendings

end OpGraph
