import OpGraph.Proofs.Descent.Lexical

/-!
Walks from a level to the enclosing ones. A level is a place in the stack: it comes up again once
its scope is left, and the scope below it need not enclose it. Still, whatever is entered and left,
all levels but the root are enclosed by lower ones that are in use. So a walk for two names ends,
after no more moves than the level says. It ends at the nearest enclosing level at which one of the
names is found, whatever other scopes there are.
-/

namespace OpGraph

namespace VisitedLevel

/-- One of the two names is found at the level. -/
def Finds (visited : VisitedLevel) (left right : String) : Prop :=
  visited.left.origin? left ≠ none ∨ visited.right.origin? right ≠ none

/-- What the level tells of two names if one of them is found there. -/
def answer (visited : VisitedLevel) (left right : String) : Lookup :=
  match visited.left.origin? left, visited.right.origin? right with
  | some origin, some origin' => .here origin origin'
  | _, _ => .oneSided

variable {visited : VisitedLevel} {left right : String}

theorem answer_ne_outward (parent : Nat) : visited.answer left right ≠ .outward parent := by
  unfold answer
  split <;> simp

theorem answer_ne_nowhere : visited.answer left right ≠ .nowhere := by
  unfold answer
  split <;> simp

theorem answer_eq_here {origin origin' : Origin} :
    visited.answer left right = .here origin origin' ↔
      visited.left.origin? left = some origin ∧ visited.right.origin? right = some origin' := by
  unfold answer
  split
  next hleft hright => simp [hleft, hright]
  next hnot =>
    constructor
    · intro hone
      cases hone
    · rintro ⟨hleft, hright⟩
      exact absurd hright (hnot _ _ hleft)

theorem answer_eq_oneSided : visited.answer left right = .oneSided ↔
    visited.left.origin? left = none ∨ visited.right.origin? right = none := by
  unfold answer
  cases visited.left.origin? left <;> cases visited.right.origin? right <;> simp

end VisitedLevel

/-- Of some levels, the one at this distance is the first at which one of the two names is found. -/
structure FirstFinding (visited : List VisitedLevel) (left right : String) (distance : Nat)
    (ending : VisitedLevel) : Prop where
  at_distance : visited[distance]? = some ending
  finds : ending.Finds left right
  nearer : ∀ ⦃nearer : Nat⦄ ⦃other : VisitedLevel⦄, nearer < distance →
    visited[nearer]? = some other → ¬ other.Finds left right

namespace FirstFinding

variable {visited : List VisitedLevel} {left right : String} {distance : Nat}
  {ending innermost : VisitedLevel}

theorem unique {distance' : Nat} {ending' : VisitedLevel}
    (hfirst : FirstFinding visited left right distance ending)
    (hfirst' : FirstFinding visited left right distance' ending') :
    distance = distance' ∧ ending = ending' := by
  rcases Nat.lt_trichotomy distance distance' with hlt | rfl | hgt
  · exact absurd hfirst.finds (hfirst'.nearer hlt hfirst.at_distance)
  · exact ⟨rfl, Option.some.inj (hfirst.at_distance.symm.trans hfirst'.at_distance)⟩
  · exact absurd hfirst'.finds (hfirst.nearer hgt hfirst'.at_distance)

theorem head (hfinds : innermost.Finds left right)
    (outer : List VisitedLevel) : FirstFinding (innermost :: outer) left right 0 innermost :=
  ⟨rfl, hfinds, fun _ _ hnearer => absurd hnearer (Nat.not_lt_zero _)⟩

theorem cons (hnot : ¬ innermost.Finds left right)
    (hfirst : FirstFinding visited left right distance ending) :
    FirstFinding (innermost :: visited) left right (distance + 1) ending := by
  refine ⟨hfirst.at_distance, hfirst.finds, ?_⟩
  intro nearer other hnearer hother
  cases nearer with
  | zero =>
      obtain rfl := Option.some.inj hother
      exact hnot
  | succ nearer => exact hfirst.nearer (Nat.lt_of_succ_lt_succ hnearer) hother

end FirstFinding

namespace ScopeStack

/-- What comes up from two bodies: scopes are entered inside of any level in use, nodes are paired,
and the innermost scope is left. -/
inductive ComesUp (left right : Body) : ScopeStack → Prop where
  | root : ComesUp left right (ofBodies left right)
  | push {stack : ScopeStack} {parent : Nat} (inner inner' : Body) : ComesUp left right stack →
      parent < stack.depth → ComesUp left right (stack.push parent inner inner')
  | pair {stack : ScopeStack} (level index index' : Nat) : ComesUp left right stack →
      ComesUp left right (stack.pair level index index')
  | pop {stack : ScopeStack} : ComesUp left right stack → ComesUp left right stack.pop

/-- The root is in use, and all other levels in use are enclosed by lower ones. -/
structure Rooted (left right : Body) (stack : ScopeStack) : Prop where
  root : ∃ scope, stack.scope? 0 = some scope ∧ scope.parent = none ∧ scope.left = left ∧
    scope.right = right
  enclosed : ∀ ⦃level : Nat⦄ ⦃scope : Scope⦄, 0 < level → stack.scope? level = some scope →
    ∃ parent outer, scope.parent = some parent ∧ parent < level ∧ stack.scope? parent = some outer

/-- A walk for two names goes so many times to the enclosing level, and ends at a level that tells
of the names. -/
inductive Walk (stack : ScopeStack) (left right : String) : Nat → Nat → Nat → Lookup → Prop where
  | ends {level : Nat} {tells : Lookup} : stack.lookup? level left right = some tells →
      (∀ parent, tells ≠ .outward parent) → Walk stack left right level 0 level tells
  | outward {level parent moves found : Nat} {tells : Lookup} :
      stack.lookup? level left right = some (.outward parent) →
      Walk stack left right parent moves found tells →
      Walk stack left right level (moves + 1) found tells

/-- The walk for two names from a level whose enclosing levels are these ends at the nearest of them
at which one of the names is found. -/
structure WalksOut (stack : ScopeStack) (level : Nat) (visited : List VisitedLevel)
    (left right : String) : Prop where
  ends : ∃ moves found tells, moves ≤ level ∧ stack.Walk left right level moves found tells
  /-- There is no other walk, and the lookup is this one. -/
  looksUp : ∀ ⦃moves found : Nat⦄ ⦃tells : Lookup⦄, stack.Walk left right level moves found tells →
    moves ≤ level ∧ stack.lookupOutward? left right level level = some (found, tells)
  here : ∀ ⦃moves found : Nat⦄ ⦃origin origin' : Origin⦄,
    stack.Walk left right level moves found (.here origin origin') ↔
      ∃ ending, FirstFinding visited left right moves ending ∧ ending.level = found ∧
        ending.left.origin? left = some origin ∧ ending.right.origin? right = some origin'
  oneSided : ∀ ⦃moves found : Nat⦄, stack.Walk left right level moves found .oneSided ↔
    ∃ ending, FirstFinding visited left right moves ending ∧ ending.level = found ∧
      (ending.left.origin? left = none ∨ ending.right.origin? right = none)
  nowhere : (∃ moves found, stack.Walk left right level moves found .nowhere) ↔
    ∀ other ∈ visited, ¬ other.Finds left right

section Rooted

variable {leftRoot rightRoot : Body} {stack stack' : ScopeStack} {level parent : Nat}

theorem rooted_ofBodies (left right : Body) : (ofBodies left right).Rooted left right := by
  refine ⟨⟨_, rfl, rfl, rfl, rfl⟩, ?_⟩
  intro level scope hpos hscope
  have hlevel : level < 1 := scope?_eq_some_lt hscope
  omega

theorem Rooted.of_extends (hrooted : stack.Rooted leftRoot rightRoot)
    (hextends : stack.Extends stack') : stack'.Rooted leftRoot rightRoot := by
  refine ⟨?_, ?_⟩
  · obtain ⟨scope, hscope, hparent, hleft, hright⟩ := hrooted.root
    obtain ⟨scope', hscope', hscopes⟩ := hextends.scope? hscope
    exact ⟨scope', hscope', hscopes.parent.trans hparent, hscopes.left.trans hleft,
      hscopes.right.trans hright⟩
  · intro level scope' hpos hscope'
    obtain ⟨scope, hscope, hscopes⟩ := hextends.scope?_back hscope'
    obtain ⟨parent, outer, hparent, hlt, houter⟩ := hrooted.enclosed hpos hscope
    obtain ⟨outer', houter', _⟩ := hextends.scope? houter
    exact ⟨parent, outer', hscopes.parent.trans hparent, hlt, houter'⟩

/-- A scope that is entered inside of a level in use is enclosed by it; for the others nothing
changes. -/
theorem Rooted.push (hrooted : stack.Rooted leftRoot rightRoot) (hparent : parent < stack.depth)
    (inner inner' : Body) : (stack.push parent inner inner').Rooted leftRoot rightRoot := by
  refine ⟨?_, ?_⟩
  · obtain ⟨scope, hscope, hbodies⟩ := hrooted.root
    exact ⟨scope, (scope?_push_of_lt (scope?_eq_some_lt hscope)).trans hscope, hbodies⟩
  · intro level scope hpos hscope
    rw [scope?_push] at hscope
    split at hscope
    next hlevel =>
      cases hscope
      obtain ⟨outer, houter⟩ := exists_scope? hparent
      exact ⟨parent, outer, rfl, hlevel ▸ hparent, (scope?_push_of_lt hparent).trans houter⟩
    next =>
      obtain ⟨place, outer, hplace, hlt, houter⟩ := hrooted.enclosed hpos hscope
      exact ⟨place, outer, hplace, hlt,
        (scope?_push_of_lt (scope?_eq_some_lt houter)).trans houter⟩

/-- The scope that is left encloses no other one, as it has the highest level. -/
theorem Rooted.pop (hrooted : stack.Rooted leftRoot rightRoot) :
    stack.pop.Rooted leftRoot rightRoot := by
  refine ⟨hrooted.root, ?_⟩
  intro level scope hpos hscope
  obtain ⟨parent, _, hparent, hlt, _⟩ := hrooted.enclosed hpos (scope?_eq_some_of_pop hscope)
  obtain ⟨outer, houter⟩ := exists_scope? (Nat.lt_trans hlt (scope?_eq_some_lt hscope))
  exact ⟨parent, outer, hparent, hlt, houter⟩

theorem ComesUp.rooted (hcomes : ComesUp leftRoot rightRoot stack) :
    stack.Rooted leftRoot rightRoot := by
  induction hcomes with
  | root => exact rooted_ofBodies leftRoot rightRoot
  | push inner inner' _ hparent ih => exact ih.push hparent inner inner'
  | pair level index index' _ ih => exact ih.of_extends (extends_pair _ level index index')
  | pop _ ih => exact ih.pop

/-- From every level in use the enclosing ones lead to the root, each to a lower one. -/
theorem Rooted.exists_visits (hrooted : stack.Rooted leftRoot rightRoot)
    (hlevel : level < stack.depth) :
    ∃ visited, stack.Visits level visited ∧ visited.length ≤ level + 1 ∧
      visited.getLast? = some ⟨0, leftRoot, rightRoot⟩ := by
  induction level using Nat.strongRecOn with
  | ind level ih =>
      obtain ⟨scope, hscope⟩ := exists_scope? hlevel
      rcases Nat.eq_zero_or_pos level with rfl | hpos
      · obtain ⟨root, hroot, hparent, rfl, rfl⟩ := hrooted.root
        obtain rfl : scope = root := Option.some.inj (hscope.symm.trans hroot)
        exact ⟨_, .last hscope hparent, Nat.le_refl 1, rfl⟩
      · obtain ⟨parent, outer, hparent, hlt, houter⟩ := hrooted.enclosed hpos hscope
        obtain ⟨visited, hvisits, hlength, hlast⟩ := ih parent hlt (scope?_eq_some_lt houter)
        refine ⟨_, .outward hscope hparent hvisits, ?_, ?_⟩
        · rw [List.length_cons]
          omega
        · rw [List.getLast?_cons, hlast, Option.getD_some]

end Rooted

section Walking

variable {stack : ScopeStack} {level moves found : Nat} {left right : String} {tells : Lookup}
  {visited : List VisitedLevel}

/-- The levels around a level are told by it. -/
theorem Visits.unique {visited' : List VisitedLevel} (hvisits : stack.Visits level visited)
    (hvisits' : stack.Visits level visited') : visited = visited' := by
  induction hvisits generalizing visited' with
  | last hscope hparent =>
      cases hvisits' with
      | last hscope' _ =>
          obtain rfl := Option.some.inj (hscope.symm.trans hscope')
          rfl
      | outward hscope' hparent' _ =>
          obtain rfl := Option.some.inj (hscope.symm.trans hscope')
          cases hparent.symm.trans hparent'
  | outward hscope hparent _ ih =>
      cases hvisits' with
      | last hscope' hparent' =>
          obtain rfl := Option.some.inj (hscope.symm.trans hscope')
          cases hparent.symm.trans hparent'
      | outward hscope' hparent' hrest' =>
          obtain rfl := Option.some.inj (hscope.symm.trans hscope')
          cases hparent.symm.trans hparent'
          rw [ih hrest']

/-- There is one walk for two names from a level. -/
theorem Walk.unique {moves' found' : Nat} {tells' : Lookup}
    (hwalk : stack.Walk left right level moves found tells)
    (hwalk' : stack.Walk left right level moves' found' tells') :
    moves = moves' ∧ found = found' ∧ tells = tells' := by
  induction hwalk generalizing moves' with
  | ends hlookup hdecides =>
      cases hwalk' with
      | ends hlookup' _ => exact ⟨rfl, rfl, Option.some.inj (hlookup.symm.trans hlookup')⟩
      | outward hlookup' _ =>
          exact absurd (Option.some.inj (hlookup.symm.trans hlookup')) (hdecides _)
  | outward hlookup _ ih =>
      cases hwalk' with
      | ends hlookup' hdecides' =>
          exact absurd (Option.some.inj (hlookup'.symm.trans hlookup)) (hdecides' _)
      | outward hlookup' hrest' =>
          cases hlookup.symm.trans hlookup'
          obtain ⟨rfl, rfl, rfl⟩ := ih hrest'
          exact ⟨rfl, rfl, rfl⟩

/-- A lookup that may make as many moves as the walk gives what it ends with. -/
theorem Walk.lookupOutward? {bound : Nat} (hwalk : stack.Walk left right level moves found tells)
    (hmoves : moves ≤ bound) :
    stack.lookupOutward? left right bound level = some (found, tells) := by
  induction hwalk generalizing bound with
  | ends hlookup hdecides => exact lookupOutward?_of_lookup hlookup hdecides bound
  | outward hlookup _ ih =>
      obtain ⟨fewer, rfl⟩ : ∃ fewer, bound = fewer + 1 := ⟨bound - 1, by omega⟩
      simp only [ScopeStack.lookupOutward?, hlookup]
      exact ih (by omega)

theorem lookup?_of_finds {scope : Scope} (hscope : stack.scope? level = some scope)
    (hfinds : (⟨level, scope.left, scope.right⟩ : VisitedLevel).Finds left right) :
    stack.lookup? level left right =
      some ((⟨level, scope.left, scope.right⟩ : VisitedLevel).answer left right) := by
  rw [lookup?, hscope, Option.map_some, Scope.lookup, VisitedLevel.answer]
  unfold VisitedLevel.Finds at hfinds
  cases hleft : scope.left.origin? left <;> cases hright : scope.right.origin? right <;> simp_all

theorem lookup?_of_not_finds {scope : Scope} (hscope : stack.scope? level = some scope)
    (hnot : ¬ (⟨level, scope.left, scope.right⟩ : VisitedLevel).Finds left right) :
    stack.lookup? level left right = some (scope.parent.elim .nowhere .outward) := by
  obtain ⟨hleft, hright⟩ := not_or.mp hnot
  rw [lookup?, hscope, Option.map_some, Scope.lookup, not_not.mp hleft, not_not.mp hright]
  cases scope.parent <;> rfl

/-- From a level the walk goes to the first level around it that finds one of the names, or to the
last one. -/
theorem Visits.walk (hvisits : stack.Visits level visited) (left right : String) :
    (∃ distance ending, distance < visited.length ∧
      FirstFinding visited left right distance ending ∧
      stack.Walk left right level distance ending.level (ending.answer left right)) ∨
    (∀ other ∈ visited, ¬ other.Finds left right) ∧
      ∃ moves found, moves < visited.length ∧
        stack.Walk left right level moves found .nowhere := by
  induction hvisits with
  | @last level scope hscope hparent =>
      by_cases hfinds : (⟨level, scope.left, scope.right⟩ : VisitedLevel).Finds left right
      · exact Or.inl ⟨0, _, Nat.zero_lt_one, .head hfinds [],
          .ends (lookup?_of_finds hscope hfinds) VisitedLevel.answer_ne_outward⟩
      · have hlookup := lookup?_of_not_finds hscope hfinds
        rw [hparent, Option.elim_none] at hlookup
        refine Or.inr ⟨?_, 0, level, Nat.zero_lt_one, .ends hlookup (by simp)⟩
        intro other hother
        rw [List.mem_singleton.mp hother]
        exact hfinds
  | @outward level parent scope visited hscope hparent _ ih =>
      by_cases hfinds : (⟨level, scope.left, scope.right⟩ : VisitedLevel).Finds left right
      · exact Or.inl ⟨0, _, Nat.succ_pos _, .head hfinds visited,
          .ends (lookup?_of_finds hscope hfinds) VisitedLevel.answer_ne_outward⟩
      · have hlookup := lookup?_of_not_finds hscope hfinds
        rw [hparent, Option.elim_some] at hlookup
        rcases ih with ⟨distance, ending, hlt, hfirst, hwalk⟩ | ⟨hnone, moves, found, hlt, hwalk⟩
        · exact Or.inl ⟨distance + 1, ending, Nat.succ_lt_succ hlt, hfirst.cons hfinds,
            .outward hlookup hwalk⟩
        · exact Or.inr ⟨List.forall_mem_cons.mpr ⟨hfinds, hnone⟩, moves + 1, found,
            Nat.succ_lt_succ hlt, .outward hlookup hwalk⟩

/-- If the levels around a level are no more than there are below it, the walk comes to an end. -/
theorem Visits.walksOut (hvisits : stack.Visits level visited)
    (hlength : visited.length ≤ level + 1) (left right : String) :
    stack.WalksOut level visited left right := by
  have hends : ∃ moves found tells, moves ≤ level ∧
      stack.Walk left right level moves found tells := by
    rcases hvisits.walk left right with
      ⟨distance, _, hlt, _, hwalk⟩ | ⟨_, moves, _, hlt, hwalk⟩
    · exact ⟨distance, _, _, by omega, hwalk⟩
    · exact ⟨moves, _, _, by omega, hwalk⟩
  -- a walk that tells of a definition is the one to the first finding level
  have hfirst : ∀ {moves found : Nat} {tells : Lookup}, tells ≠ .nowhere →
      (stack.Walk left right level moves found tells ↔
        ∃ ending, FirstFinding visited left right moves ending ∧ ending.level = found ∧
          ending.answer left right = tells) := by
    intro moves found tells htells
    rcases hvisits.walk left right with
      ⟨distance, ending, _, hfirst, hwalk⟩ | ⟨hnone, _, _, _, hwalk⟩
    · constructor
      · intro hother
        obtain ⟨rfl, rfl, rfl⟩ := hwalk.unique hother
        exact ⟨ending, hfirst, rfl, rfl⟩
      · rintro ⟨ending', hfirst', rfl, rfl⟩
        obtain ⟨rfl, rfl⟩ := hfirst.unique hfirst'
        exact hwalk
    · constructor
      · intro hother
        exact absurd (hwalk.unique hother).2.2.symm htells
      · rintro ⟨ending', hfirst', _⟩
        exact absurd hfirst'.finds (hnone _ (List.mem_of_getElem? hfirst'.at_distance))
  refine ⟨hends, ?_, ?_, ?_, ?_⟩
  · intro moves found tells hwalk
    obtain ⟨moves', _, _, hmoves, hwalk'⟩ := hends
    obtain ⟨rfl, -⟩ := hwalk.unique hwalk'
    exact ⟨hmoves, hwalk.lookupOutward? hmoves⟩
  · intro moves found origin origin'
    rw [hfirst (by simp)]
    simp only [VisitedLevel.answer_eq_here]
  · intro moves found
    rw [hfirst (by simp)]
    simp only [VisitedLevel.answer_eq_oneSided]
  · rcases hvisits.walk left right with
      ⟨distance, ending, _, hfirst, hwalk⟩ | ⟨hnone, moves, found, _, hwalk⟩
    · constructor
      · rintro ⟨_, _, hother⟩
        exact absurd (hwalk.unique hother).2.2 VisitedLevel.answer_ne_nowhere
      · intro hnone
        exact absurd hfirst.finds (hnone _ (List.mem_of_getElem? hfirst.at_distance))
    · exact ⟨fun _ => hnone, fun _ => ⟨moves, found, hwalk⟩⟩

end Walking

/-- Whatever was entered and left, every level is enclosed by lower ones up to the root. A walk from
there ends, at the nearest level at which one of the names is found. -/
theorem ComesUp.walks_end {leftRoot rightRoot : Body} {stack : ScopeStack}
    (hcomes : ComesUp leftRoot rightRoot stack) :
    stack.Rooted leftRoot rightRoot ∧ ∀ level < stack.depth, ∃ visited,
      stack.Visits level visited ∧ visited.length ≤ level + 1 ∧
        visited.getLast? = some ⟨0, leftRoot, rightRoot⟩ ∧
        ∀ left right, stack.WalksOut level visited left right := by
  refine ⟨hcomes.rooted, ?_⟩
  intro level hlevel
  obtain ⟨visited, hvisits, hlength, hlast⟩ := hcomes.rooted.exists_visits hlevel
  exact ⟨visited, hvisits, hlength, hlast, hvisits.walksOut hlength⟩

/-- A body with one node, which makes the output of what it reads. -/
def oneNode (inputs : List String) (reads makes : String) : Body :=
  { inputs, nodes := [{ opType := "Abs", inputs := [reads], outputs := [makes] }],
    outputs := [makes] }

/-- The first of two scopes inside of the root. -/
def firstSibling : ScopeStack :=
  (ofBodies (oneNode ["A"] "A" "T") (oneNode ["X"] "X" "U")).push 0 (oneNode [] "T" "R")
    (oneNode [] "U" "S")

/-- The second one, on top of the first. -/
def siblings : ScopeStack :=
  firstSibling.push 0 (oneNode [] "T" "P") (oneNode [] "U" "Q")

/-- The second scope and what it sees around itself, without the first. -/
def aroundSecond : List VisitedLevel :=
  [⟨2, oneNode [] "T" "P", oneNode [] "U" "Q"⟩,
    ⟨0, oneNode ["A"] "A" "T", oneNode ["X"] "X" "U"⟩]

/-- What only the first scope defines is found nowhere from the second one. -/
theorem ComesUp.walks_end_siblings :
    ComesUp (oneNode ["A"] "A" "T") (oneNode ["X"] "X" "U") siblings ∧
      (siblings.scope? 1).map Scope.left = some (oneNode [] "T" "R") ∧
      siblings.Visits 2 aroundSecond ∧ siblings.WalksOut 2 aroundSecond "R" "S" ∧
      siblings.Walk "R" "S" 2 1 0 .nowhere := by
  have hcomes : ComesUp (oneNode ["A"] "A" "T") (oneNode ["X"] "X" "U") siblings :=
    .push _ _ (.push _ _ .root (by decide)) (by decide)
  have hsecond : siblings.scope? 2 = some
      { parent := some 0, left := oneNode [] "T" "P", right := oneNode [] "U" "Q" } := rfl
  have hroot : siblings.scope? 0 = some
      { parent := none, left := oneNode ["A"] "A" "T", right := oneNode ["X"] "X" "U" } := rfl
  have haround : siblings.Visits 2 aroundSecond := .outward hsecond rfl (.last hroot rfl)
  obtain ⟨_, hwalks⟩ := ComesUp.walks_end hcomes
  obtain ⟨visited, hvisits, _, _, hwalksOut⟩ := hwalks 2 (by decide)
  obtain rfl : visited = aroundSecond := hvisits.unique haround
  exact ⟨hcomes, rfl, haround, hwalksOut "R" "S", .outward rfl (.ends rfl (by simp))⟩

end ScopeStack

end OpGraph
