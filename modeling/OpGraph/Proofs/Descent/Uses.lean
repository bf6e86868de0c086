import OpGraph.Proofs.Descent.Failures

/-!
The way to a difference is a chain of uses. Each use is of what the one around it reads: an input of
two nodes, an output of two nested graphs, or an output of the operands. What a use reads may come
from a scope further out, but all scopes on the way are still there when the first rule fails.
-/

namespace OpGraph

open CompareM

/-- Two names are at the same place of two lists. -/
def SamePlace (lefts rights : List String) (name name' : String) : Prop :=
  ∃ place : Nat, lefts[place]? = some name ∧ rights[place]? = some name'

namespace ScopeStack

/-- The scope at a level is that of two graphs, inside of another level. -/
def Encloses (stack : ScopeStack) (parent level : Nat) (graph graph' : Graph) : Prop :=
  ∃ scope, stack.scope? level = some scope ∧ scope.parent = some parent ∧
    scope.left = graph.body ∧ scope.right = graph'.body

/-- Two nodes at a level read two names, at the same place among their inputs. -/
def ReadByNodes (stack : ScopeStack) (level left right : Nat) (name name' : String) : Prop :=
  ∃ node node', stack.NodesAt level left right node node' ∧
    SamePlace node.inputs node'.inputs name name'

/-- Two nodes at a level have two graphs, at this place of an attribute of this name. -/
def HeldByNodes (stack : ScopeStack) (level left right : Nat) (attr : String) (place : Nat)
    (graph graph' : Graph) : Prop :=
  ∃ node node', stack.NodesAt level left right node node' ∧ node.HoldsAt attr place graph ∧
    node'.HoldsAt attr place graph'

/-- Two graphs inside of a level read two names from their own level, at the same place among their
outputs. -/
def ReadByGraphs (stack : ScopeStack) (parent : Nat) (graph graph' : Graph) (level : Nat)
    (name name' : String) : Prop :=
  stack.Encloses parent level graph graph' ∧ SamePlace graph.outputs graph'.outputs name name'

/-- Read from a level, two names are the same output of two nodes at a level. -/
def ReadsNodes (stack : ScopeStack) (reader : Nat) (name name' : String) (level left right : Nat) :
    Prop :=
  ∃ slot, stack.lookupOutward? name name' reader reader =
    some (level, .here (.output left slot) (.output right slot))

/-- After these uses, the innermost first, two names are read from a level: by the operands, by two
nodes or by two graphs. -/
inductive Reads (left right : Body) (stack : ScopeStack) :
    List UseStep → Nat → String → String → Prop where
  | outputs {name name' : String} : SamePlace left.outputs right.outputs name name' →
      Reads left right stack [] 0 name name'
  | inputs {level index index' : Nat} {opType name name' : String} {path : List UseStep} :
      stack.ReadByNodes level index index' name name' →
      Reads left right stack (.nodes level index index' opType :: path) level name name'
  | nested {level index index' inner place : Nat} {opType attr name name' : String}
      {path : List UseStep} {graph graph' : Graph} :
      stack.HeldByNodes level index index' attr place graph graph' →
      stack.ReadByGraphs level graph graph' inner name name' →
      Reads left right stack (.subgraph attr place :: .nodes level index index' opType :: path) inner
        name name'

/-- Uses one inside the other, the innermost first. -/
inductive Uses (left right : Body) (stack : ScopeStack) : List UseStep → Prop where
  | start : Uses left right stack []
  | nodes {reader level index index' : Nat} {name name' : String} {path : List UseStep}
      {node node' : Node} : Uses left right stack path →
      Reads left right stack path reader name name' →
      stack.ReadsNodes reader name name' level index index' →
      stack.NodesAt level index index' node node' →
      Uses left right stack (.nodes level index index' node.opType :: path)
  | subgraph {level index index' place : Nat} {opType attr : String} {path : List UseStep}
      {graph graph' : Graph} : Uses left right stack (.nodes level index index' opType :: path) →
      stack.HeldByNodes level index index' attr place graph graph' →
      Uses left right stack (.subgraph attr place :: .nodes level index index' opType :: path)

/-- What is pending is what is read after the uses that led to it. -/
def LedTo (left right : Body) (stack : ScopeStack) (around : List UseStep) : Pending → Prop
  | .values level name name' via =>
      Uses left right stack (via ++ around) ∧
        Reads left right stack (via ++ around) level name name'
  | .nodes level index index' via =>
      Uses left right stack (via ++ around) ∧ ∃ reader name name',
        Reads left right stack (via ++ around) reader name name' ∧
          stack.ReadsNodes reader name name' level index index'

/-- All scopes are still there, with the same bodies at the same places. -/
def Keeps (stack stack' : ScopeStack) : Prop :=
  ∀ ⦃level : Nat⦄ ⦃scope : Scope⦄, stack.scope? level = some scope → ∃ scope',
    stack'.scope? level = some scope' ∧ scope'.parent = scope.parent ∧
      scope'.left = scope.left ∧ scope'.right = scope.right

section Keeping

variable {left right : Body} {stack stack' : ScopeStack} {level index index' : Nat}
  {name name' : String} {path : List UseStep}

theorem Extends.keeps (hextends : stack.Extends stack') : stack.Keeps stack' := by
  intro level scope hscope
  obtain ⟨scope', hscope', hscopes⟩ := hextends.scope? hscope
  exact ⟨scope', hscope', hscopes.parent, hscopes.left, hscopes.right⟩

theorem keeps_push (stack : ScopeStack) (parent : Nat) (left right : Body) :
    stack.Keeps (stack.push parent left right) := by
  intro level scope hscope
  refine ⟨scope, ?_, rfl, rfl, rfl⟩
  rwa [scope?_push_of_lt (scope?_eq_some_lt hscope)]

theorem Keeps.trans {stack'' : ScopeStack} (hfirst : stack.Keeps stack')
    (hsecond : stack'.Keeps stack'') : stack.Keeps stack'' := by
  intro level scope hscope
  obtain ⟨scope', hscope', hparent, hleft, hright⟩ := hfirst hscope
  obtain ⟨scope'', hscope'', hparent', hleft', hright'⟩ := hsecond hscope'
  exact ⟨scope'', hscope'', hparent'.trans hparent, hleft'.trans hleft, hright'.trans hright⟩

theorem Keeps.lookup? (hkeeps : stack.Keeps stack') {lookup : Lookup}
    (hlookup : stack.lookup? level name name' = some lookup) :
    stack'.lookup? level name name' = some lookup := by
  obtain ⟨scope, hscope, rfl⟩ := Option.map_eq_some_iff.mp hlookup
  obtain ⟨scope', hscope', hparent, hleft, hright⟩ := hkeeps hscope
  rw [ScopeStack.lookup?, hscope', Option.map_some, Scope.lookup, Scope.lookup, hparent, hleft,
    hright]

/-- What is found is found in the same way as long as the scopes are there. -/
theorem Keeps.lookupOutward? (hkeeps : stack.Keeps stack') {moves : Nat} {found : Nat × Lookup}
    (hlookup : stack.lookupOutward? name name' moves level = some found) :
    stack'.lookupOutward? name name' moves level = some found := by
  induction moves generalizing level with
  | zero =>
      rw [ScopeStack.lookupOutward?] at hlookup ⊢
      cases hhere : stack.lookup? level name name' with
      | none => simp [hhere] at hlookup
      | some lookup =>
          rw [hkeeps.lookup? hhere]
          rwa [hhere] at hlookup
  | succ moves ih =>
      rw [ScopeStack.lookupOutward?] at hlookup ⊢
      cases hhere : stack.lookup? level name name' with
      | none => simp [hhere] at hlookup
      | some lookup =>
          rw [hkeeps.lookup? hhere]
          rw [hhere] at hlookup
          cases lookup with
          | outward parent => exact ih hlookup
          | _ => exact hlookup

theorem NodesAt.of_keeps (hkeeps : stack.Keeps stack') {node node' : Node}
    (hnodes : stack.NodesAt level index index' node node') :
    stack'.NodesAt level index index' node node' := by
  obtain ⟨scope, hscope, hnode, hnode'⟩ := hnodes
  obtain ⟨scope', hscope', _, hleft, hright⟩ := hkeeps hscope
  exact ⟨scope', hscope', by rwa [hleft], by rwa [hright]⟩

theorem Encloses.of_keeps (hkeeps : stack.Keeps stack') {parent : Nat} {graph graph' : Graph}
    (hencloses : stack.Encloses parent level graph graph') :
    stack'.Encloses parent level graph graph' := by
  obtain ⟨scope, hscope, hparent, hbody, hbody'⟩ := hencloses
  obtain ⟨scope', hscope', hparent', hleft, hright⟩ := hkeeps hscope
  exact ⟨scope', hscope', hparent'.trans hparent, hleft.trans hbody, hright.trans hbody'⟩

theorem ReadByNodes.of_keeps (hkeeps : stack.Keeps stack')
    (hread : stack.ReadByNodes level index index' name name') :
    stack'.ReadByNodes level index index' name name' := by
  obtain ⟨node, node', hat, hplace⟩ := hread
  exact ⟨node, node', hat.of_keeps hkeeps, hplace⟩

theorem HeldByNodes.of_keeps (hkeeps : stack.Keeps stack') {attr : String} {place : Nat}
    {graph graph' : Graph} (hheld : stack.HeldByNodes level index index' attr place graph graph') :
    stack'.HeldByNodes level index index' attr place graph graph' := by
  obtain ⟨node, node', hat, hholds⟩ := hheld
  exact ⟨node, node', hat.of_keeps hkeeps, hholds⟩

theorem ReadsNodes.of_keeps (hkeeps : stack.Keeps stack') {reader : Nat}
    (hreads : stack.ReadsNodes reader name name' level index index') :
    stack'.ReadsNodes reader name name' level index index' := by
  obtain ⟨slot, hlookup⟩ := hreads
  exact ⟨slot, hkeeps.lookupOutward? hlookup⟩

theorem Reads.of_keeps (hkeeps : stack.Keeps stack')
    (hreads : Reads left right stack path level name name') :
    Reads left right stack' path level name name' := by
  cases hreads with
  | outputs hplace => exact .outputs hplace
  | inputs hread => exact .inputs (hread.of_keeps hkeeps)
  | nested hheld hread =>
      exact .nested (hheld.of_keeps hkeeps) ⟨hread.1.of_keeps hkeeps, hread.2⟩

theorem Uses.of_keeps (hkeeps : stack.Keeps stack') (huses : Uses left right stack path) :
    Uses left right stack' path := by
  induction huses with
  | start => exact .start
  | nodes _ hreads hnodes hat ih =>
      exact ih.nodes (hreads.of_keeps hkeeps) (hnodes.of_keeps hkeeps) (hat.of_keeps hkeeps)
  | subgraph _ hheld ih => exact ih.subgraph (hheld.of_keeps hkeeps)

theorem LedTo.of_keeps (hkeeps : stack.Keeps stack') {around : List UseStep} {next : Pending}
    (hled : LedTo left right stack around next) : LedTo left right stack' around next := by
  cases next with
  | values level name name' via => exact ⟨hled.1.of_keeps hkeeps, hled.2.of_keeps hkeeps⟩
  | nodes level index index' via =>
      obtain ⟨huses, reader, name, name', hreads, hnodes⟩ := hled
      exact ⟨huses.of_keeps hkeeps, reader, name, name', hreads.of_keeps hkeeps,
        hnodes.of_keeps hkeeps⟩

end Keeping

/-- The way to a difference, the innermost use first, as a chain of uses. -/
structure ChainOfUses (left right : Body) (stack : ScopeStack) (path : List UseStep) : Prop where
  /-- A use of two nodes is of nodes of the two bodies at its level, and names the operation of the
  left one. -/
  named : ∀ (level index index' : Nat) (opType : String),
    .nodes level index index' opType ∈ path →
    ∃ node node', stack.NodesAt level index index' node node' ∧ node.opType = opType
  /-- Of two uses of nodes one after the other, the nodes of the outer one read the same output of the
  nodes of the inner one. -/
  read : ∀ (before after : List UseStep) (level index index' outer used used' : Nat)
    (opType opType' : String),
    path = before ++ .nodes level index index' opType :: .nodes outer used used' opType' :: after →
    ∃ name name', stack.ReadByNodes outer used used' name name' ∧
      stack.ReadsNodes outer name name' level index index'
  /-- A use of two graphs is of graphs that the nodes of the use around it have. It is the first use,
  or the graphs read the same output of the nodes of the use before. -/
  held : ∀ (before after : List UseStep) (attr : String) (place : Nat),
    path = before ++ .subgraph attr place :: after →
    ∃ outer used used' opType rest graph graph', after = .nodes outer used used' opType :: rest ∧
      stack.HeldByNodes outer used used' attr place graph graph' ∧
      (before = [] ∨ ∃ first level index index' opType' inner name name',
        before = first ++ [.nodes level index index' opType'] ∧
        stack.ReadByGraphs outer graph graph' inner name name' ∧
        stack.ReadsNodes inner name name' level index index')
  /-- The last use is of nodes of the operands, of which these have the same output at the same place
  among their own. -/
  rooted : path ≠ [] → ∃ before index index' opType name name',
    path = before ++ [.nodes 0 index index' opType] ∧
    SamePlace left.outputs right.outputs name name' ∧
    stack.ReadsNodes 0 name name' 0 index index'

section Chains

variable {left right : Body} {stack : ScopeStack} {level index index' : Nat}
  {name name' : String} {path : List UseStep}

/-- What is read from the root is at the root. -/
theorem ReadsNodes.eq_zero (hreads : stack.ReadsNodes 0 name name' level index index') :
    level = 0 := by
  obtain ⟨slot, hlookup⟩ := hreads
  rcases lookupOutward?_eq_here hlookup with ⟨_, _, hlevel, _⟩ | ⟨_, _, _, hmoves, _⟩
  · exact hlevel
  · cases hmoves

theorem chainOfUses_nil : ChainOfUses left right stack [] where
  named _ _ _ _ hmem := by cases hmem
  read before _ _ _ _ _ _ _ _ _ hpath := by cases before <;> cases hpath
  held before _ _ _ hpath := by cases before <;> cases hpath
  rooted hpath := absurd rfl hpath

/-- A chain of uses goes on to nodes that are read after it. -/
theorem ChainOfUses.nodes {reader : Nat} {node node' : Node}
    (hchain : ChainOfUses left right stack path)
    (hreads : Reads left right stack path reader name name')
    (hnodes : stack.ReadsNodes reader name name' level index index')
    (hat : stack.NodesAt level index index' node node') :
    ChainOfUses left right stack (.nodes level index index' node.opType :: path) where
  named other used used' opType hmem := by
    rcases List.mem_cons.mp hmem with heq | hrest
    · cases heq
      exact ⟨node, node', hat, rfl⟩
    · exact hchain.named other used used' opType hrest
  read before after other used used' outer place place' opType opType' hpath := by
    rcases before with _ | ⟨first, before⟩
    · obtain ⟨heq, rfl⟩ := List.cons.inj hpath
      cases heq
      cases hreads with
      | inputs hread => exact ⟨name, name', hread, hnodes⟩
    · exact hchain.read before after other used used' outer place place' opType opType'
        (List.cons.inj hpath).2
  held before after attr place hpath := by
    rcases before with _ | ⟨first, before⟩
    · cases hpath
    · obtain ⟨rfl, rfl⟩ := List.cons.inj hpath
      rcases before with _ | ⟨second, before⟩
      · cases hreads with
        | nested hheld hread =>
            exact ⟨_, _, _, _, _, _, _, rfl, hheld,
              Or.inr ⟨[], level, index, index', _, _, name, name', rfl, hread, hnodes⟩⟩
      · obtain ⟨outer, used, used', opType, rest, graph, graph', hafter, hheld, hfirst⟩ :=
          hchain.held (second :: before) after attr place rfl
        refine ⟨outer, used, used', opType, rest, graph, graph', hafter, hheld, Or.inr ?_⟩
        rcases hfirst with hnil | ⟨first, other, place, place', opType', inner, read, read', hbefore,
          hread⟩
        · cases hnil
        · exact ⟨_ :: first, other, place, place', opType', inner, read, read',
            congrArg _ hbefore, hread⟩
  rooted _ := by
    cases path with
    | nil =>
        cases hreads with
        | outputs hplace =>
            obtain rfl := hnodes.eq_zero
            exact ⟨[], index, index', node.opType, name, name', rfl, hplace, hnodes⟩
    | cons use rest =>
        obtain ⟨before, used, used', opType, output, output', hpath, hrooted⟩ :=
          hchain.rooted (List.cons_ne_nil use rest)
        exact ⟨_ :: before, used, used', opType, output, output', congrArg _ hpath, hrooted⟩

/-- A chain of uses goes on to graphs that its first nodes have. -/
theorem ChainOfUses.subgraph {opType attr : String} {place : Nat} {graph graph' : Graph}
    (hchain : ChainOfUses left right stack (.nodes level index index' opType :: path))
    (hheld : stack.HeldByNodes level index index' attr place graph graph') :
    ChainOfUses left right stack
      (.subgraph attr place :: .nodes level index index' opType :: path) where
  named other used used' opType' hmem := by
    rcases List.mem_cons.mp hmem with heq | hrest
    · cases heq
    · exact hchain.named other used used' opType' hrest
  read before after other used used' outer place place' opType opType' hpath := by
    rcases before with _ | ⟨first, before⟩
    · cases hpath
    · exact hchain.read before after other used used' outer place place' opType opType'
        (List.cons.inj hpath).2
  held before after attr' place' hpath := by
    rcases before with _ | ⟨first, before⟩
    · cases hpath
      exact ⟨level, index, index', opType, path, graph, graph', rfl, hheld, Or.inl rfl⟩
    · obtain ⟨rfl, hrest⟩ := List.cons.inj hpath
      obtain ⟨outer, used, used', opType', rest, held, held', hafter, hheld', hfirst⟩ :=
        hchain.held before after attr' place' hrest
      refine ⟨outer, used, used', opType', rest, held, held', hafter, hheld', Or.inr ?_⟩
      rcases hfirst with rfl | ⟨first, other, node, node', opType', inner, read, read', hbefore, hread⟩
      · cases hrest
      · exact ⟨_ :: first, other, node, node', opType', inner, read, read', congrArg _ hbefore, hread⟩
  rooted _ := by
    obtain ⟨before, used, used', opType', output, output', hpath, hrooted⟩ :=
      hchain.rooted (List.cons_ne_nil _ _)
    exact ⟨_ :: before, used, used', opType', output, output', congrArg _ hpath, hrooted⟩

/-- Uses one inside the other are a chain. -/
theorem Uses.chain (huses : Uses left right stack path) : ChainOfUses left right stack path := by
  induction huses with
  | start => exact chainOfUses_nil
  | nodes _ hreads hnodes hat ih => exact ih.nodes hreads hnodes hat
  | subgraph _ hheld ih => exact ih.subgraph hheld

end Chains

end ScopeStack

namespace CompareM

open ScopeStack

section Leading

variable {left right : Body} {stack : ScopeStack} {level : Nat} {around via : List UseStep}

theorem ledTo_of_pendingValues {lefts rights : List String} {next : Pending}
    (huses : Uses left right stack (via ++ around))
    (hreads : ∀ name name', SamePlace lefts rights name name' →
      Reads left right stack (via ++ around) level name name')
    (hnext : next ∈ pendingValues level lefts rights via) : LedTo left right stack around next := by
  obtain ⟨place, hplace⟩ := List.mem_iff_getElem?.mp hnext
  obtain ⟨name, name', hname, hname', rfl⟩ := List.getElem?_zipWith_eq_some.mp hplace
  exact ⟨huses, hreads name name' ⟨place, hname, hname'⟩⟩

theorem ledTo_of_lookupPending {name name' : String} {found : Nat} {lookup : Lookup} {next : Pending}
    (hled : LedTo left right stack around (.values level name name' via))
    (hlookup : stack.lookupOutward? name name' level level = some (found, lookup))
    (hrule : lookupRule? name name' lookup = none)
    (hnext : next ∈ lookupPending found via lookup) : LedTo left right stack around next := by
  rcases lookupRule?_eq_none_iff.mp hrule with ⟨slot, rfl⟩ | ⟨index, index', slot, rfl⟩
  · cases hnext
  · obtain rfl := List.mem_singleton.mp hnext
    exact ⟨hled.1, level, name, name', hled.2, slot, hlookup⟩

end Leading

section Stepping

variable {options : CompareOptions} {left right : Body} {levels level index index' : Nat}
  {around via : List UseStep} {state inner : CompareState} {scope : Scope}
  {leftNode rightNode : Node}

theorem FreshNodes.nodesAt
    (hfresh : FreshNodes state.stack level index index' scope leftNode rightNode) :
    state.stack.NodesAt level index index' leftNode rightNode :=
  ⟨scope, hfresh.scope_eq, hfresh.left_eq, hfresh.right_eq⟩

/-- The nodes of a step are used after the uses that led to it. -/
theorem FreshNodes.uses
    (hfresh : FreshNodes state.stack level index index' scope leftNode rightNode)
    (hled : LedTo left right state.stack around (.nodes level index index' via)) :
    Uses left right state.stack (.nodes level index index' leftNode.opType :: (via ++ around)) := by
  obtain ⟨huses, reader, name, name', hreads, hnodes⟩ := hled
  exact huses.nodes hreads hnodes hfresh.nodesAt

/-- What a step leads to is read after its uses. -/
theorem ledTo_of_step {next : Pending} {leads : List Pending}
    (hexec : exec (step options (compareNested options levels) next) state =
      (.ok (some leads), inner))
    (hled : LedTo left right state.stack around next) {other : Pending} (hother : other ∈ leads) :
    LedTo left right inner.stack around other := by
  have hrun := stepRun_of_exec hexec
  have hkeeps := (hrun.grows (nestedRun_grows options levels)).keeps
  cases hrun with
  | namesLead hlookup hrule => exact ledTo_of_lookupPending hled hlookup hrule hother
  | partners _ _ => cases hother
  | nodesPaired hfresh _ _ _ _ =>
      refine LedTo.of_keeps hkeeps (ledTo_of_pendingValues (hfresh.uses hled) ?_ hother)
      intro name name' hplace
      exact .inputs ⟨_, _, hfresh.nodesAt, hplace⟩

end Stepping

end CompareM

open ScopeStack

namespace Moment

variable {options : CompareOptions} {left right : Body} {moment : Moment} {level : Nat}
  {call : GraphCall} {inner : CompareState} {path : List UseStep}

/-- The graphs that a step comes to are those of its nodes, and are used after these. -/
theorem Calls.uses (hcalls : moment.Calls options level call inner path)
    (hled : ∀ next ∈ moment.pending, LedTo left right moment.state.stack moment.around next) :
    Uses left right inner.stack path ∧ ∃ index index' opType rest,
      path = .subgraph call.name call.index :: .nodes level index index' opType :: rest ∧
      inner.stack.HeldByNodes level index index' call.name call.index call.left call.right := by
  have hkeeps := hcalls.grows.keeps
  cases hcalls with
  | @made levels level left' right' via around rest state inner scope leftNode rightNode calls later
      call hfresh hrule hplan hexec =>
      have hcall : call ∈ (attributePlan leftNode.attributes rightNode.attributes).calls := by
        rw [hplan]
        exact List.mem_append_right _ List.mem_cons_self
      have hheld : inner.stack.HeldByNodes level left' right' call.name call.index call.left
          call.right := HeldByNodes.of_keeps hkeeps ⟨_, _, hfresh.nodesAt, holdsAt_of_mem hcall⟩
      refine ⟨((hfresh.uses (hled _ List.mem_cons_self)).of_keeps hkeeps).subgraph hheld, ?_⟩
      exact ⟨left', right', leftNode.opType, via ++ around, rfl, hheld⟩

theorem encloses_entered (inner : CompareState) (level : Nat) (graph graph' : Graph) :
    (inner.entered level graph.body graph'.body).stack.Encloses level inner.stack.depth graph
      graph' :=
  ⟨_, scope?_push_depth inner.stack level graph.body graph'.body, rfl, rfl, rfl⟩

/-- What is pending at a moment stays read after its uses. -/
theorem Follows.ledTo {next : Moment} (hfollows : next.Follows options moment)
    (hled : ∀ pending ∈ moment.pending,
      LedTo left right moment.state.stack moment.around pending) :
    ∀ pending ∈ next.pending, LedTo left right next.state.stack next.around pending := by
  cases hfollows with
  | step hexec =>
      intro pending hpending
      rcases List.mem_append.mp hpending with hleads | hrest
      · exact ledTo_of_step hexec (hled _ List.mem_cons_self) hleads
      · exact (hled pending (List.mem_cons_of_mem _ hrest)).of_keeps
          ((stepRun_of_exec hexec).grows (nestedRun_grows options _)).keeps
  | @nested _ levels level call inner path hcalls _ _ _ =>
      have hkeeps := keeps_push inner.stack level call.left.body call.right.body
      obtain ⟨huses, index, index', opType, rest, rfl, hheld⟩ := hcalls.uses hled
      intro pending hpending
      refine ledTo_of_pendingValues (huses.of_keeps hkeeps) ?_ hpending
      intro name name' hplace
      exact .nested (hheld.of_keeps hkeeps) ⟨encloses_entered inner level call.left call.right, hplace⟩

theorem Follows.keeps {next : Moment} (hfollows : next.Follows options moment) :
    moment.state.stack.Keeps next.state.stack := by
  cases hfollows with
  | step hexec => exact ((stepRun_of_exec hexec).grows (nestedRun_grows options _)).keeps
  | nested hcalls _ _ _ => exact hcalls.grows.keeps.trans (keeps_push _ _ _ _)

/-- A rule fails with the scopes of the moment, or with that of two graphs in addition. -/
theorem Breaks.grows {broken : CompareState} {rule : FailedRule}
    (hbreaks : moment.Breaks options broken rule path) :
    moment.state.stack.Extends broken.stack ∨ ∃ level call inner path,
      moment.Calls options level call inner path ∧
        (inner.entered level call.left.body call.right.body).stack.Extends broken.stack := by
  cases hbreaks with
  | names _ _ | partner _ _ _ | nodes _ _ => exact Or.inl (Extends.refl _)
  | attributes _ _ hexec _ | inputCounts _ _ hexec _ _ =>
      exact Or.inl ((callsRun_of_exec hexec).grows (nestedRun_grows options _))
  | headers hcalls _ => exact Or.inl hcalls.grows
  | bodies hcalls _ _ hbreak => exact Or.inr ⟨_, _, _, _, hcalls, hbreak.grows⟩

theorem Breaks.keeps {broken : CompareState} {rule : FailedRule}
    (hbreaks : moment.Breaks options broken rule path) :
    moment.state.stack.Keeps broken.stack := by
  rcases hbreaks.grows with hextends | ⟨level, call, inner, path, hcalls, hextends⟩
  · exact hextends.keeps
  · exact hcalls.grows.keeps.trans ((keeps_push _ _ _ _).trans hextends.keeps)

theorem Breaks.proper {broken : CompareState} {rule : FailedRule}
    (hbreaks : moment.Breaks options broken rule path)
    (hproper : moment.state.stack.Proper left right) : broken.stack.Proper left right := by
  rcases hbreaks.grows with hextends | ⟨level, call, inner, path, hcalls, hextends⟩
  · exact hproper.of_extends hextends
  · refine ScopeStack.Proper.of_extends ?_ hextends
    have hinner := hcalls.grows
    obtain ⟨hfresh, _, hplan, _⟩ := hcalls
    refine hfresh.entered hproper hinner ?_
    rw [hplan]
    exact List.mem_append_right _ List.mem_cons_self

/-- The way to a rule that fails at a moment consists of uses one inside the other. -/
theorem Breaks.uses {broken : CompareState} {rule : FailedRule}
    (hbreaks : moment.Breaks options broken rule path)
    (hled : ∀ next ∈ moment.pending, LedTo left right moment.state.stack moment.around next) :
    Uses left right broken.stack path := by
  have hkeeps := hbreaks.keeps
  cases hbreaks with
  | names _ _ | partner _ _ _ => exact (hled _ List.mem_cons_self).1
  | nodes hfresh _ | attributes hfresh _ _ _ | inputCounts hfresh _ _ _ _ =>
      exact (hfresh.uses (hled _ List.mem_cons_self)).of_keeps hkeeps
  | headers hcalls _ => exact (hcalls.uses hled).1
  | bodies hcalls _ _ hbreak =>
      exact (hcalls.uses hled).1.of_keeps ((keeps_push _ _ _ _).trans hbreak.grows.keeps)

end Moment

namespace Operands

variable {options : CompareOptions} {operands : Operands} {moment : Moment}

/-- What is pending at any moment is read after the uses that led to it. -/
theorem Passes.ledTo (hpasses : operands.Passes options moment) :
    ∀ next ∈ moment.pending,
      LedTo operands.left operands.right moment.state.stack moment.around next := by
  induction hpasses with
  | begins _ _ _ =>
      intro next hnext
      refine ledTo_of_pendingValues .start ?_ hnext
      intro name name' hplace
      exact .outputs hplace
  | follows _ hfollows ih => exact hfollows.ledTo ih

/-- The way to a rule that fails consists of uses one inside the other. -/
theorem Breaks.uses {broken : CompareState} {rule : FailedRule} {path : List UseStep}
    (hbreaks : operands.Breaks options broken rule path) :
    Uses operands.left operands.right broken.stack path := by
  cases hbreaks with
  | opening _ _ => exact .start
  | bodies _ _ _ => exact .start
  | within hpasses hbreaks => exact hbreaks.uses hpasses.ledTo

/-- Where a rule fails, the scopes are those of the operands and of graphs nested in them. -/
theorem Breaks.proper {broken : CompareState} {rule : FailedRule} {path : List UseStep}
    (hbreaks : operands.Breaks options broken rule path) :
    broken.stack.Proper operands.left operands.right := by
  cases hbreaks with
  | opening _ _ => exact proper_ofBodies _ _
  | bodies _ _ hbreak => exact (proper_ofBodies _ _).of_extends hbreak.grows
  | within hpasses hbreaks => exact hbreaks.proper hpasses.reached.proper

theorem Passes.keeps (hpasses : operands.Passes options moment) :
    (CompareState.initial operands.left operands.right).stack.Keeps moment.state.stack := by
  induction hpasses with
  | begins _ _ _ => exact (Extends.refl _).keeps
  | follows _ hfollows ih => exact ih.trans hfollows.keeps

/-- Where a rule fails, the root is still that of the operands. -/
theorem Breaks.hasBodies {broken : CompareState} {rule : FailedRule} {path : List UseStep}
    (hbreaks : operands.Breaks options broken rule path) :
    broken.stack.HasBodies 0 operands.left operands.right := by
  have hkeeps : (CompareState.initial operands.left operands.right).stack.Keeps broken.stack := by
    cases hbreaks with
    | opening _ _ => exact (Extends.refl _).keeps
    | bodies _ _ hbreak => exact hbreak.grows.keeps
    | within hpasses hbreaks => exact hpasses.keeps.trans hbreaks.keeps
  have hroot : (CompareState.initial operands.left operands.right).stack.scope? 0 =
      some { parent := none, left := operands.left, right := operands.right } := rfl
  obtain ⟨scope, hscope, _, hleft, hright⟩ := hkeeps hroot
  exact ⟨scope, hscope, hleft, hright⟩

end Operands

/-- If a verdict says why the operands differ, some rule failed for them: the one that it names, in a
state with the operands at the root and with graphs nested in them above it, and by a chain of uses
in this state. -/
theorem compare_explains (options : CompareOptions) (operands : Operands) (difference : Difference)
    (hcompare : operands.compare options = .ok (.different (some difference))) :
    ∃ broken : CompareState, operands.Breaks options broken difference.rule difference.path ∧
      broken.stack.Proper operands.left operands.right ∧
      broken.stack.HasBodies 0 operands.left operands.right ∧
      ChainOfUses operands.left operands.right broken.stack difference.path := by
  obtain ⟨broken, rule, path, hbreaks⟩ := Operands.exists_breaks_of_compare hcompare
  have hverdict := hbreaks.compare_eq.2
  rw [hcompare, Except.ok.injEq, Verdict.different.injEq] at hverdict
  cases htrace : options.trace with
  | false => simp [htrace] at hverdict
  | true =>
      rw [htrace, if_pos rfl, Option.some.injEq] at hverdict
      subst hverdict
      exact ⟨broken, hbreaks, hbreaks.proper, hbreaks.hasBodies, hbreaks.uses.chain⟩

/-- The choice with another operation in front of it. -/
def Function.choiceOfAbs : Function :=
  { Function.choice with
    nodes := Function.choice.nodes.set 0 { opType := "Abs", inputs := ["x"], outputs := ["a"] } }

/-- The operations in front of two choices differ. The first branches of these are the first to use
them, from inside. -/
theorem compare_explains_choiceOfAbs :
    Function.choice.checkWellFormed = .ok () ∧ Function.choiceOfAbs.checkWellFormed = .ok () ∧
      Function.choice.compare .diagnostic Function.choiceOfAbs =
        .ok (.different (some ⟨.opType "Relu" "Abs",
          [.nodes 0 0 0 "Relu", .nodes 1 0 0 "Add", .subgraph "then_branch" 0,
            .nodes 0 1 1 "If"]⟩)) ∧
      ∃ broken : CompareState,
        ChainOfUses Function.choice.body Function.choiceOfAbs.body broken.stack
          [.nodes 0 0 0 "Relu", .nodes 1 0 0 "Add", .subgraph "then_branch" 0,
            .nodes 0 1 1 "If"] := by
  obtain ⟨broken, _, _, _, hchain⟩ := compare_explains .diagnostic
    (.functions Function.choice Function.choiceOfAbs)
    ⟨.opType "Relu" "Abs", [.nodes 0 0 0 "Relu", .nodes 1 0 0 "Add", .subgraph "then_branch" 0,
      .nodes 0 1 1 "If"]⟩ rfl
  exact ⟨rfl, rfl, rfl, broken, hchain⟩

end OpGraph
