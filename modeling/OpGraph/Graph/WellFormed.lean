import OpGraph.Graph.Basic
import OpGraph.Text.Quoted

/-!
Well-formed graphs and functions. In every scope each name is defined at most once, and whatever is
used is defined in that scope or in one around it. The attributes of a node have different names, a
reference names a formal parameter of the function around it, and a function imports each domain
once.

A check goes through a body in order and reports the first violation that it meets.
-/

namespace OpGraph

/-- What uses a value: a node, or the list of outputs of a body. -/
inductive ValueUser where
  | node (index : Nat) (opType : String)
  | outputs
  deriving DecidableEq

/-- A violation of well-formedness. A scope is given by the labels of the graphs that lead to it,
the outermost first. -/
inductive Violation where
  | redefined (name : String) (scope : List String)
  | undefined (name : String) (user : ValueUser) (scope : List String)
  | repeatedAttribute (name : String) (user : ValueUser)
  | unboundReference (name target : String) (user : ValueUser)
  | repeatedImport (domain : String)
  deriving DecidableEq

def ValueUser.text : ValueUser → String
  | .node index opType => "#" ++ toString index ++ " (" ++ opType ++ ")"
  | .outputs => "<output>"

namespace Violation

def quoted (text : String) : String := "'" ++ text ++ "'"

def scopeText (scope : List String) : String := quoted (Text.joinWith "/" scope)

def message : Violation → String
  | .redefined name scope =>
      "Duplicate definition of value " ++ quoted name ++ " in scope " ++ scopeText scope
  | .undefined name user scope =>
      "Undefined value " ++ quoted name ++ " referenced by node " ++ user.text ++ " in scope " ++
        scopeText scope
  | .repeatedAttribute name user =>
      "Duplicate attribute " ++ quoted name ++ " on node " ++ user.text
  | .unboundReference name target user =>
      "Attribute " ++ quoted name ++ " of node " ++ user.text ++ " references unknown parameter " ++
        quoted target
  | .repeatedImport domain => "Duplicate opset import for domain " ++ quoted domain

end Violation

/-- The first of the names that is among those seen or stands before its place. -/
def firstRepeated? : List String → List String → Option String
  | _, [] => none
  | seen, name :: rest =>
      if seen.contains name then some name else firstRepeated? (name :: seen) rest

theorem firstRepeated?_eq_none_iff {seen names : List String} :
    firstRepeated? seen names = none ↔ names.Nodup ∧ ∀ name ∈ names, name ∉ seen := by
  induction names generalizing seen with
  | nil => simp [firstRepeated?]
  | cons name rest ih =>
      by_cases hname : name ∈ seen
      · simp [firstRepeated?, hname]
      · simp only [firstRepeated?, List.contains_iff_mem, hname, if_false, ih, List.nodup_cons,
          List.mem_cons, not_or]
        grind

/-- The names that a body defines, in order: its inputs and the outputs of its nodes. Omitted
values have no name and are not defined. -/
def Body.definedNames (body : Body) : List String :=
  (body.inputs ++ body.nodes.flatMap Node.outputs).filter (· != "")

/-- The label of a body that is not nested. -/
def rootLabel (name : String) : String := if name.isEmpty then "<anonymous>" else name

/-- The label of a graph in an attribute: its own name, or that of the attribute with its place. -/
def nestedLabel (attrName : String) (place : Nat) (name : String) : String :=
  if name.isEmpty then attrName ++ "[" ++ toString place ++ "]" else name

/-- What is in sight inside of a body: the formal parameters, if there is a function around it, and
the names defined in the scopes around it, the innermost first. -/
structure Surroundings where
  parameters : Option (List String)
  scopes : List (List String)

namespace Surroundings

def isVisible (around : Surroundings) (name : String) : Bool :=
  around.scopes.any (·.contains name)

def isParameter (around : Surroundings) (name : String) : Bool :=
  around.parameters.any (·.contains name)

def enter (around : Surroundings) (names : List String) : Surroundings :=
  { around with scopes := names :: around.scopes }

/-- Checks what a body defines, then its nodes with these definitions in sight, then its outputs.
-/
def checkBody (around : Surroundings) (scope : List String) (body : Body)
    (checkNodes : Surroundings → Except Violation Unit) : Except Violation Unit := do
  if let some name := firstRepeated? [] body.definedNames then
    throw (.redefined name scope)
  let inner := around.enter body.definedNames
  checkNodes inner
  if let some name := body.outputs.find? (!inner.isVisible ·) then
    throw (.undefined name .outputs scope)

/-- Checks that the inputs of a node are omitted or in sight. -/
def checkInputs (around : Surroundings) (scope : List String) (user : ValueUser)
    (inputs : List String) : Except Violation Unit := do
  if let some name := inputs.find? fun name => name != "" && !around.isVisible name then
    throw (.undefined name user scope)

mutual

def checkGraph (around : Surroundings) (scope : List String) : Graph → Except Violation Unit
  | { name := _, nodes, inputs, outputs, initializers := _, sparseInitializers := _ } =>
      around.checkBody scope ⟨nodes, inputs, outputs⟩ fun inner =>
        inner.checkNodes scope 0 nodes

/-- Checks nodes, the first of which has the given index. -/
def checkNodes (around : Surroundings) (scope : List String) (index : Nat) :
    List Node → Except Violation Unit
  | [] => .ok ()
  | { name := _, opType, domain := _, inputs, outputs := _, attributes } :: nodes => do
      let user := ValueUser.node index opType
      around.checkInputs scope user inputs
      around.checkAttributes scope user [] attributes
      around.checkNodes scope (index + 1) nodes

/-- Checks the attributes of a node, after those of the given names. -/
def checkAttributes (around : Surroundings) (scope : List String) (user : ValueUser)
    (seen : List String) : List Attribute → Except Violation Unit
  | [] => .ok ()
  | { name, value } :: rest => do
      if seen.contains name then throw (.repeatedAttribute name user)
      around.checkValue scope user name value
      around.checkAttributes scope user (name :: seen) rest

def checkValue (around : Surroundings) (scope : List String) (user : ValueUser)
    (attrName : String) : AttributeValue → Except Violation Unit
  | .reference target _ =>
      if around.isParameter target then .ok ()
      else .error (.unboundReference attrName target user)
  | .graph g => around.checkGraph (scope ++ [nestedLabel attrName 0 g.name]) g
  | .graphs gs => around.checkGraphs scope attrName 0 gs
  | _ => .ok ()

/-- Checks the graphs of an attribute, the first of which has the given place. -/
def checkGraphs (around : Surroundings) (scope : List String) (attrName : String) (place : Nat) :
    List Graph → Except Violation Unit
  | [] => .ok ()
  | g :: gs => do
      around.checkGraph (scope ++ [nestedLabel attrName place g.name]) g
      around.checkGraphs scope attrName (place + 1) gs

end

end Surroundings

/-- Checks a graph on its own. There is no function around it, so no reference is bound. -/
def Graph.checkWellFormed (graph : Graph) : Except Violation Unit :=
  Surroundings.checkGraph ⟨none, []⟩ [rootLabel graph.name] graph

def Function.checkWellFormed (function : Function) : Except Violation Unit := do
  if let some domain := firstRepeated? [] (function.opsetImports.map OpsetImport.domain) then
    throw (.repeatedImport domain)
  let scope := [rootLabel function.name]
  Surroundings.checkBody ⟨some function.parameters, []⟩ scope function.body fun inner =>
    inner.checkNodes scope 0 function.nodes

end OpGraph
