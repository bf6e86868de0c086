import OpGraph.Compare.Difference

/-!
Comparison of attributes. Attributes are joined by name and compared by value; a reference equals a
reference to the same parameter of the same kind. Graphs are handed to a comparison given by the
caller, which may have effects of its own. Opaque payloads are never equal to anything.
-/

namespace OpGraph

/-- The difference of two values of different constructors. A reference has the kind of its
parameter, and differs in value from a value of this kind. -/
def kindDifference (name : String) (left right : AttributeValue) : AttributeDifference :=
  if left.kind = right.kind then .value name else .kind name left.kind right.kind

/-- The difference of two values that do not both hold graphs, none of them opaque. -/
def plainDifference? (name : String) (left right : AttributeValue) : Option AttributeDifference :=
  let valued (equal : Bool) : Option AttributeDifference :=
    if equal then none else some (.value name)
  match left, right with
  | .reference target kind, .reference target' kind' => valued (target == target' && kind == kind')
  | .int value, .int value' => valued (value == value')
  | .float value, .float value' => valued (value.numericEq value')
  | .string value, .string value' => valued (value == value')
  | .ints values, .ints values' => valued (values == values')
  | .floats values, .floats values' => valued (values.isEqv values' Binary.numericEq)
  | .strings values, .strings values' => valued (values == values')
  | _, _ => some (kindDifference name left right)

/-- The last attribute of a name. -/
def lastNamed? (attributes : List Attribute) (name : String) : Option Attribute :=
  attributes.reverse.find? (·.name == name)

variable {m : Type → Type} [Monad m]

/-- Compares the graphs of two lists in order; the first two have the given index. -/
def compareGraphs (graphsMatch : Graph → Graph → m Bool) (name : String) :
    Nat → List Graph → List Graph → m (Option AttributeDifference)
  | index, left :: lefts, right :: rights => do
      if ← graphsMatch left right then compareGraphs graphsMatch name (index + 1) lefts rights
      else return some (.subgraph name index)
  | _, _, _ => return none

/-- Compares two attributes that are joined by name. -/
def compareAttribute (graphsMatch : Graph → Graph → m Bool) (left right : Attribute) :
    m (Option AttributeDifference) :=
  if left.value.isOpaque then return some (.unsupported right.name left.value.kind)
  else if right.value.isOpaque then return some (.unsupported right.name right.value.kind)
  else match left.value, right.value with
    | .graph leftGraph, .graph rightGraph =>
        compareGraphs graphsMatch right.name 0 [leftGraph] [rightGraph]
    | .graphs lefts, .graphs rights =>
        if lefts.length = rights.length then compareGraphs graphsMatch right.name 0 lefts rights
        else return some (.graphCount right.name lefts.length rights.length)
    | leftValue, rightValue => return plainDifference? right.name leftValue rightValue

/-- Compares the attributes of a list, in its order, with those of the same name. -/
def compareNamed (graphsMatch : Graph → Graph → m Bool) (lefts : List Attribute) :
    List Attribute → m (Option AttributeDifference)
  | [] => return none
  | right :: rights =>
      match lastNamed? lefts right.name with
      | none => return some (.missing right.name)
      | some left => do
          match ← compareAttribute graphsMatch left right with
          | some difference => return some difference
          | none => compareNamed graphsMatch lefts rights

/-- Compares two lists of attributes as sets; gives the first difference in the order of the
second. -/
def compareAttributes (graphsMatch : Graph → Graph → m Bool) (lefts rights : List Attribute) :
    m (Option AttributeDifference) :=
  if lefts.length = rights.length then compareNamed graphsMatch lefts rights
  else return some (.count lefts.length rights.length)

end OpGraph
