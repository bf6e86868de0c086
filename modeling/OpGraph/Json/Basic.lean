import OpGraph.Number.Binary

/-!
JSON values. Objects are lists of members: their order is kept, and a key may be repeated.
-/

namespace OpGraph

/-- A JSON number. Numbers that are read are integers or doubles; a value that is written may also
hold a single, which is written with the digits of that format. -/
inductive JsonNumber where
  | integer (value : Int)
  | double (value : Binary64)
  | single (value : Binary32)
  deriving DecidableEq

inductive Json where
  | null
  | bool (value : Bool)
  | number (value : JsonNumber)
  | string (value : String)
  | array (items : List Json)
  | object (members : List (String × Json))

instance : Inhabited Json := ⟨.null⟩

namespace Json

def int (value : Int) : Json := .number (.integer value)

def nat (value : Nat) : Json := .int value

/-- The value of the first member of a name. -/
def member? (name : String) : Json → Option Json
  | .object members => members.lookup name
  | _ => none

/-- Each key once, where it came first, with the value that it had last. -/
def lastOfEach : List (String × Json) → List (String × Json)
  | [] => []
  | (key, value) :: rest =>
      let last := ((rest.filter fun member => member.1 == key).getLast?.map (·.2)).getD value
      (key, last) :: (lastOfEach rest).filter fun member => member.1 != key

/-- The value in which no object repeats a key. -/
def distinctKeys : Json → Json
  | .array items => .array (itemsDistinct items)
  | .object members => .object (lastOfEach (membersDistinct members))
  | value => value
where
  itemsDistinct : List Json → List Json
    | [] => []
    | item :: items => item.distinctKeys :: itemsDistinct items
  membersDistinct : List (String × Json) → List (String × Json)
    | [] => []
    | (key, value) :: members => (key, value.distinctKeys) :: membersDistinct members

end Json

end OpGraph
