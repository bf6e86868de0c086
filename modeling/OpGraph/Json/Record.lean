import OpGraph.Json.Decoder

/-!
Decoders for records. A record is written as an object with a member for each field, in any order
and among members that do not matter, or as the list of its fields in the order of their
declaration.
-/

namespace OpGraph

/-- A field of a record: its name, whether it has to be there, and how it is put into the record.
-/
structure RecordField (α : Type) where
  name : String
  required : Bool
  put : Source → Reading → α → Except DecodeError α

namespace RecordField

variable {α β : Type}

def mandatory (name : String) (decode : Decoder β) (set : α → β → α) : RecordField α where
  name
  required := true
  put source reading record := (decode source reading).map (set record)

/-- A field that keeps the value of the blank record when it is left out. -/
def optional (name : String) (decode : Decoder β) (set : α → β → α) : RecordField α where
  name
  required := false
  put source reading record := (decode source reading).map (set record)

end RecordField

/-- What a record is made of. The title names it where something else is found. -/
structure RecordShape (α : Type) where
  title : String
  blank : α
  fields : List (RecordField α)

namespace RecordShape

variable {α : Type} (shape : RecordShape α)

def field? (name : String) : Option (RecordField α) :=
  shape.fields.find? (·.name == name)

/-- Puts the members into the record. Gives the record with the names of the fields that were
there. -/
def putMembers (source : Source) :
    List (Except JsonFault String × Reading) → List String → α →
      Except DecodeError (α × List String)
  | [], seen, record => .ok (record, seen)
  | (.error fault, _) :: _, _, _ => .error (.text fault)
  | (.ok name, reading) :: rest, seen, record =>
      match shape.field? name with
      | none => do
          raise? reading.skip?
          putMembers source rest seen record
      | some field =>
          if seen.contains name then .error (.data (.duplicateField name))
          else do putMembers source rest (name :: seen) (← field.put source reading record)

/-- The first field that has to be there and is not among those that were. -/
def missing? (seen : List String) : Option (RecordField α) :=
  shape.fields.find? fun field => field.required && !seen.contains field.name

/-- A record from the members of an object. -/
def ofMembers (source : Source) (members : List (Except JsonFault String × Reading))
    (stop : Option ObjectStop) : Except DecodeError α := do
  let (record, seen) ← shape.putMembers source members [] shape.blank
  raise? (stop.map ObjectStop.read)
  match shape.missing? seen with
  | some field => throw (.data (.missingField field.name))
  | none => return record

/-- How the number of fields is put in words. -/
def elements (count : Nat) : String :=
  if count = 1 then "1 element" else toString count ++ " elements"

/-- What the end of a list must be once all wanted items are taken: items left over, of so many in
all, and a missing bracket are faults. -/
def closeList (source : Source) (wanted total : Nat) (stop : Option ListStop) :
    Except DecodeError Unit :=
  if wanted < total then
    match source with
    | .text _ => .error (.text .trailingCharacters)
    | .value => .error (.data (.invalidLength total "fewer elements in array"))
    | .ahead => .error (.data (.invalidLength total (elements wanted ++ " in sequence")))
  else raise? (stop.map ListStop.close)

/-- Puts the items into the record, field by field. -/
def putItems (source : Source) (stop : Option ListStop) :
    List (RecordField α) → Nat → List Reading → α → Except DecodeError α
  | [], _, _, record => .ok record
  | field :: fields, place, [], record => do
      raise? (stop.map ListStop.read)
      if field.required then
        throw (.data (.invalidLength place
          (shape.title ++ " with " ++ elements shape.fields.length)))
      putItems source stop fields (place + 1) [] record
  | field :: fields, place, reading :: rest, record => do
      putItems source stop fields (place + 1) rest (← field.put source reading record)

/-- A record from the items of a list. -/
def ofItems (source : Source) (readings : List Reading) (stop : Option ListStop) :
    Except DecodeError α := do
  let record ← shape.putItems source stop shape.fields 0 readings shape.blank
  closeList source shape.fields.length readings.length stop
  return record

def decode : Decoder α
  | source, .array readings stop => do shape.ofItems (← source.enter) readings stop
  | source, .object members stop => do shape.ofMembers (← source.enter) members stop
  | _, reading => .error (reading.mismatch shape.title)

end RecordShape

end OpGraph
