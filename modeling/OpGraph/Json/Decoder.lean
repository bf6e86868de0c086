import OpGraph.Text.Quoted
import OpGraph.Json.Printer
import OpGraph.Json.Reading

/-!
Decoders from readings. A decoder goes through a reading in the order of the text, so of several
faults the first one in the text is reported, whether the text or the data is at fault there.
-/

namespace OpGraph

/-- What stands where something else is expected. -/
inductive Found where
  | null
  | bool (value : Bool)
  | integer (value : Int)
  | float (value : Binary64)
  | string (value : String)
  | sequence
  | map

/-- How data can fail to be what is decoded. -/
inductive DataFault where
  | invalidType (found : Found) (expected : String)
  | invalidValue (found : Found) (expected : String)
  | invalidLength (length : Nat) (expected : String)
  | missingField (name : String)
  | duplicateField (name : String)
  | unknownVariant (name : String) (known : List String)

inductive DecodeError where
  | text (fault : JsonFault)
  | data (fault : DataFault)

def Found.message : Found → String
  | .null => "null"
  | .bool value => "boolean \x60" ++ (if value then "true" else "false") ++ "\x60"
  | .integer value => "integer \x60" ++ toString value ++ "\x60"
  | .float value => "floating point \x60" ++ doubleLayout.text value ++ "\x60"
  | .string value => "string " ++ Text.quote value
  | .sequence => "sequence"
  | .map => "map"

namespace DataFault

def ticked (name : String) : String := "\x60" ++ name ++ "\x60"

def message : DataFault → String
  | .invalidType found expected => "invalid type: " ++ found.message ++ ", expected " ++ expected
  | .invalidValue found expected => "invalid value: " ++ found.message ++ ", expected " ++ expected
  | .invalidLength length expected =>
      "invalid length " ++ toString length ++ ", expected " ++ expected
  | .missingField name => "missing field " ++ ticked name
  | .duplicateField name => "duplicate field " ++ ticked name
  | .unknownVariant name known =>
      "unknown variant " ++ ticked name ++ ", expected one of " ++
        Text.joinWith ", " (known.map ticked)

end DataFault

namespace DecodeError

def message (error : DecodeError) : String :=
  "Serialization error: " ++
    match error with
    | .text fault => fault.message
    | .data fault => fault.message

/-- The class of an error: the data, or a text that ends too early or goes on wrongly. -/
inductive Category where
  | data
  | malformed
  | early
  deriving DecidableEq

def category : DecodeError → Category
  | .data _ => .data
  | .text fault => if fault.isEarlyEnd then .early else .malformed

end DecodeError

/-- Where a reading comes from: a text, with the number of levels that may still be entered; a
value at hand; or a part of a text that was read ahead of its turn. -/
inductive Source where
  | text (levels : Nat)
  | value
  | ahead
  deriving DecidableEq

/-- The source of the items of a list or the members of an object. -/
def Source.enter : Source → Except DecodeError Source
  | .text 0 => .error (.text .nestedTooDeep)
  | .text (levels + 1) => .ok (.text levels)
  | .value => .ok .value
  | .ahead => .ok .ahead

abbrev Decoder (α : Type) : Type := Source → Reading → Except DecodeError α

/-- The error of a reading that is not of the expected type. -/
def Reading.mismatch (expected : String) : Reading → DecodeError
  | .null => .data (.invalidType .null expected)
  | .bool value => .data (.invalidType (.bool value) expected)
  | .number (.integer value) => .data (.invalidType (.integer value) expected)
  | .number (.double value) => .data (.invalidType (.float value) expected)
  | .number (.single value) => .data (.invalidType (.float (value.convert binary64)) expected)
  | .string value => .data (.invalidType (.string value) expected)
  | .array .. => .data (.invalidType .sequence expected)
  | .object .. => .data (.invalidType .map expected)
  | .faulty _ read _ => .text read

/-- Raises a fault if there is one. -/
def raise? : Option JsonFault → Except DecodeError Unit
  | none => .ok ()
  | some fault => .error (.text fault)

namespace Decoder

def string : Decoder String
  | _, .string value => .ok value
  | _, reading => .error (reading.mismatch "a string")

def bool : Decoder Bool
  | _, .bool value => .ok value
  | _, reading => .error (reading.mismatch "a boolean")

/-- An integer between two bounds; the name tells which integers these are. -/
def integer (low high : Int) (name : String) : Decoder Int
  | _, .number (.integer value) =>
      if low ≤ value && value ≤ high then .ok value
      else .error (.data (.invalidValue (.integer value) name))
  | _, reading => .error (reading.mismatch name)

def int64 : Decoder Int64 := fun source reading =>
  (integer (-Int.pow 2 63) (Int.pow 2 63 - 1) "i64" source reading).map Int64.ofInt

def int32 : Decoder Int32 := fun source reading =>
  (integer (-Int.pow 2 31) (Int.pow 2 31 - 1) "i32" source reading).map Int32.ofInt

def byte : Decoder UInt8 := fun source reading =>
  (integer 0 (Int.pow 2 8 - 1) "u8" source reading).map fun value => UInt8.ofNat value.toNat

def size : Decoder Nat := fun source reading =>
  (integer 0 (Int.pow 2 64 - 1) "usize" source reading).map Int.toNat

/-- A single; other numbers are rounded to the nearest one. -/
def single : Decoder Binary32
  | _, .number (.integer value) => .ok (.ofInt value)
  | _, .number (.double value) => .ok (value.convert binary32)
  | _, .number (.single value) => .ok value
  | _, reading => .error (reading.mismatch "f32")

def unit : Decoder Unit
  | _, .null => .ok ()
  | .ahead, .object [] none => .ok ()
  | _, reading => .error (reading.mismatch "unit")

/-- Decodes the items one after the other. -/
def items {α : Type} (item : Decoder α) (source : Source) :
    List Reading → Except DecodeError (List α)
  | [] => .ok []
  | reading :: rest => do
      let value ← item source reading
      return value :: (← items item source rest)

def list {α : Type} (item : Decoder α) : Decoder (List α)
  | source, .array readings stop => do
      let values ← items item (← source.enter) readings
      raise? (stop.map ListStop.read)
      return values
  | _, reading => .error (reading.mismatch "a sequence")

/-- The choice that a word names. -/
def choice {α : Type} (choices : List (String × α)) (word : String) : Except DecodeError α :=
  match choices.lookup word with
  | some value => .ok value
  | none => .error (.data (.unknownVariant word (choices.map (·.1))))

/-- A word that stands for a choice. Read ahead, a place in the list of choices will also do. -/
def identifier {α : Type} (choices : List (String × α)) : Decoder α
  | _, .string word => choice choices word
  | .ahead, .number (.integer (.ofNat place)) =>
      match choices[place]? with
      | some (_, value) => .ok value
      | none =>
          .error (.data (.invalidValue (.integer place)
            ("variant index 0 <= i < " ++ toString choices.length)))
  | _, reading => .error (reading.mismatch "variant identifier")

/-- A choice in a text: its word, or an object with the word as its key and null as the value. -/
def choiceInText {α : Type} (choices : List (String × α)) (levels : Nat) :
    Reading → Except DecodeError α
  | .string word => choice choices word
  | .object members stop => do
      let source ← (Source.text levels).enter
      match members, stop with
      | (.error fault, _) :: _, _ => throw (.text fault)
      | (.ok word, value) :: rest, stop => do
          let chosen ← choice choices word
          unit source value
          match rest, stop with
          | [], none => return chosen
          | [], some .early => throw (.text .endInObject)
          | _, _ => throw (.text .valueExpected)
      | [], some stop => throw (.text stop.read)
      | [], none => throw (.text .valueExpected)
  | .faulty .absent read _ => throw (.text read)
  | .faulty .text read _ => throw (.text read)
  | _ => throw (.text .valueExpected)

/-- A choice in a value: its word, or an object with the word as its only key and null as the
value. -/
def choiceInValue {α : Type} (choices : List (String × α)) (source : Source) :
    Reading → Except DecodeError α
  | .string word => choice choices word
  | .object [(.ok word, value)] _ => do
      let chosen ← choice choices word
      unit source value
      return chosen
  | .object .. => throw (.data (.invalidValue .map "map with a single key"))
  | reading => throw (reading.mismatch "string or map")

def oneOf {α : Type} (choices : List (String × α)) : Decoder α
  | .text levels, reading => choiceInText choices levels reading
  | source, reading => choiceInValue choices source reading

end Decoder

end OpGraph
