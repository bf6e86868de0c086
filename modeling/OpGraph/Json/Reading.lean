import OpGraph.Json.Basic
import OpGraph.Json.Fault

/-!
What can be read of a JSON text. A reading has the shape of a value, and shows in its place every
fault that stops the text from being one. Whether a fault matters, and which one is met first, is
then a question to those who use the reading: a member that nobody asks for is skipped, and
skipping overlooks what reading would not.
-/

namespace OpGraph

/-- Why a list ends without its bracket. -/
inductive ListStop where
  | early
  | otherCharacter
  | bracketAfterComma
  | earlyAfterComma
  deriving DecidableEq

/-- What stands where a value is expected and is not one. -/
inductive LeafShape where
  | absent
  | word
  | text
  deriving DecidableEq

/-- Why an object ends without its brace. -/
inductive ObjectStop where
  | early
  | otherCharacter
  | braceAfterComma
  | earlyAfterComma
  /-- Something else where a key is expected. -/
  | notKey
  /-- A key that cannot be skipped. -/
  | brokenKey (read : JsonFault) (skip : JsonFault)
  deriving DecidableEq

inductive Reading where
  | null
  | bool (value : Bool)
  | number (value : JsonNumber)
  | string (value : String)
  | array (items : List Reading) (stop : Option ListStop)
  | object (members : List (Except JsonFault String × Reading)) (stop : Option ObjectStop)
  /-- A leaf that cannot be read. When it can be skipped the text goes on after it, otherwise the
  text is given up here. -/
  | faulty (shape : LeafShape) (read : JsonFault) (skip : Option JsonFault)

instance : Inhabited Reading := ⟨.null⟩

namespace ListStop

/-- The fault met by one who reads the items. -/
def read : ListStop → JsonFault
  | .early => .endInList
  | .otherCharacter => .listEndExpected
  | .bracketAfterComma => .trailingComma
  | .earlyAfterComma => .endInValue

/-- The fault met by one who skips the list. -/
def skip : ListStop → JsonFault
  | .early => .endInList
  | .otherCharacter => .listEndExpected
  | .bracketAfterComma => .valueExpected
  | .earlyAfterComma => .endInValue

/-- The fault met by one who has all the items that are wanted, and now expects the bracket. -/
def close : ListStop → JsonFault
  | .early => .endInList
  | .bracketAfterComma => .trailingComma
  | .otherCharacter | .earlyAfterComma => .trailingCharacters

end ListStop

namespace ObjectStop

/-- The fault met by one who reads the members. -/
def read : ObjectStop → JsonFault
  | .early => .endInObject
  | .otherCharacter => .objectEndExpected
  | .braceAfterComma => .trailingComma
  | .earlyAfterComma => .endInValue
  | .notKey => .keyNotString
  | .brokenKey read _ => read

/-- The fault met by one who skips the object. -/
def skip : ObjectStop → JsonFault
  | .early => .endInObject
  | .otherCharacter => .objectEndExpected
  | .braceAfterComma => .keyNotString
  | .earlyAfterComma => .endInObject
  | .notKey => .keyNotString
  | .brokenKey _ skip => skip

end ObjectStop

namespace Reading

/-- How deeply lists and objects are nested. -/
def height : Reading → Nat
  | .array items _ => itemsHeight items + 1
  | .object members _ => membersHeight members + 1
  | _ => 0
where
  itemsHeight : List Reading → Nat
    | [] => 0
    | item :: items => max item.height (itemsHeight items)
  membersHeight : List (Except JsonFault String × Reading) → Nat
    | [] => 0
    | (_, value) :: members => max value.height (membersHeight members)

/-- The first fault met by one who skips this. -/
def skip? : Reading → Option JsonFault
  | .array items stop => itemsSkip? items <|> stop.map ListStop.skip
  | .object members stop => membersSkip? members <|> stop.map ObjectStop.skip
  | .faulty _ _ skip => skip
  | _ => none
where
  itemsSkip? : List Reading → Option JsonFault
    | [] => none
    | item :: items => item.skip? <|> itemsSkip? items
  membersSkip? : List (Except JsonFault String × Reading) → Option JsonFault
    | [] => none
    | (_, value) :: members => value.skip? <|> membersSkip? members

/-- The first fault met by one who reads all of this, through so many levels at most. -/
def fault? (levels : Nat) : Reading → Option JsonFault
  | .array items stop =>
      match levels with
      | 0 => some .nestedTooDeep
      | levels + 1 => itemsFault? levels items <|> stop.map ListStop.read
  | .object members stop =>
      match levels with
      | 0 => some .nestedTooDeep
      | levels + 1 => membersFault? levels members <|> stop.map ObjectStop.read
  | .faulty _ read _ => some read
  | _ => none
where
  itemsFault? (levels : Nat) : List Reading → Option JsonFault
    | [] => none
    | item :: items => item.fault? levels <|> itemsFault? levels items
  membersFault? (levels : Nat) : List (Except JsonFault String × Reading) → Option JsonFault
    | [] => none
    | (.error fault, _) :: _ => some fault
    | (.ok _, value) :: members => value.fault? levels <|> membersFault? levels members

end Reading

/-- The reading of a value: no fault in it. -/
def Json.reading : Json → Reading
  | .null => .null
  | .bool value => .bool value
  | .number value => .number value
  | .string value => .string value
  | .array items => .array (itemReadings items) none
  | .object members => .object (memberReadings members) none
where
  itemReadings : List Json → List Reading
    | [] => []
    | item :: items => item.reading :: itemReadings items
  memberReadings : List (String × Json) → List (Except JsonFault String × Reading)
    | [] => []
    | (key, value) :: members => (.ok key, value.reading) :: memberReadings members

/-- The value that is read when nothing is wrong. -/
def Reading.value? : Reading → Option Json
  | .null => some .null
  | .bool value => some (.bool value)
  | .number value => some (.number value)
  | .string value => some (.string value)
  | .array items none => (itemValues? items).map .array
  | .object members none => (memberValues? members).map .object
  | _ => none
where
  itemValues? : List Reading → Option (List Json)
    | [] => some []
    | item :: items => do return (← item.value?) :: (← itemValues? items)
  memberValues? : List (Except JsonFault String × Reading) → Option (List (String × Json))
    | [] => some []
    | (.ok key, value) :: members => do return (key, ← value.value?) :: (← memberValues? members)
    | (.error _, _) :: _ => none

mutual

theorem Json.value?_reading : (value : Json) → value.reading.value? = some value
  | .null | .bool _ | .number _ | .string _ => rfl
  | .array items => by simp [Json.reading, Reading.value?, Json.itemValues?_readings items]
  | .object members => by simp [Json.reading, Reading.value?, Json.memberValues?_readings members]

theorem Json.itemValues?_readings : (items : List Json) →
    Reading.value?.itemValues? (Json.reading.itemReadings items) = some items
  | [] => rfl
  | item :: items => by
      simp [Json.reading.itemReadings, Reading.value?.itemValues?, Json.value?_reading item,
        Json.itemValues?_readings items]

theorem Json.memberValues?_readings : (members : List (String × Json)) →
    Reading.value?.memberValues? (Json.reading.memberReadings members) = some members
  | [] => rfl
  | (_, value) :: members => by
      simp [Json.reading.memberReadings, Reading.value?.memberValues?, Json.value?_reading value,
        Json.memberValues?_readings members]

end

mutual

theorem Json.skip?_reading : (value : Json) → value.reading.skip? = none
  | .null | .bool _ | .number _ | .string _ => rfl
  | .array items => by simp [Json.reading, Reading.skip?, Json.itemsSkip?_readings items]
  | .object members => by simp [Json.reading, Reading.skip?, Json.membersSkip?_readings members]

theorem Json.itemsSkip?_readings : (items : List Json) →
    Reading.skip?.itemsSkip? (Json.reading.itemReadings items) = none
  | [] => rfl
  | item :: items => by
      simp [Json.reading.itemReadings, Reading.skip?.itemsSkip?, Json.skip?_reading item,
        Json.itemsSkip?_readings items]

theorem Json.membersSkip?_readings : (members : List (String × Json)) →
    Reading.skip?.membersSkip? (Json.reading.memberReadings members) = none
  | [] => rfl
  | (_, value) :: members => by
      simp [Json.reading.memberReadings, Reading.skip?.membersSkip?, Json.skip?_reading value,
        Json.membersSkip?_readings members]

end

end OpGraph
