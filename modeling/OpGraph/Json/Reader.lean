import OpGraph.Json.NumberText
import OpGraph.Json.StringText
import OpGraph.Json.Reading

/-!
From a text to its reading. Every function gives what it read together with the text that is left,
or no text if the text is given up there.
-/

namespace OpGraph

/-- The reading of a text, and whether anything but blanks follows the value. -/
structure Document where
  root : Reading
  trailing : Bool

namespace Reading

def isBlank (c : Char) : Bool := c = ' ' || c = '\n' || c = '\t' || c = '\r'

def skipBlanks (chars : List Char) : List Char := chars.dropWhile isBlank

/-- A place where a value is expected and nothing can be read. -/
def absent (fault : JsonFault) : Reading × Option (List Char) :=
  (.faulty .absent fault (some fault), none)

/-- The rest of a word whose first letter has been seen. -/
def matchWord : List Char → List Char → Except JsonFault (List Char)
  | [], rest => .ok rest
  | _ :: _, [] => .error .endInValue
  | letter :: word, c :: rest => if c = letter then matchWord word rest else .error .wordExpected

def readWord (value : Reading) (word rest : List Char) : Reading × Option (List Char) :=
  match matchWord word rest with
  | .ok rest => (value, some rest)
  | .error fault => (.faulty .word fault (some fault), none)

def readNumber (chars : List Char) : Reading × Option (List Char) :=
  match NumberToken.scan chars with
  | .error stop => (.faulty .word stop.fault (some .invalidNumber), none)
  | .ok (token, rest) =>
      match token.value? with
      | some value => (.number value, some rest)
      | none => (.faulty .word .numberOutOfRange none, some rest)

/-- A string after its opening quote. -/
def readString (limit : Nat) (chars : List Char) : Reading × Option (List Char) :=
  match JsonString.read limit chars with
  | .ok (text, rest) => (.string text, some rest)
  | .error fault =>
      match JsonString.skipUpTo limit chars with
      | .ok rest => (.faulty .text fault none, some rest)
      | .error skip => (.faulty .text fault (some skip), none)

/-- A leaf, from its first character on. -/
def readLeaf (limit : Nat) (chars : List Char) : Reading × Option (List Char) :=
  match chars with
  | [] => absent .endInValue
  | 'n' :: rest => readWord .null ['u', 'l', 'l'] rest
  | 't' :: rest => readWord (.bool true) ['r', 'u', 'e'] rest
  | 'f' :: rest => readWord (.bool false) ['a', 'l', 's', 'e'] rest
  | '"' :: rest => readString limit rest
  | c :: _ => if c = '-' || c.isDigit then readNumber chars else absent .valueExpected

mutual

/-- A value, from the blanks before it on. Twice the length of the text bounds the steps, as every
value takes up a character, and so does the comma or the bracket after it. -/
def readValue : Nat → List Char → Reading × Option (List Char)
  | 0, _ => absent .endInValue
  | steps + 1, chars =>
      match skipBlanks chars with
      | '[' :: rest =>
          match skipBlanks rest with
          | [] => (.array [] (some .early), none)
          | ']' :: rest => (.array [] none, some rest)
          | rest =>
              let (items, stop, rest) := readItems steps rest
              (.array items stop, rest)
      | '\x7b' :: rest =>
          match skipBlanks rest with
          | [] => (.object [] (some .early), none)
          | '\x7d' :: rest => (.object [] none, some rest)
          | rest =>
              let (members, stop, rest) := readMembers steps rest
              (.object members stop, rest)
      | rest => readLeaf steps rest

/-- The items of a list, from the first one on. -/
def readItems : Nat → List Char → List Reading × Option ListStop × Option (List Char)
  | 0, _ => ([], some .early, none)
  | steps + 1, chars =>
      let (item, rest) := readValue steps chars
      match rest with
      | none => ([item], none, none)
      | some rest =>
          match skipBlanks rest with
          | [] => ([item], some .early, none)
          | ']' :: rest => ([item], none, some rest)
          | ',' :: rest =>
              match skipBlanks rest with
              | [] => ([item], some .earlyAfterComma, none)
              | ']' :: _ => ([item], some .bracketAfterComma, none)
              | rest =>
                  let (items, stop, rest) := readItems steps rest
                  (item :: items, stop, rest)
          | _ => ([item], some .otherCharacter, none)

/-- The members of an object, from the first key on. -/
def readMembers : Nat → List Char →
    List (Except JsonFault String × Reading) × Option ObjectStop × Option (List Char)
  | 0, _ => ([], some .early, none)
  | steps + 1, chars =>
      match chars with
      | '"' :: rest =>
          match JsonString.read steps rest, JsonString.skipUpTo steps rest with
          | .error read, .error skip => ([], some (.brokenKey read skip), none)
          | .ok (key, rest), _ => readMember steps (.ok key) rest
          | .error fault, .ok rest => readMember steps (.error fault) rest
      | _ => ([], some .notKey, none)

/-- A member after its key, and the members that follow it. -/
def readMember : Nat → Except JsonFault String → List Char →
    List (Except JsonFault String × Reading) × Option ObjectStop × Option (List Char)
  | 0, _, _ => ([], some .early, none)
  | steps + 1, key, chars =>
      let (value, rest) := match skipBlanks chars with
        | [] => absent .endInObject
        | ':' :: rest => readValue steps rest
        | _ => absent .colonExpected
      match rest with
      | none => ([(key, value)], none, none)
      | some rest =>
          match skipBlanks rest with
          | [] => ([(key, value)], some .early, none)
          | '\x7d' :: rest => ([(key, value)], none, some rest)
          | ',' :: rest =>
              match skipBlanks rest with
              | [] => ([(key, value)], some .earlyAfterComma, none)
              | '\x7d' :: _ => ([(key, value)], some .braceAfterComma, none)
              | rest =>
                  let (members, stop, rest) := readMembers steps rest
                  ((key, value) :: members, stop, rest)
          | _ => ([(key, value)], some .otherCharacter, none)

end

end Reading

namespace Document

def ofChars (chars : List Char) : Document :=
  let (root, rest) := Reading.readValue (2 * chars.length + 2) chars
  ⟨root, !(Reading.skipBlanks (rest.getD [])).isEmpty⟩

def ofText (text : String) : Document := ofChars text.toList

/-- The value of a text without faults. -/
def value? (document : Document) : Option Json :=
  if document.trailing then none else document.root.value?

end Document

/-- The value of a text; of a repeated key the last value counts. -/
def Json.ofText? (text : String) : Option Json :=
  (Document.ofText text).value?.map Json.distinctKeys

end OpGraph
