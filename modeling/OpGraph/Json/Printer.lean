import OpGraph.Number.Shortest
import OpGraph.Json.Basic
import OpGraph.Json.StringText

/-!
Written JSON: on one line, or with every item and member on a line of its own.
-/

namespace OpGraph

/-- Singles are written plainly from one millionth up to the order of ten to the twelfth. -/
def singleLayout : DecimalLayout := ⟨-6, 12, true, .toEven⟩

/-- Doubles are written plainly from one hundred-thousandth up to the order of ten to the
fifteenth. -/
def doubleLayout : DecimalLayout := ⟨-5, 15, true, .toEven⟩

/-- A number that is not finite is written as null. -/
def JsonNumber.chars : JsonNumber → List Char
  | .integer value => (toString value).toList
  | .double value => if value.isFinite then doubleLayout.chars value else ['n', 'u', 'l', 'l']
  | .single value => if value.isFinite then singleLayout.chars value else ['n', 'u', 'l', 'l']

namespace Json

def boolChars (value : Bool) : List Char :=
  if value then ['t', 'r', 'u', 'e'] else ['f', 'a', 'l', 's', 'e']

/-- A value on one line. -/
def compactChars : Json → List Char
  | .null => ['n', 'u', 'l', 'l']
  | .bool value => boolChars value
  | .number value => value.chars
  | .string value => JsonString.encode value
  | .array [] => ['[', ']']
  | .array (item :: items) => '[' :: (item.compactChars ++ itemChars items)
  | .object [] => ['\x7b', '\x7d']
  | .object ((key, value) :: members) =>
      '\x7b' :: (JsonString.encode key ++ ':' :: (value.compactChars ++ memberChars members))
where
  itemChars : List Json → List Char
    | [] => [']']
    | item :: items => ',' :: (item.compactChars ++ itemChars items)
  memberChars : List (String × Json) → List Char
    | [] => ['\x7d']
    | (key, value) :: members =>
        ',' :: (JsonString.encode key ++ ':' :: (value.compactChars ++ memberChars members))

/-- A new line at a depth of nesting, two blanks for each level. -/
def newLine (depth : Nat) : List Char := '\n' :: List.replicate (2 * depth) ' '

/-- A value on several lines, written at a depth of nesting. -/
def prettyChars (depth : Nat) : Json → List Char
  | .null => ['n', 'u', 'l', 'l']
  | .bool value => boolChars value
  | .number value => value.chars
  | .string value => JsonString.encode value
  | .array [] => ['[', ']']
  | .array (item :: items) =>
      '[' :: (newLine (depth + 1) ++ (item.prettyChars (depth + 1) ++ itemLines depth items))
  | .object [] => ['\x7b', '\x7d']
  | .object ((key, value) :: members) =>
      '\x7b' :: (newLine (depth + 1) ++ (JsonString.encode key ++
        ':' :: ' ' :: (value.prettyChars (depth + 1) ++ memberLines depth members)))
where
  itemLines (depth : Nat) : List Json → List Char
    | [] => newLine depth ++ [']']
    | item :: items =>
        ',' :: (newLine (depth + 1) ++ (item.prettyChars (depth + 1) ++ itemLines depth items))
  memberLines (depth : Nat) : List (String × Json) → List Char
    | [] => newLine depth ++ ['\x7d']
    | (key, value) :: members =>
        ',' :: (newLine (depth + 1) ++ (JsonString.encode key ++
          ':' :: ' ' :: (value.prettyChars (depth + 1) ++ memberLines depth members)))

def compact (value : Json) : String := String.ofList value.compactChars

def pretty (value : Json) : String := String.ofList (value.prettyChars 0)

end Json

end OpGraph
