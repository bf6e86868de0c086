/-!
What can be wrong with a JSON text.
-/

namespace OpGraph

/-- Why a JSON text cannot be read on. -/
inductive JsonFault where
  | endInValue
  | endInString
  | endInList
  | endInObject
  | valueExpected
  | wordExpected
  | colonExpected
  | listEndExpected
  | objectEndExpected
  | keyNotString
  | trailingComma
  | trailingCharacters
  | invalidNumber
  | numberOutOfRange
  | invalidEscape
  | controlCharacter
  | loneSurrogate
  | truncatedSurrogate
  | nestedTooDeep
  deriving DecidableEq

namespace JsonFault

/-- Whether the text ended too early, as opposed to going on wrongly. -/
def isEarlyEnd : JsonFault → Bool
  | .endInValue | .endInString | .endInList | .endInObject => true
  | _ => false

def message : JsonFault → String
  | .endInValue => "EOF while parsing a value"
  | .endInString => "EOF while parsing a string"
  | .endInList => "EOF while parsing a list"
  | .endInObject => "EOF while parsing an object"
  | .valueExpected => "expected value"
  | .wordExpected => "expected ident"
  | .colonExpected => "expected \x60:\x60"
  | .listEndExpected => "expected \x60,\x60 or \x60]\x60"
  | .objectEndExpected => "expected \x60,\x60 or \x60\x7d\x60"
  | .keyNotString => "key must be a string"
  | .trailingComma => "trailing comma"
  | .trailingCharacters => "trailing characters"
  | .invalidNumber => "invalid number"
  | .numberOutOfRange => "number out of range"
  | .invalidEscape => "invalid escape"
  | .controlCharacter => "control character (\\u0000-\\u001F) found while parsing a string"
  | .loneSurrogate => "lone leading surrogate in hex escape"
  | .truncatedSurrogate => "unexpected end of hex escape"
  | .nestedTooDeep => "recursion limit exceeded"

end JsonFault

end OpGraph
