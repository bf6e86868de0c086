import OpGraph.Text.Unprintable
import OpGraph.Text.Extender

/-!
Quoted text. A quoted string shows every character that could not be seen, or that would join the
character before it, by its code point.
-/

namespace OpGraph.Text

/-- The hexadecimal digits of a number, in lower case and without leading zeros. -/
def hexDigits (n : Nat) : List Char := Nat.toDigits 16 n

/-- How one character is written between the quotes. -/
def quoteChar (c : Char) : List Char :=
  match c with
  | '\x00' => ['\\', '0']
  | '\t' => ['\\', 't']
  | '\n' => ['\\', 'n']
  | '\r' => ['\\', 'r']
  | '"' => ['\\', '"']
  | '\\' => ['\\', '\\']
  | c =>
      if 0x20 ≤ c.toNat && c.toNat < 0x7f then [c]
      else if isExtender c || isUnprintable c then
        ['\\', 'u', '\x7b'] ++ hexDigits c.toNat ++ ['\x7d']
      else [c]

/-- The text between quotes. -/
def quote (text : String) : String :=
  String.ofList ('"' :: (text.toList.flatMap quoteChar ++ ['"']))

/-- Texts one after the other, with a separator between neighbours. -/
def joinWith (separator : String) (items : List String) : String :=
  separator.intercalate items

/-- A list in brackets. -/
def bracketed (items : List String) : String :=
  "[" ++ joinWith ", " items ++ "]"

end OpGraph.Text
