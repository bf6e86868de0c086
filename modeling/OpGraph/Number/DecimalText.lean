import OpGraph.Number.Shortest

/-!
Reading a floating point number from its decimal text: an optional sign, then `inf`, `infinity` or
`nan` in any case, or digits with an optional point and an optional exponent. The number is the one
nearest to the exact decimal; only of an exponent far beyond every format the last digits are left
out.
-/

namespace OpGraph

namespace Binary

variable {format : BinaryFormat}

/-- The number nearest to a decimal. With `n` digits before the point the decimal lies between `10
^ (n - 1)` and `10 ^ n`; far outside the range of the format the comparison with powers of eight
already decides, so that no huge power is formed. -/
def ofDecimal (negative : Bool) (decimal : Decimal) : Binary format :=
  if decimal.coefficient = 0 then .zero negative else
    let places := decimal.exponent + (Nat.toDigits 10 decimal.coefficient).length
    if Int.pow 2 (format.exponentBits - 1) ≤ 3 * (places - 1) then .infinity negative
    else if 3 * places < format.leastExponent - 2 then .zero negative
    else
      .ofRatio negative (decimal.coefficient * Nat.pow 10 decimal.exponent.toNat)
        (Nat.pow 10 (-decimal.exponent).toNat)

end Binary

def digitValue (digit : Char) : Nat := digit.toNat - '0'.toNat

/-- The value of a row of decimal digits. -/
def digitsValue (digits : List Char) : Nat :=
  digits.foldl (fun value digit => 10 * value + digitValue digit) 0

/-- The value of the digits of an exponent. Once it is `2 ^ 16` or more, no further digit is taken
in. -/
def exponentValue (digits : List Char) : Nat :=
  digits.foldl
    (fun value digit => if value < Nat.pow 2 16 then 10 * value + digitValue digit else value) 0

namespace Decimal

/-- The exponent part of a decimal text: nothing, or `e` with a signed number after it. -/
def exponentPart? : List Char → Option Int
  | [] => some 0
  | mark :: rest =>
      if mark = 'e' || mark = 'E' then
        let (negative, digits) := match rest with
          | '-' :: digits => (true, digits)
          | '+' :: digits => (false, digits)
          | digits => (false, digits)
        if digits.isEmpty || !digits.all Char.isDigit then none
        else some (if negative then -exponentValue digits else exponentValue digits)
      else none

/-- Reads an unsigned decimal. -/
def ofChars? (chars : List Char) : Option Decimal :=
  let whole := chars.takeWhile Char.isDigit
  let (fraction, rest) := match chars.dropWhile Char.isDigit with
    | '.' :: rest => (rest.takeWhile Char.isDigit, rest.dropWhile Char.isDigit)
    | rest => ([], rest)
  if whole.isEmpty && fraction.isEmpty then none
  else (exponentPart? rest).map fun exponent =>
    ⟨digitsValue (whole ++ fraction), exponent - fraction.length⟩

end Decimal

namespace Binary

variable {format : BinaryFormat}

def ofUnsignedChars? (negative : Bool) (chars : List Char) : Option (Binary format) :=
  let word := String.ofList (chars.map Char.toLower)
  if word = "inf" || word = "infinity" then some (.infinity negative)
  else if word = "nan" then some .nan
  else (Decimal.ofChars? chars).map (.ofDecimal negative)

/-- Reads a signed number. -/
def ofText? (text : String) : Option (Binary format) :=
  match text.toList with
  | '-' :: chars => ofUnsignedChars? true chars
  | '+' :: chars => ofUnsignedChars? false chars
  | chars => ofUnsignedChars? false chars

end Binary

end OpGraph
