import OpGraph.Number.DecimalText
import OpGraph.Json.Basic
import OpGraph.Json.Fault

/-!
Numbers in a JSON text. An integer that fits into 64 bits is kept as it is. All other numbers are
doubles, made from a significand of at most 64 bits by one multiplication or by divisions with
powers of ten, so the last bit may differ from that of the nearest double.
-/

namespace OpGraph

namespace BinaryFormat

variable (format : BinaryFormat)

/-- The value of a finite rank as a numerator and a denominator. -/
def ratio (rank : Nat) : Nat × Nat :=
  let (significand, exponent) := format.expand rank
  (significand * Nat.pow 2 exponent.toNat, Nat.pow 2 (-exponent).toNat)

/-- The rank of the rounded product of two finite values. -/
def mulRank (rank rank' : Nat) : Nat :=
  let (num, den) := format.ratio rank
  let (num', den') := format.ratio rank'
  format.nearestRank (num * num') (den * den')

/-- The rank of the rounded quotient of two finite values. -/
def divRank (rank rank' : Nat) : Nat :=
  let (num, den) := format.ratio rank
  let (num', den') := format.ratio rank'
  format.nearestRank (num * den') (den * num')

end BinaryFormat

/-- The rank of the double nearest to a power of ten. -/
def tenPowerRank (exponent : Nat) : Nat := binary64.nearestRank (Nat.pow 10 exponent) 1

/-- The greatest power of ten that is a finite double. -/
def greatestTenPower : Nat := 308

/-- Divides by a power of ten, in as many steps as it takes. -/
def divideByTenPower : Nat → Nat → Nat → Nat
  | 0, rank, _ => rank
  | steps + 1, rank, exponent =>
      if exponent ≤ greatestTenPower then binary64.divRank rank (tenPowerRank exponent)
      else if rank = 0 then 0
      else divideByTenPower steps (binary64.divRank rank (tenPowerRank greatestTenPower))
        (exponent - greatestTenPower)

/-- The rank of `significand * 10 ^ exponent`, unless that is beyond the finite doubles. -/
def scaledRank? (significand : Nat) (exponent : Int) : Option Nat :=
  let rank := binary64.nearestRank significand 1
  if exponent < 0 then
    some (divideByTenPower (exponent.natAbs / greatestTenPower + 1) rank exponent.natAbs)
  else if exponent ≤ greatestTenPower then
    let product := binary64.mulRank rank (tenPowerRank exponent.toNat)
    if product < binary64.infinityRank then some product else none
  else if rank = 0 then some 0
  else none

/-- The parts of a number as they are written. -/
structure NumberToken where
  negative : Bool
  whole : List Char
  fraction : Option (List Char)
  exponent : Option (Bool × List Char)

/-- The digits that fit into a significand, and the power of ten by which it is multiplied. -/
structure Significand where
  value : Nat
  exponent : Int

namespace Significand

/-- Takes in the digits before the point. Those from the first that does not fit only count. -/
def addWhole (significand : Significand) : List Char → Significand
  | [] => significand
  | digit :: rest =>
      let next := 10 * significand.value + digitValue digit
      if next < Nat.pow 2 64 then addWhole { significand with value := next } rest
      else { significand with exponent := significand.exponent + (digit :: rest).length }

/-- Takes in the digits after the point, up to the first that does not fit. -/
def addFraction (significand : Significand) : List Char → Significand
  | [] => significand
  | digit :: rest =>
      let next := 10 * significand.value + digitValue digit
      if next < Nat.pow 2 64 then addFraction ⟨next, significand.exponent - 1⟩ rest
      else significand

end Significand

namespace NumberToken

def significand (token : NumberToken) : Significand :=
  let whole := Significand.addWhole ⟨0, 0⟩ token.whole
  whole.addFraction (token.fraction.getD [])

/-- The number as a double, unless it is out of range. -/
def double? (token : NumberToken) : Option Binary64 :=
  let significand := token.significand
  let exponent : Int := match token.exponent with
    | none => 0
    | some (negative, digits) =>
        if negative then -digitsValue digits else digitsValue digits
  let rank? :=
    if significand.value = 0 then some 0
    else if Int.pow 2 31 ≤ exponent then none
    else if exponent ≤ -Int.pow 2 31 then some 0
    else scaledRank? significand.value (significand.exponent + exponent)
  rank?.map fun rank => .ranked token.negative (Fin.ofNat _ rank)

/-- The value of a number, unless it is out of range. A negative zero is a double. -/
def value? (token : NumberToken) : Option JsonNumber :=
  let plain := token.fraction.isNone && token.exponent.isNone
  let whole := Significand.addWhole ⟨0, 0⟩ token.whole
  let magnitude := whole.value
  if plain && whole.exponent = 0 && !token.negative then some (.integer magnitude)
  else if plain && whole.exponent = 0 && 0 < magnitude && magnitude ≤ Nat.pow 2 63 then
    some (.integer (-magnitude))
  else token.double?.map .double

/-- Whether a text that ends in the middle of a number ended or went on wrongly. -/
inductive Stop where
  | early
  | wrong
  deriving DecidableEq

def Stop.ofRest : List Char → Stop
  | [] => .early
  | _ :: _ => .wrong

/-- The fault as it is reported when the number is read; when it is skipped the number is invalid
in both cases. -/
def Stop.fault : Stop → JsonFault
  | .early => .endInValue
  | .wrong => .invalidNumber

/-- The digits before the point: a zero, or digits that do not begin with one. -/
def scanWhole (chars : List Char) : Except Stop (List Char × List Char) :=
  match chars with
  | '0' :: rest =>
      match rest with
      | c :: _ => if c.isDigit then .error .wrong else .ok (['0'], rest)
      | [] => .ok (['0'], [])
  | _ =>
      let digits := chars.takeWhile Char.isDigit
      if digits.isEmpty then .error (.ofRest chars)
      else .ok (digits, chars.dropWhile Char.isDigit)

/-- At least one digit. -/
def scanDigits (chars : List Char) : Except Stop (List Char × List Char) :=
  let digits := chars.takeWhile Char.isDigit
  if digits.isEmpty then .error (.ofRest chars)
  else .ok (digits, chars.dropWhile Char.isDigit)

def scanFraction (chars : List Char) : Except Stop (Option (List Char) × List Char) :=
  match chars with
  | '.' :: rest => (scanDigits rest).map fun (digits, rest) => (some digits, rest)
  | _ => .ok (none, chars)

def scanExponent (chars : List Char) : Except Stop (Option (Bool × List Char) × List Char) :=
  match chars with
  | mark :: rest =>
      if mark = 'e' || mark = 'E' then
        let (negative, rest) := match rest with
          | '-' :: rest => (true, rest)
          | '+' :: rest => (false, rest)
          | rest => (false, rest)
        (scanDigits rest).map fun (digits, rest) => (some (negative, digits), rest)
      else .ok (none, chars)
  | [] => .ok (none, [])

/-- Scans an unsigned number. -/
def scanUnsigned (negative : Bool) (chars : List Char) : Except Stop (NumberToken × List Char) := do
  let (whole, rest) ← scanWhole chars
  let (fraction, rest) ← scanFraction rest
  let (exponent, rest) ← scanExponent rest
  return (⟨negative, whole, fraction, exponent⟩, rest)

/-- Scans the number at the front of a text. -/
def scan : List Char → Except Stop (NumberToken × List Char)
  | '-' :: rest => scanUnsigned true rest
  | chars => scanUnsigned false chars

end NumberToken

end OpGraph
