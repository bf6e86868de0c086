/-!
Binary floating point numbers as signed ranks. The values of a format that are not below zero are
counted upwards from zero: zero has rank 0, the least subnormal rank 1, and infinity the last rank.
Rounding is then a statement about quotients of natural numbers, and two numbers compare as their
ranks do.
-/

namespace OpGraph

/-- The sizes of the fields of an interchange format. -/
structure BinaryFormat where
  fractionBits : Nat
  exponentBits : Nat
  deriving DecidableEq

/-- The rank of infinity: one more than the number of positive finite values. -/
def BinaryFormat.infinityRank (format : BinaryFormat) : Nat :=
  (Nat.pow 2 format.exponentBits - 1) * Nat.pow 2 format.fractionBits

/-- The exponent of the unit in which subnormal values are counted. -/
def BinaryFormat.leastExponent (format : BinaryFormat) : Int :=
  2 - Int.pow 2 (format.exponentBits - 1) - format.fractionBits

/-- A floating point number of a format. All payloads of a NaN are one value. -/
inductive Binary (format : BinaryFormat) where
  | nan
  | ranked (negative : Bool) (rank : Fin (format.infinityRank + 1))
  deriving DecidableEq

abbrev binary32 : BinaryFormat := ⟨23, 8⟩

abbrev binary64 : BinaryFormat := ⟨52, 11⟩

abbrev Binary32 : Type := Binary binary32

abbrev Binary64 : Type := Binary binary64

/-- `num / den` to the nearest natural number, a half going to the even neighbour. -/
def roundDivEven (num den : Nat) : Nat :=
  let quotient := num / den
  let remainder := num % den
  if 2 * remainder < den then quotient
  else if den < 2 * remainder then quotient + 1
  else quotient + quotient % 2

/-- The exponent of the greatest power of two that is at most `num / den`. -/
def floorLog2 (num den : Nat) : Int :=
  let estimate : Int := num.log2 - den.log2
  if den * Nat.pow 2 estimate.toNat ≤ num * Nat.pow 2 (-estimate).toNat then estimate else estimate - 1

namespace BinaryFormat

variable (format : BinaryFormat)

/-- The rank of the value nearest to `num / den`. The unit is fixed by the magnitude, but never
goes below that of the subnormal values; a significand that rounds up to the next power of two
carries into the next binade by itself, because ranks are consecutive. -/
def nearestRank (num den : Nat) : Nat :=
  if num = 0 then 0 else
    let unit := max format.leastExponent (floorLog2 num den - format.fractionBits)
    (unit - format.leastExponent).toNat * Nat.pow 2 format.fractionBits +
      roundDivEven (num * Nat.pow 2 (-unit).toNat) (den * Nat.pow 2 unit.toNat)

/-- The significand and exponent of the value of a finite rank: the value is `significand * 2 ^
exponent`. -/
def expand (rank : Nat) : Nat × Int :=
  let binade := rank / Nat.pow 2 format.fractionBits
  let fraction := rank % Nat.pow 2 format.fractionBits
  if binade = 0 then (fraction, format.leastExponent)
  else (fraction + Nat.pow 2 format.fractionBits, format.leastExponent + binade - 1)

end BinaryFormat

namespace Binary

variable {format : BinaryFormat}

/-- The number of the given sign nearest to `num / den`; what lies too far out is infinity. -/
def ofRatio (negative : Bool) (num den : Nat) : Binary format :=
  .ranked negative ⟨min (format.nearestRank num den) format.infinityRank, by omega⟩

def zero (negative : Bool) : Binary format := .ranked negative 0

def infinity (negative : Bool) : Binary format := .ranked negative (Fin.last format.infinityRank)

/-- The number nearest to an integer. -/
def ofInt (value : Int) : Binary format :=
  ofRatio (value < 0) value.natAbs 1

def isNaN : Binary format → Bool
  | .nan => true
  | .ranked .. => false

def isFinite : Binary format → Bool
  | .nan => false
  | .ranked _ rank => rank.val < format.infinityRank

/-- Numeric equality: a NaN differs from everything, and the two zeros are equal. -/
def numericEq : Binary format → Binary format → Bool
  | .ranked negative rank, .ranked negative' rank' =>
      rank == rank' && (negative == negative' || rank.val == 0)
  | _, _ => false

/-- The nearest number of another format, with the sign kept. -/
def convert (target : BinaryFormat) : Binary format → Binary target
  | .nan => .nan
  | .ranked negative rank =>
      if rank.val = format.infinityRank then .infinity negative
      else
        let (significand, exponent) := format.expand rank
        .ofRatio negative (significand * Nat.pow 2 exponent.toNat) (Nat.pow 2 (-exponent).toNat)

end Binary

end OpGraph
