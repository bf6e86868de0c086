import OpGraph.Number.Binary

/-!
The shortest decimal text of a binary number. The reals that round to a positive finite number form
an interval around it, closed when the significand is even. Among the grids of the multiples of `10
^ p` the coarsest one that meets this interval fixes how many digits are written, and of the two
multiples next to the number the nearer one gives the digits.
-/

namespace OpGraph

/-- The number `coefficient * 10 ^ exponent`. -/
structure Decimal where
  coefficient : Nat
  exponent : Int
  deriving DecidableEq

/-- Which of two equally near multiples is taken. -/
inductive TieRule where
  | toEven
  | upward
  deriving DecidableEq

/-- The reals that round to one number, in units of `2 ^ exponent`. -/
structure RoundingInterval where
  low : Nat
  centre : Nat
  high : Nat
  exponent : Int
  closed : Bool

/-- The interval of a positive finite rank, in quarters of the unit of its significand. The lower
half is narrower where a binade begins, since the units below are half as wide. -/
def BinaryFormat.roundingInterval (format : BinaryFormat) (rank : Nat) : RoundingInterval :=
  let (significand, exponent) := format.expand rank
  let beginsBinade := rank % Nat.pow 2 format.fractionBits == 0 &&
    2 ≤ rank / Nat.pow 2 format.fractionBits
  { low := 4 * significand - (if beginsBinade then 1 else 2)
    centre := 4 * significand
    high := 4 * significand + 2
    exponent := exponent - 2
    closed := significand % 2 == 0 }

namespace RoundingInterval

variable (interval : RoundingInterval)

/-- What multiplies a bound of the interval, so that it compares with `gridStep` times a multiple
of `10 ^ p`. -/
def boundScale (p : Int) : Nat := Nat.pow 2 interval.exponent.toNat * Nat.pow 10 (-p).toNat

/-- What multiplies a multiple of `10 ^ p`, so that it compares with `boundScale` times a bound. -/
def gridStep (p : Int) : Nat := Nat.pow 2 (-interval.exponent).toNat * Nat.pow 10 p.toNat

/-- Whether `multiple * 10 ^ p` lies in the interval. -/
def meets (p : Int) (multiple : Nat) : Bool :=
  let low := interval.low * interval.boundScale p
  let high := interval.high * interval.boundScale p
  let point := multiple * interval.gridStep p
  if interval.closed then low ≤ point && point ≤ high else low < point && point < high

/-- The greatest multiple of `10 ^ p` that is not above the centre. -/
def floorMultiple (p : Int) : Nat :=
  interval.centre * interval.boundScale p / interval.gridStep p

/-- The multiple of `10 ^ p` next to the centre that is nearer to it. -/
def nearerMultiple (tie : TieRule) (p : Int) : Nat :=
  let below := interval.floorMultiple p
  let above := below + 1
  let centre := interval.centre * interval.boundScale p
  let fromBelow := centre - below * interval.gridStep p
  let toAbove := above * interval.gridStep p - centre
  if fromBelow < toAbove then below
  else if toAbove < fromBelow then above
  else match tie with
    | .toEven => if below % 2 = 0 then below else above
    | .upward => above

/-- The multiple of `10 ^ p` in the interval that is written, if there is one. -/
def multiple? (tie : TieRule) (p : Int) : Option Nat :=
  let below := interval.floorMultiple p
  match interval.meets p below, interval.meets p (below + 1) with
  | true, true => some (interval.nearerMultiple tie p)
  | true, false => some below
  | false, true => some (below + 1)
  | false, false => none

/-- Refines the grid until it meets the interval. -/
def refine (tie : TieRule) : Nat → Int → Decimal
  | 0, p => ⟨interval.floorMultiple p, p⟩
  | steps + 1, p =>
      match interval.multiple? tie p with
      | some multiple => ⟨multiple, p⟩
      | none => refine tie steps (p - 1)

/-- An exponent `p` for which `10 ^ p` lies above the interval. -/
def coarsest : Int :=
  let bound := interval.high.log2 + 1 + interval.exponent
  if 0 ≤ bound then bound / 3 + 1 else bound / 4 + 1

/-- The shortest decimal in the interval. The centre itself is a multiple of `10 ^ p` once `p` is
at most the binary exponent and at most zero, so the refinement ends there at the latest. -/
def shortest (tie : TieRule) : Decimal :=
  let start := interval.coarsest
  interval.refine tie (start - min interval.exponent 0).toNat start

end RoundingInterval

/-- How a decimal is laid out: numbers whose first digit stands for `10 ^ e` with `e` between the
two bounds are written plainly, all others with an exponent. -/
structure DecimalLayout where
  leastPlain : Int
  greatestPlain : Int
  plusSign : Bool
  tie : TieRule

namespace DecimalLayout

/-- The digits with a point after the `whole`-th one; a digit stands on both sides of it. -/
def plain (digits : List Char) (first : Int) : List Char :=
  if first < 0 then
    '0' :: '.' :: (List.replicate (-first - 1).toNat '0' ++ digits)
  else
    let whole := first.toNat + 1
    if digits.length ≤ whole then
      digits ++ List.replicate (whole - digits.length) '0' ++ ['.', '0']
    else
      digits.take whole ++ '.' :: digits.drop whole

def scientific (plusSign : Bool) (digits : List Char) (first : Int) : List Char :=
  let mantissa := match digits with
    | digit :: more@(_ :: _) => digit :: '.' :: more
    | _ => digits
  let sign := if first < 0 then ['-'] else if plusSign then ['+'] else []
  mantissa ++ 'e' :: (sign ++ Nat.toDigits 10 first.natAbs)

/-- The text of a decimal that is not zero. -/
def digits (layout : DecimalLayout) (decimal : Decimal) : List Char :=
  let digits := Nat.toDigits 10 decimal.coefficient
  let first := decimal.exponent + digits.length - 1
  if layout.leastPlain ≤ first && first ≤ layout.greatestPlain then plain digits first
  else scientific layout.plusSign digits first

/-- The text of a number: the fewest digits that round to it, in this layout. -/
def chars {format : BinaryFormat} (layout : DecimalLayout) : Binary format → List Char
  | .nan => ['N', 'a', 'N']
  | .ranked negative rank =>
      let sign := if negative then ['-'] else []
      if rank.val = 0 then sign ++ ['0', '.', '0']
      else if rank.val = format.infinityRank then sign ++ ['i', 'n', 'f']
      else sign ++ layout.digits ((format.roundingInterval rank).shortest layout.tie)

def text {format : BinaryFormat} (layout : DecimalLayout) (number : Binary format) : String :=
  String.ofList (layout.chars number)

end DecimalLayout

end OpGraph
