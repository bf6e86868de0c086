import OpGraph.Number.Shortest
import OpGraph.Proofs.Number.Rounding

/-!
# Shortest decimals

The decimal that is written for a number lies in the interval of the reals that round to it. It is
one of the two multiples of its grid next to the number, and a grid ten times as coarse is wider
than a quarter of the number's unit, so the decimal has few digits.
-/

namespace OpGraph

/-- Powers of two and of ten with any exponents are natural numbers on a common scale. -/
theorem exists_common_scale (e p : ℤ) : ∃ scale : ℚ, 0 < scale ∧
    ((2 ^ e.toNat * 10 ^ (-p).toNat : ℕ) : ℚ) = 2 ^ e * scale ∧
      ((2 ^ (-e).toNat * 10 ^ p.toNat : ℕ) : ℚ) = 10 ^ p * scale := by
  refine ⟨2 ^ (-e).toNat * 10 ^ (-p).toNat, by positivity, ?_, ?_⟩
  · push_cast
    rw [pow_toNat two_ne_zero, mul_assoc]
  · push_cast
    rw [pow_toNat (show (10 : ℚ) ≠ 0 by norm_num) p, mul_left_comm]

/-- The rational number that a decimal stands for. -/
def Decimal.value (decimal : Decimal) : ℚ := decimal.coefficient * 10 ^ decimal.exponent

namespace RoundingInterval

variable (interval : RoundingInterval)

/-- The number whose interval it is. -/
def middle : ℚ := interval.centre * 2 ^ interval.exponent

/-- The interval has the number; its ends belong to it if it is closed. -/
def Contains (number : ℚ) : Prop :=
  if interval.closed then
    interval.low * 2 ^ interval.exponent ≤ number ∧ number ≤ interval.high * 2 ^ interval.exponent
  else
    interval.low * 2 ^ interval.exponent < number ∧ number < interval.high * 2 ^ interval.exponent

/-- The centre lies between the ends. -/
structure Proper : Prop where
  low_lt : interval.low < interval.centre
  lt_high : interval.centre < interval.high

/-- What is known of the decimal that is written. -/
structure Fits (decimal : Decimal) : Prop where
  contains : interval.Contains decimal.value
  near : |decimal.value - interval.middle| ≤ 10 ^ decimal.exponent
  coarse : (2 : ℚ) ^ interval.exponent < 10 ^ (decimal.exponent + 1)

variable {interval}

theorem exists_scale (interval : RoundingInterval) (p : ℤ) : ∃ scale : ℚ, 0 < scale ∧
    (interval.boundScale p : ℚ) = 2 ^ interval.exponent * scale ∧
      (interval.gridStep p : ℚ) = 10 ^ p * scale :=
  exists_common_scale interval.exponent p

theorem gridStep_pos (p : ℤ) : 0 < interval.gridStep p :=
  Nat.mul_pos (Nat.two_pow_pos _) (Nat.pow_pos (by decide))

theorem bound_le_iff (bound multiple : ℕ) (p : ℤ) :
    bound * interval.boundScale p ≤ multiple * interval.gridStep p ↔
      (bound * 2 ^ interval.exponent : ℚ) ≤ multiple * 10 ^ p := by
  obtain ⟨scale, hscale, hbound, hgrid⟩ := interval.exists_scale p
  rw [← Nat.cast_le (α := ℚ), Nat.cast_mul, Nat.cast_mul, hbound, hgrid, ← mul_assoc, ← mul_assoc,
    mul_le_mul_iff_left₀ hscale]

theorem le_bound_iff (bound multiple : ℕ) (p : ℤ) :
    multiple * interval.gridStep p ≤ bound * interval.boundScale p ↔
      (multiple * 10 ^ p : ℚ) ≤ bound * 2 ^ interval.exponent := by
  obtain ⟨scale, hscale, hbound, hgrid⟩ := interval.exists_scale p
  rw [← Nat.cast_le (α := ℚ), Nat.cast_mul, Nat.cast_mul, hbound, hgrid, ← mul_assoc, ← mul_assoc,
    mul_le_mul_iff_left₀ hscale]

theorem meets_iff (p : ℤ) (multiple : ℕ) :
    interval.meets p multiple = true ↔ interval.Contains (multiple * 10 ^ p) := by
  simp only [meets, Contains]
  split
  · rw [Bool.and_eq_true, decide_eq_true_iff, decide_eq_true_iff, bound_le_iff, le_bound_iff]
  · rw [Bool.and_eq_true, decide_eq_true_iff, decide_eq_true_iff, ← Nat.not_le, ← Nat.not_le,
      bound_le_iff, le_bound_iff, not_le, not_le]

/-- The floor is the multiple just below the centre. -/
theorem floorMultiple_spec (p : ℤ) :
    (interval.floorMultiple p * 10 ^ p : ℚ) ≤ interval.middle ∧
      interval.middle < (interval.floorMultiple p + 1 : ℕ) * 10 ^ p := by
  constructor
  · exact (le_bound_iff _ _ p).mp (Nat.div_mul_le_self _ _)
  · refine not_le.mp fun hle => ?_
    have hlt := (Nat.div_lt_iff_lt_mul (interval.gridStep_pos p)).mp
      (Nat.lt_succ_self (interval.floorMultiple p))
    exact absurd ((le_bound_iff _ _ p).mpr hle) (Nat.not_le.mpr hlt)

theorem nearerMultiple_next (interval : RoundingInterval) (tie : TieRule) (p : ℤ) :
    interval.nearerMultiple tie p = interval.floorMultiple p ∨
      interval.nearerMultiple tie p = interval.floorMultiple p + 1 := by
  cases tie <;> simp only [nearerMultiple] <;> split_ifs <;> simp

/-- A multiple that is written is in the interval, and one of the two next to the centre. -/
theorem multiple?_eq_some {tie : TieRule} {p : ℤ} {multiple : ℕ}
    (hmultiple : interval.multiple? tie p = some multiple) :
    interval.meets p multiple = true ∧
      (multiple = interval.floorMultiple p ∨ multiple = interval.floorMultiple p + 1) := by
  simp only [multiple?] at hmultiple
  split at hmultiple
  · next hbelow habove =>
    obtain rfl := Option.some.inj hmultiple
    have hnearer := interval.nearerMultiple_next tie p
    refine ⟨?_, hnearer⟩
    rcases hnearer with heq | heq <;> rw [heq]
    · exact hbelow
    · exact habove
  · next hbelow _ =>
    obtain rfl := Option.some.inj hmultiple
    exact ⟨hbelow, .inl rfl⟩
  · next _ habove =>
    obtain rfl := Option.some.inj hmultiple
    exact ⟨habove, .inr rfl⟩
  · cases hmultiple

/-- A grid with a multiple next to the centre on either side is near it. -/
theorem near_middle {p : ℤ} {multiple : ℕ}
    (hmultiple : multiple = interval.floorMultiple p ∨ multiple = interval.floorMultiple p + 1) :
    |(multiple * 10 ^ p : ℚ) - interval.middle| ≤ 10 ^ p := by
  obtain ⟨hbelow, habove⟩ := interval.floorMultiple_spec p
  rw [Nat.cast_succ, add_one_mul] at habove
  rw [abs_le]
  rcases hmultiple with rfl | rfl
  · constructor <;> linarith
  · rw [Nat.cast_succ, add_one_mul]
    constructor <;> linarith

section Proper

variable (hproper : interval.Proper)

include hproper

/-- Numbers just below the centre are in the interval. -/
theorem contains_of_le {number : ℚ} (hlow : interval.middle - 2 ^ interval.exponent < number)
    (hhigh : number ≤ interval.middle) : interval.Contains number := by
  have hunit : (0 : ℚ) < 2 ^ interval.exponent := by positivity
  have hleast : (interval.low * 2 ^ interval.exponent : ℚ) < number := by
    have hlow_le : (interval.low + 1 : ℚ) ≤ interval.centre := by exact_mod_cast hproper.low_lt
    refine lt_of_le_of_lt ?_ hlow
    rw [middle, ← sub_one_mul]
    gcongr
    linarith
  have hgreatest : number < interval.high * 2 ^ interval.exponent := by
    refine hhigh.trans_lt ?_
    rw [middle]
    gcongr
    exact hproper.lt_high
  unfold Contains
  split
  · exact ⟨hleast.le, hgreatest.le⟩
  · exact ⟨hleast, hgreatest⟩

/-- A grid that is no coarser than a quarter of the unit meets the interval. -/
theorem lt_of_multiple?_eq_none {tie : TieRule} {p : ℤ}
    (hnone : interval.multiple? tie p = none) : (2 : ℚ) ^ interval.exponent < 10 ^ p := by
  by_contra hle
  obtain ⟨hbelow, habove⟩ := interval.floorMultiple_spec p
  rw [Nat.cast_succ, add_one_mul] at habove
  have hmeets : interval.meets p (interval.floorMultiple p) = true :=
    (meets_iff p _).mpr (contains_of_le hproper (by linarith) hbelow)
  simp only [multiple?, hmeets] at hnone
  cases habove : interval.meets p (interval.floorMultiple p + 1) <;> simp [habove] at hnone

/-- The refinement finds a decimal, also if it goes on until the number itself is a multiple. -/
theorem refine_fits (tie : TieRule) (steps : ℕ) :
    ∀ p : ℤ, (2 : ℚ) ^ interval.exponent < 10 ^ (p + 1) →
      (interval.floorMultiple (p - steps) * 10 ^ (p - steps) : ℚ) = interval.middle →
      interval.Fits (interval.refine tie steps p) := by
  have hunit : (0 : ℚ) < 2 ^ interval.exponent := by positivity
  induction steps with
  | zero =>
      intro p hcoarse hlast
      rw [Nat.cast_zero, sub_zero] at hlast
      refine ⟨?_, near_middle (.inl rfl), hcoarse⟩
      rw [refine, Decimal.value, hlast]
      exact contains_of_le hproper (by linarith) le_rfl
  | succ steps ih =>
      intro p hcoarse hlast
      rw [refine]
      split
      · next multiple hmultiple =>
        obtain ⟨hmeets, hnext⟩ := multiple?_eq_some hmultiple
        exact ⟨(meets_iff p multiple).mp hmeets, near_middle hnext, hcoarse⟩
      · next hnone =>
        refine ih (p - 1) ?_ ?_
        · rw [sub_add_cancel]
          exact lt_of_multiple?_eq_none hproper hnone
        · rw [Nat.cast_succ] at hlast
          rw [sub_right_comm, sub_sub]
          exact hlast

end Proper

/-- The decimal has few digits. -/
theorem Fits.coefficient_lt {decimal : Decimal} (hfits : interval.Fits decimal)
    (hhigh : 0 < interval.high) : decimal.coefficient < 10 * interval.high := by
  have hten : (0 : ℚ) < 10 ^ decimal.exponent := by positivity
  have hhigh' : (0 : ℚ) < interval.high := by exact_mod_cast hhigh
  have hle : decimal.value ≤ interval.high * 2 ^ interval.exponent := by
    have hcontains := hfits.contains
    rw [Contains] at hcontains
    split at hcontains
    · exact hcontains.2
    · exact hcontains.2.le
  have hlt : (decimal.coefficient * 10 ^ decimal.exponent : ℚ) <
      (10 * interval.high) * 10 ^ decimal.exponent :=
    calc (decimal.coefficient * 10 ^ decimal.exponent : ℚ)
        ≤ interval.high * 2 ^ interval.exponent := hle
      _ < interval.high * 10 ^ (decimal.exponent + 1) := by
          gcongr
          exact hfits.coarse
      _ = (10 * interval.high) * 10 ^ decimal.exponent := by
          rw [zpow_add_one₀ (by norm_num)]
          ring
  exact_mod_cast (mul_lt_mul_iff_left₀ hten).mp hlt

/-- A grid at least as fine as the unit of the centre has the centre among its multiples. -/
theorem floorMultiple_of_fine {p : ℤ} (hunit : p ≤ interval.exponent) (hzero : p ≤ 0) :
    (interval.floorMultiple p * 10 ^ p : ℚ) = interval.middle := by
  obtain ⟨shift, hshift⟩ := Int.le.dest hunit
  obtain ⟨places, hplaces⟩ := Int.le.dest hzero
  have hten : (10 : ℚ) ^ p ≠ 0 := by positivity
  have hmiddle : interval.middle = (interval.centre * 2 ^ shift * 5 ^ places : ℕ) * 10 ^ p := by
    have hp : p = -(places : ℤ) := by omega
    rw [middle, ← hshift, zpow_add₀ two_ne_zero, hp, zpow_neg, zpow_neg, zpow_natCast, zpow_natCast,
      zpow_natCast, show (10 : ℚ) ^ places = 2 ^ places * 5 ^ places by rw [← mul_pow]; norm_num]
    push_cast
    field_simp
  obtain ⟨hbelow, habove⟩ := interval.floorMultiple_spec p
  have hpos : (0 : ℚ) < 10 ^ p := by positivity
  rw [hmiddle] at hbelow habove ⊢
  have hle := (mul_le_mul_iff_left₀ hpos).mp hbelow
  have hlt := (mul_lt_mul_iff_left₀ hpos).mp habove
  norm_cast at hle hlt
  rw [Nat.le_antisymm hle (Nat.le_of_lt_succ hlt)]

/-- The refinement begins with a power of ten above the interval. -/
theorem lt_ten_pow_coarsest (interval : RoundingInterval) :
    (2 : ℚ) ^ interval.exponent < 10 ^ interval.coarsest := by
  have hbound : interval.exponent < (interval.high.log2 : ℤ) + 1 + interval.exponent := by omega
  refine (zpow_lt_zpow_right₀ (one_lt_two (α := ℚ)) hbound).trans_le ?_
  rw [coarsest]
  generalize (interval.high.log2 : ℤ) + 1 + interval.exponent = bound
  split
  · next hnonneg =>
    calc (2 : ℚ) ^ bound ≤ 2 ^ (3 * (bound / 3 + 1)) :=
          zpow_le_zpow_right₀ one_le_two (by omega)
      _ = 8 ^ (bound / 3 + 1) := by rw [zpow_mul]; norm_num
      _ ≤ 10 ^ (bound / 3 + 1) := zpow_le_zpow_left₀ (by omega) (by norm_num) (by norm_num)
  · next hneg =>
    have hle : bound / 4 + 1 ≤ 0 := by omega
    obtain ⟨places, hplaces⟩ := Int.le.dest hle
    have hplaces : bound / 4 + 1 = -(places : ℤ) := by omega
    calc (2 : ℚ) ^ bound ≤ 2 ^ (4 * (bound / 4 + 1)) :=
          zpow_le_zpow_right₀ one_le_two (by omega)
      _ = 16 ^ (bound / 4 + 1) := by rw [zpow_mul]; norm_num
      _ ≤ 10 ^ (bound / 4 + 1) := by
          rw [hplaces, zpow_neg, zpow_neg, zpow_natCast, zpow_natCast]
          gcongr
          norm_num

theorem shortest_fits (hproper : interval.Proper) (tie : TieRule) :
    interval.Fits (interval.shortest tie) := by
  have hstart := interval.lt_ten_pow_coarsest
  refine refine_fits hproper tie _ _ ?_ ?_
  · exact hstart.trans (zpow_lt_zpow_right₀ (by norm_num) (lt_add_one _))
  · have hend : min interval.exponent 0 ≤ interval.coarsest := by
      rw [coarsest]
      split <;> omega
    rw [Int.toNat_of_nonneg (by omega), sub_sub_cancel]
    exact floorMultiple_of_fine (min_le_left _ _) (min_le_right _ _)

end RoundingInterval

/-! ## The intervals of a format -/

namespace BinaryFormat

variable {format : BinaryFormat}

theorem roundingInterval_of_expands {rank significand : ℕ} {exponent : ℤ}
    (hexpands : format.Expands rank significand exponent) :
    format.roundingInterval rank =
      { low := 4 * significand - (if rank % 2 ^ format.fractionBits == 0 &&
          2 ≤ rank / 2 ^ format.fractionBits then 1 else 2)
        centre := 4 * significand
        high := 4 * significand + 2
        exponent := exponent - 2
        closed := significand % 2 == 0 } := by
  rw [roundingInterval, hexpands.expand_eq]
  rfl

/-- Numbers are in the interval of a rank if they are between the midpoints around its value; of the
midpoints themselves, those of an even rank are. -/
structure Surrounds (format : BinaryFormat) (rank : ℕ) (interval : RoundingInterval) : Prop where
  low_eq : (interval.low * 2 ^ interval.exponent : ℚ) = format.midpoint rank
  middle_eq : interval.middle = format.value (rank + 1)
  high_eq : (interval.high * 2 ^ interval.exponent : ℚ) = format.midpoint (rank + 1)
  closed_iff : interval.closed = true ↔ (rank + 1) % 2 = 0
  proper : interval.Proper

theorem quarter_zpow (exponent : ℤ) : (2 : ℚ) ^ exponent = 4 * 2 ^ (exponent - 2) := by
  rw [zpow_sub₀ two_ne_zero]
  norm_num
  ring

/-- A rank with the exponent of the rank before it does not begin a binade with narrower units
below. -/
theorem not_beginsBinade {rank significand : ℕ} {exponent : ℤ}
    (hnext : format.Expands (rank + 1) (significand + 1) exponent)
    (hnormal : exponent = format.leastExponent ∨ 2 ^ format.fractionBits ≤ significand) :
    ((rank + 1) % 2 ^ format.fractionBits == 0 &&
      decide (2 ≤ (rank + 1) / 2 ^ format.fractionBits)) = false := by
  obtain ⟨hrank, -, hlt, -⟩ := hnext
  rw [Bool.and_eq_false_imp, beq_iff_eq, decide_eq_false_iff_not, hrank]
  rw [pow_succ] at hlt
  have hpos := Nat.two_pow_pos format.fractionBits
  generalize 2 ^ format.fractionBits = size at *
  rw [Nat.mul_add_mod_self_right, Nat.add_comm (_ * size), Nat.add_mul_div_right _ _ hpos]
  intro hmod
  have hone : (significand + 1) / size < 2 := (Nat.div_lt_iff_lt_mul hpos).mpr (by omega)
  rcases hnormal with rfl | hnormal
  · rw [sub_self, Int.toNat_zero]
    omega
  · -- The significand is a multiple of the size, between one and two times the size.
    have hdiv := Nat.div_add_mod' (significand + 1) size
    have hle : (significand + 1) / size * size ≤ 1 * size := Nat.mul_le_mul_right _ (by omega)
    omega

theorem beginsBinade {rank : ℕ} {exponent : ℤ}
    (hnext : format.Expands (rank + 1) (2 ^ format.fractionBits) (exponent + 1))
    (hleast : format.leastExponent ≤ exponent) :
    ((rank + 1) % 2 ^ format.fractionBits == 0 &&
      decide (2 ≤ (rank + 1) / 2 ^ format.fractionBits)) = true := by
  have hpos := Nat.two_pow_pos format.fractionBits
  rw [hnext.rank_eq, Nat.mul_add_mod_self_right, Nat.mod_self, Nat.add_comm,
    Nat.add_mul_div_right _ _ hpos, Nat.div_self hpos, beq_self_eq_true, Bool.true_and,
    decide_eq_true_iff]
  omega

theorem roundingInterval_surrounds (format : BinaryFormat) (hbits : 0 < format.fractionBits)
    (rank : ℕ) :
    format.Surrounds rank (format.roundingInterval (rank + 1)) := by
  have hexpands := format.expands_expand rank
  generalize (format.expand rank).1 = significand at hexpands
  generalize (format.expand rank).2 = exponent at hexpands
  have hlow := hexpands.midpoint_eq
  rcases hexpands.succ with hnext | ⟨hcarry, hnext⟩
  · -- The unit below is as wide as the unit above.
    have hparity := hnext.mod_two hbits
    rw [roundingInterval_of_expands hnext, not_beginsBinade hnext hexpands.normal]
    refine ⟨?_, ?_, ?_, ?_, ⟨?_, ?_⟩⟩
    · rw [hlow, quarter_zpow exponent]
      simp only [Bool.false_eq_true, if_false]
      rw [show 4 * (significand + 1) - 2 = 4 * significand + 2 by omega]
      push_cast
      ring
    · rw [hnext.value_eq, quarter_zpow exponent, RoundingInterval.middle]
      push_cast
      ring
    · rw [hnext.midpoint_eq, quarter_zpow exponent]
      push_cast
      ring
    · rw [hparity]
      exact beq_iff_eq
    · simp only [Bool.false_eq_true, if_false]
      omega
    · exact Nat.lt_add_of_pos_right (by decide)
  · -- The unit below is half as wide.
    have hparity := hnext.mod_two hbits
    have hcarry' : (significand + 1 : ℚ) = 2 ^ format.fractionBits * 2 := by exact_mod_cast hcarry
    rw [roundingInterval_of_expands hnext, beginsBinade hnext hexpands.least_le]
    have hpos := Nat.two_pow_pos format.fractionBits
    refine ⟨?_, ?_, ?_, ?_, ⟨?_, ?_⟩⟩
    · rw [hlow, quarter_zpow exponent, show exponent + 1 - 2 = exponent - 2 + 1 by ring,
        zpow_add_one₀ two_ne_zero, eq_sub_of_add_eq hcarry']
      simp only [if_true]
      push_cast [show 1 ≤ 4 * 2 ^ format.fractionBits by omega]
      ring
    · rw [hnext.value_eq, quarter_zpow (exponent + 1), RoundingInterval.middle]
      push_cast
      ring
    · rw [hnext.midpoint_eq, quarter_zpow (exponent + 1)]
      push_cast
      ring
    · rw [hparity]
      exact beq_iff_eq
    · simp only [if_true]
      omega
    · exact Nat.lt_add_of_pos_right (by decide)

/-- The decimal that is written for a rank lies between the midpoints around its value, and on one
of them only if the rank is even. -/
theorem Surrounds.between {rank : ℕ} {interval : RoundingInterval}
    (hsurrounds : format.Surrounds rank interval) {number : ℚ}
    (hcontains : interval.Contains number) :
    format.midpoint rank ≤ number ∧ number ≤ format.midpoint (rank + 1) ∧
      (format.midpoint rank = number ∨ number = format.midpoint (rank + 1) →
        (rank + 1) % 2 = 0) := by
  rw [RoundingInterval.Contains, hsurrounds.low_eq, hsurrounds.high_eq] at hcontains
  split at hcontains
  · next hclosed =>
    exact ⟨hcontains.1, hcontains.2, fun _ => hsurrounds.closed_iff.mp hclosed⟩
  · exact ⟨hcontains.1.le, hcontains.2.le, fun htie =>
      htie.elim (fun heq => absurd heq hcontains.1.ne) fun heq => absurd heq hcontains.2.ne⟩

end BinaryFormat

end OpGraph
