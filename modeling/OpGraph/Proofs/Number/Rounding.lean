import Mathlib.Algebra.Order.Field.Power
import Mathlib.Data.Rat.Cast.Order
import Mathlib.Tactic.FieldSimp
import Mathlib.Tactic.Linarith
import Mathlib.Tactic.Positivity
import Mathlib.Tactic.Ring
import OpGraph.Number.Binary

/-!
# Rounding

The values of a binary format as rational numbers, and the number that a quotient is rounded to: it
is the value nearest to the quotient, so it differs from it by half a unit at most, and a quotient
between the midpoints around a value is rounded to this value.
-/

namespace OpGraph

theorem pow_toNat {base : ℚ} (hbase : base ≠ 0) (e : ℤ) :
    base ^ e.toNat = base ^ e * base ^ (-e).toNat := by
  rcases le_total 0 e with hpos | hneg
  · rw [Int.toNat_of_nonpos (by omega : -e ≤ 0), pow_zero, mul_one, ← zpow_natCast,
      Int.toNat_of_nonneg hpos]
  · rw [Int.toNat_of_nonpos hneg, pow_zero, ← zpow_natCast, Int.toNat_of_nonneg (by omega),
      ← zpow_add₀ hbase, add_neg_cancel, zpow_zero]

/-! ## Logarithms -/

section Quotient

variable {num den : ℕ}

theorem two_pow_log2_le (hnum : 0 < num) : (2 : ℚ) ^ (num.log2 : ℤ) ≤ num := by
  rw [zpow_natCast]
  exact_mod_cast Nat.log2_self_le hnum.ne'

theorem lt_two_pow_log2 (num : ℕ) : (num : ℚ) < 2 ^ (num.log2 + 1 : ℤ) := by
  have hlt : num < 2 ^ (num.log2 + 1) := Nat.lt_log2_self
  calc (num : ℚ) < ((2 ^ (num.log2 + 1) : ℕ) : ℚ) := by exact_mod_cast hlt
    _ = 2 ^ (num.log2 + 1 : ℤ) := by push_cast; exact_mod_cast rfl

/-- The test of the estimate compares the quotient with the power of two. -/
theorem two_zpow_le_iff (hden : 0 < den) (e : ℤ) :
    den * Nat.pow 2 e.toNat ≤ num * Nat.pow 2 (-e).toNat ↔ (2 : ℚ) ^ e ≤ num / den := by
  have hden' : (0 : ℚ) < den := by exact_mod_cast hden
  have hpow : (0 : ℚ) < 2 ^ (-e).toNat := by positivity
  have hscale := pow_toNat (show (2 : ℚ) ≠ 0 by norm_num) e
  rw [le_div_iff₀ hden', ← Nat.cast_le (α := ℚ)]
  change ((den * 2 ^ e.toNat : ℕ) : ℚ) ≤ ((num * 2 ^ (-e).toNat : ℕ) : ℚ) ↔ _
  push_cast
  rw [hscale, ← mul_assoc, mul_le_mul_iff_left₀ hpow, mul_comm]

theorem floorLog2_spec (hnum : 0 < num) (hden : 0 < den) :
    (2 : ℚ) ^ floorLog2 num den ≤ num / den ∧
      (num / den : ℚ) < 2 ^ (floorLog2 num den + 1) := by
  have htwo : (2 : ℚ) ≠ 0 := by norm_num
  have hden' : (0 : ℚ) < den := by exact_mod_cast hden
  have hlow : (2 : ℚ) ^ ((num.log2 : ℤ) - den.log2 - 1) ≤ num / den := by
    rw [le_div_iff₀ hden']
    calc (2 : ℚ) ^ ((num.log2 : ℤ) - den.log2 - 1) * den
        ≤ 2 ^ ((num.log2 : ℤ) - den.log2 - 1) * 2 ^ (den.log2 + 1 : ℤ) := by
          gcongr
          exact (lt_two_pow_log2 den).le
      _ = 2 ^ (num.log2 : ℤ) := by rw [← zpow_add₀ htwo]; congr 1; ring
      _ ≤ num := two_pow_log2_le hnum
  have hhigh : (num / den : ℚ) < 2 ^ ((num.log2 : ℤ) - den.log2 + 1) := by
    rw [div_lt_iff₀ hden']
    calc (num : ℚ) < 2 ^ (num.log2 + 1 : ℤ) := lt_two_pow_log2 num
      _ = 2 ^ ((num.log2 : ℤ) - den.log2 + 1) * 2 ^ (den.log2 : ℤ) := by
          rw [← zpow_add₀ htwo]; congr 1; ring
      _ ≤ 2 ^ ((num.log2 : ℤ) - den.log2 + 1) * den := by
          gcongr
          exact two_pow_log2_le hden
  rw [floorLog2]
  split
  · next htest => exact ⟨(two_zpow_le_iff hden _).mp htest, hhigh⟩
  · next htest =>
    rw [two_zpow_le_iff hden, not_le] at htest
    exact ⟨hlow, by simpa using htest⟩

/-! ## Natural numbers next to a quotient -/

/-- A quotient is its floor and the part of the remainder. -/
theorem div_eq_floor_add (hden : 0 < den) :
    (num / den : ℚ) = (num / den : ℕ) + (num % den : ℕ) / den := by
  have hden' : (den : ℚ) ≠ 0 := by exact_mod_cast hden.ne'
  have hdiv : (num : ℚ) = den * (num / den : ℕ) + (num % den : ℕ) := by
    exact_mod_cast (Nat.div_add_mod num den).symm
  field_simp
  linarith

/-- The part of the remainder decides between the floor and the next number. -/
theorem roundDivEven_cases (num : ℕ) (hden : 0 < den) :
    ∃ part : ℚ, 0 ≤ part ∧ part < 1 ∧ (num / den : ℚ) = (num / den : ℕ) + part ∧
      (part < 1 / 2 ∧ roundDivEven num den = num / den ∨
        1 / 2 < part ∧ roundDivEven num den = num / den + 1 ∨
        part = 1 / 2 ∧ roundDivEven num den = num / den + num / den % 2) := by
  have hden' : (0 : ℚ) < den := by exact_mod_cast hden
  have hlt : num % den < den := Nat.mod_lt _ hden
  refine ⟨(num % den : ℕ) / den, by positivity, ?_, div_eq_floor_add hden, ?_⟩
  · rw [div_lt_one hden']
    exact_mod_cast hlt
  rw [roundDivEven, div_lt_iff₀ hden', lt_div_iff₀ hden', div_eq_iff hden'.ne']
  rcases lt_trichotomy (2 * (num % den)) den with hless | hhalf | hmore
  · refine .inl ⟨?_, if_pos hless⟩
    have hless' : (2 * (num % den : ℕ) : ℚ) < den := by exact_mod_cast hless
    linarith
  · refine .inr (.inr ⟨?_, ?_⟩)
    · have hhalf' : (2 * (num % den : ℕ) : ℚ) = den := by exact_mod_cast hhalf
      linarith
    · rw [if_neg (by omega), if_neg (by omega)]
  · refine .inr (.inl ⟨?_, ?_⟩)
    · have hmore' : (den : ℚ) < 2 * (num % den : ℕ) := by exact_mod_cast hmore
      linarith
    · rw [if_neg (by omega), if_pos hmore]

/-- A quotient is rounded to a number at most one half away. -/
theorem roundDivEven_near (num : ℕ) (hden : 0 < den) :
    |(roundDivEven num den : ℚ) - num / den| ≤ 1 / 2 := by
  obtain ⟨part, hlow, hhigh, hquotient, hcases⟩ := roundDivEven_cases num hden
  rw [hquotient, abs_le]
  rcases hcases with ⟨hpart, heq⟩ | ⟨hpart, heq⟩ | ⟨hpart, heq⟩
  · rw [heq]
    constructor <;> linarith
  · rw [heq]
    push_cast
    constructor <;> linarith
  · have hparity : ((num / den % 2 : ℕ) : ℚ) ≤ 1 := by
      exact_mod_cast Nat.le_of_lt_succ (Nat.mod_lt _ (by decide))
    have hparity' : (0 : ℚ) ≤ (num / den % 2 : ℕ) := by positivity
    rw [heq]
    push_cast at hparity hparity' ⊢
    constructor <;> linarith

/-- A number less than one half away, or an even one that is just one half away, is the one that the
quotient is rounded to. -/
theorem roundDivEven_eq (hden : 0 < den) {n : ℕ} (hnear : |(n : ℚ) - num / den| ≤ 1 / 2)
    (htie : |(n : ℚ) - num / den| = 1 / 2 → n % 2 = 0) : roundDivEven num den = n := by
  obtain ⟨part, hlow, hhigh, hquotient, hcases⟩ := roundDivEven_cases num hden
  rw [hquotient] at hnear htie
  generalize num / den = floor at *
  obtain ⟨hleast, hgreatest⟩ := abs_le.mp hnear
  have hge : floor ≤ n := by
    have hlt : (floor : ℚ) < n + 1 := by linarith
    exact_mod_cast Nat.lt_succ_iff.mp (by exact_mod_cast hlt)
  have hle : n ≤ floor + 1 := by
    have hlt : (n : ℚ) < floor + 1 + 1 := by linarith
    exact_mod_cast Nat.lt_succ_iff.mp (by exact_mod_cast hlt)
  obtain rfl | rfl : n = floor ∨ n = floor + 1 := by omega
  · rcases hcases with ⟨_, heq⟩ | ⟨hpart, _⟩ | ⟨hpart, heq⟩
    · exact heq
    · linarith
    · have heven := htie (by rw [hpart]; norm_num)
      rw [heq, heven, add_zero]
  · push_cast at hleast hgreatest htie
    rcases hcases with ⟨hpart, _⟩ | ⟨_, heq⟩ | ⟨hpart, heq⟩
    · linarith
    · exact heq
    · have heven := htie (by rw [hpart]; norm_num)
      omega

end Quotient

/-! ## Values of ranks -/

namespace BinaryFormat

variable (format : BinaryFormat)

/-- The value of a finite rank. -/
def value (rank : ℕ) : ℚ := (format.expand rank).1 * 2 ^ (format.expand rank).2

/-- The point halfway between the value of a rank and that of the next one. -/
def midpoint (rank : ℕ) : ℚ := format.value rank + 2 ^ ((format.expand rank).2 - 1)

/-- A significand and an exponent are those of a rank: the exponent is the least one unless the
significand has its leading bit. -/
structure Expands (rank significand : ℕ) (exponent : ℤ) : Prop where
  rank_eq : rank = (exponent - format.leastExponent).toNat * 2 ^ format.fractionBits + significand
  least_le : format.leastExponent ≤ exponent
  significand_lt : significand < 2 ^ (format.fractionBits + 1)
  normal : exponent = format.leastExponent ∨ 2 ^ format.fractionBits ≤ significand

variable {format} {rank : ℕ}

theorem expand_eq (rank : ℕ) : format.expand rank =
    if rank / 2 ^ format.fractionBits = 0 then
      (rank % 2 ^ format.fractionBits, format.leastExponent)
    else (rank % 2 ^ format.fractionBits + 2 ^ format.fractionBits,
      format.leastExponent + (rank / 2 ^ format.fractionBits : ℕ) - 1) := rfl

theorem expand_of_lt (hrank : rank < 2 ^ format.fractionBits) :
    format.expand rank = (rank, format.leastExponent) := by
  rw [expand_eq, if_pos (Nat.div_eq_of_lt hrank), Nat.mod_eq_of_lt hrank]

theorem expand_of_binade (format : BinaryFormat) (binade : ℕ) {fraction : ℕ}
    (hfraction : fraction < 2 ^ format.fractionBits) :
    format.expand (binade * 2 ^ format.fractionBits + (2 ^ format.fractionBits + fraction)) =
      (fraction + 2 ^ format.fractionBits, format.leastExponent + binade) := by
  have hpos := Nat.two_pow_pos format.fractionBits
  have hrank : binade * 2 ^ format.fractionBits + (2 ^ format.fractionBits + fraction) =
      fraction + 2 ^ format.fractionBits * (binade + 1) := by ring
  rw [expand_eq, hrank, Nat.add_mul_div_left _ _ hpos, Nat.add_mul_mod_self_left,
    Nat.div_eq_of_lt hfraction, Nat.mod_eq_of_lt hfraction, if_neg (by omega)]
  congr 1
  push_cast
  ring

theorem expands_expand (format : BinaryFormat) (rank : ℕ) :
    format.Expands rank (format.expand rank).1 (format.expand rank).2 := by
  have hpos := Nat.two_pow_pos format.fractionBits
  have hdouble := Nat.pow_succ 2 format.fractionBits
  rcases Nat.lt_or_ge rank (2 ^ format.fractionBits) with hsmall | hlarge
  · rw [expand_of_lt hsmall]
    exact ⟨by simp, le_rfl, by change rank < _; omega, .inl rfl⟩
  · obtain ⟨binade, fraction, hfraction, rfl⟩ : ∃ binade fraction,
        fraction < 2 ^ format.fractionBits ∧
        rank = binade * 2 ^ format.fractionBits + (2 ^ format.fractionBits + fraction) := by
      refine ⟨(rank - 2 ^ format.fractionBits) / 2 ^ format.fractionBits,
        (rank - 2 ^ format.fractionBits) % 2 ^ format.fractionBits, Nat.mod_lt _ hpos, ?_⟩
      have hdiv := Nat.div_add_mod' (rank - 2 ^ format.fractionBits) (2 ^ format.fractionBits)
      omega
    rw [format.expand_of_binade binade hfraction]
    refine ⟨?_, Int.le_add_of_nonneg_right (Int.natCast_nonneg _), ?_, .inr (Nat.le_add_left _ _)⟩
    · rw [add_sub_cancel_left, Int.toNat_natCast, add_comm fraction]
    · change fraction + 2 ^ format.fractionBits < _
      omega

/-- A significand stands for its multiple of the unit, also if it is the first one that is too
great for its binade. -/
theorem value_eq {significand : ℕ} {exponent : ℤ}
    (hle : significand ≤ 2 ^ (format.fractionBits + 1)) (hleast : format.leastExponent ≤ exponent)
    (hnormal : exponent = format.leastExponent ∨ 2 ^ format.fractionBits ≤ significand) :
    format.value ((exponent - format.leastExponent).toNat * 2 ^ format.fractionBits + significand) =
      significand * 2 ^ exponent := by
  obtain ⟨binade, rfl⟩ := Int.le.dest hleast
  rw [add_sub_cancel_left, Int.toNat_natCast]
  rcases Nat.lt_or_ge significand (2 ^ format.fractionBits) with hsmall | hlarge
  · obtain rfl : binade = 0 := by omega
    rw [zero_mul, zero_add, value, expand_of_lt hsmall, Nat.cast_zero, add_zero]
  obtain ⟨fraction, rfl⟩ := Nat.exists_eq_add_of_le hlarge
  rcases hle.lt_or_eq with hlt | heq
  · rw [value, format.expand_of_binade binade (by rw [pow_succ] at hlt; omega), add_comm fraction]
  · have hfraction : fraction = 2 ^ format.fractionBits := by
      rw [pow_succ] at heq
      omega
    subst hfraction
    have hnext := format.expand_of_binade (binade + 1) (Nat.two_pow_pos format.fractionBits)
    rw [add_zero, zero_add, add_mul, one_mul, add_assoc] at hnext
    rw [value, hnext]
    push_cast
    rw [← add_assoc, zpow_add_one₀ two_ne_zero]
    ring

theorem Expands.value_eq {significand : ℕ} {exponent : ℤ}
    (hexpands : format.Expands rank significand exponent) :
    format.value rank = significand * 2 ^ exponent := by
  rw [hexpands.rank_eq]
  exact BinaryFormat.value_eq hexpands.significand_lt.le hexpands.least_le hexpands.normal

theorem Expands.expand_eq {significand : ℕ} {exponent : ℤ}
    (hexpands : format.Expands rank significand exponent) :
    format.expand rank = (significand, exponent) := by
  obtain ⟨hrank, hleast, hlt, hnormal⟩ := hexpands
  obtain ⟨binade, rfl⟩ := Int.le.dest hleast
  rw [add_sub_cancel_left, Int.toNat_natCast] at hrank
  subst hrank
  rcases Nat.lt_or_ge significand (2 ^ format.fractionBits) with hsmall | hlarge
  · obtain rfl : binade = 0 := by omega
    rw [zero_mul, zero_add, expand_of_lt hsmall, Nat.cast_zero, add_zero]
  · obtain ⟨fraction, rfl⟩ := Nat.exists_eq_add_of_le hlarge
    rw [format.expand_of_binade binade (by rw [pow_succ] at hlt; omega), add_comm fraction]

/-- A rank and its significand are both even or both odd. -/
theorem Expands.mod_two (hbits : 0 < format.fractionBits) {significand : ℕ} {exponent : ℤ}
    (hexpands : format.Expands rank significand exponent) : rank % 2 = significand % 2 := by
  obtain ⟨half, hhalf⟩ : 2 ∣ 2 ^ format.fractionBits := dvd_pow_self 2 hbits.ne'
  have hrank := hexpands.rank_eq
  rw [hhalf, mul_left_comm] at hrank
  omega

/-- The next rank has the next significand, or the first one of the next binade. -/
theorem Expands.succ {significand : ℕ} {exponent : ℤ}
    (hexpands : format.Expands rank significand exponent) :
    format.Expands (rank + 1) (significand + 1) exponent ∨
      significand + 1 = 2 ^ format.fractionBits * 2 ∧
        format.Expands (rank + 1) (2 ^ format.fractionBits) (exponent + 1) := by
  obtain ⟨hrank, hleast, hlt, hnormal⟩ := hexpands
  rcases (Nat.succ_le_of_lt hlt).lt_or_eq with hnext | hcarry
  · exact .inl ⟨by rw [hrank]; ring, hleast, hnext,
      hnormal.imp_right fun hnormal => hnormal.trans (Nat.le_succ _)⟩
  · rw [pow_succ] at hcarry
    refine .inr ⟨hcarry, ?_, hleast.trans (by omega), ?_, .inr le_rfl⟩
    · have htoNat : (exponent + 1 - format.leastExponent).toNat =
          (exponent - format.leastExponent).toNat + 1 := by omega
      rw [hrank, htoNat, add_one_mul]
      omega
    · exact Nat.pow_lt_pow_right (by decide) (Nat.lt_succ_self _)

theorem Expands.midpoint_eq {significand : ℕ} {exponent : ℤ}
    (hexpands : format.Expands rank significand exponent) :
    format.midpoint rank = (significand + 1 / 2) * 2 ^ exponent := by
  rw [midpoint, hexpands.value_eq, hexpands.expand_eq, zpow_sub_one₀ two_ne_zero]
  ring

/-! ## Rounding to a rank -/

section Nearest

variable {num den : ℕ}

/-- The exponent of the unit to whose multiples a quotient is rounded. -/
def unit (format : BinaryFormat) (num den : ℕ) : ℤ :=
  max format.leastExponent (floorLog2 num den - format.fractionBits)

theorem scaled_div (num den : ℕ) (exponent : ℤ) :
    ((num * Nat.pow 2 (-exponent).toNat : ℕ) : ℚ) / (den * Nat.pow 2 exponent.toNat : ℕ) =
      num / den / 2 ^ exponent := by
  have hscale := pow_toNat (two_ne_zero : (2 : ℚ) ≠ 0) exponent
  have hpos : (0 : ℚ) < 2 ^ (-exponent).toNat := by positivity
  simp only [Nat.pow_eq, Nat.cast_mul, Nat.cast_pow, Nat.cast_ofNat]
  rw [hscale, ← mul_assoc, mul_div_mul_right _ _ hpos.ne', div_div]

/-- The significand that a quotient is rounded to. -/
def significand (format : BinaryFormat) (num den : ℕ) : ℕ :=
  roundDivEven (num * Nat.pow 2 (-format.unit num den).toNat)
    (den * Nat.pow 2 (format.unit num den).toNat)

theorem nearestRank_eq (hnum : 0 < num) : format.nearestRank num den =
    (format.unit num den - format.leastExponent).toNat * 2 ^ format.fractionBits +
      format.significand num den := by
  rw [nearestRank, if_neg hnum.ne']
  rfl

variable (format) (hnum : 0 < num) (hden : 0 < den)

variable (num) in
include hden in
theorem significand_near :
    |(format.significand num den : ℚ) - num / den / 2 ^ format.unit num den| ≤ 1 / 2 := by
  have hscaled : 0 < den * Nat.pow 2 (format.unit num den).toNat :=
    Nat.mul_pos hden (Nat.two_pow_pos _)
  have hnear := roundDivEven_near (num * Nat.pow 2 (-format.unit num den).toNat) hscaled
  rw [scaled_div] at hnear
  exact hnear

include hden in
theorem significand_eq {n : ℕ} (hnear : |(n : ℚ) - num / den / 2 ^ format.unit num den| ≤ 1 / 2)
    (htie : |(n : ℚ) - num / den / 2 ^ format.unit num den| = 1 / 2 → n % 2 = 0) :
    format.significand num den = n := by
  rw [← scaled_div] at hnear htie
  exact roundDivEven_eq (Nat.mul_pos hden (Nat.two_pow_pos _)) hnear htie

include hnum hden in
/-- The unit is fine enough for the quotient and, unless it is the least one, no finer. -/
theorem scaled_bounds :
    (num / den / 2 ^ format.unit num den : ℚ) < 2 ^ (format.fractionBits + 1) ∧
      (format.unit num den = format.leastExponent ∨
        (2 : ℚ) ^ format.fractionBits ≤ num / den / 2 ^ format.unit num den) := by
  have htwo : (2 : ℚ) ≠ 0 := two_ne_zero
  have hunit : (0 : ℚ) < 2 ^ format.unit num den := by positivity
  obtain ⟨hlow, hhigh⟩ := floorLog2_spec hnum hden
  rw [div_lt_iff₀ hunit, le_div_iff₀ hunit, ← zpow_natCast, ← zpow_natCast, ← zpow_add₀ htwo,
    ← zpow_add₀ htwo]
  constructor
  · refine hhigh.trans_le (zpow_le_zpow_right₀ one_le_two ?_)
    have hle : floorLog2 num den - format.fractionBits ≤ format.unit num den := le_max_right _ _
    push_cast
    omega
  · rcases max_choice format.leastExponent (floorLog2 num den - format.fractionBits) with h | h
    · exact .inl h
    · refine .inr (le_trans (le_of_eq ?_) hlow)
      rw [unit, h]
      congr 1
      ring

include hnum hden in
theorem significand_bounds :
    format.significand num den ≤ 2 ^ (format.fractionBits + 1) ∧
      (format.unit num den = format.leastExponent ∨
        2 ^ format.fractionBits ≤ format.significand num den) := by
  obtain ⟨hleast, hgreatest⟩ := abs_le.mp (significand_near format num hden)
  obtain ⟨hhigh, hlow⟩ := scaled_bounds format hnum hden
  constructor
  · have hlt : (format.significand num den : ℚ) < (2 ^ (format.fractionBits + 1) : ℕ) + 1 := by
      push_cast
      linarith
    exact_mod_cast Nat.lt_succ_iff.mp (by exact_mod_cast hlt)
  · refine hlow.imp_right fun hlow => ?_
    have hlt : ((2 ^ format.fractionBits : ℕ) : ℚ) < format.significand num den + 1 := by
      push_cast
      linarith
    exact_mod_cast Nat.lt_succ_iff.mp (by exact_mod_cast hlt)

include hnum hden in
/-- The value of the rank is the rounded multiple of the unit. -/
theorem value_nearestRank : format.value (format.nearestRank num den) =
    format.significand num den * 2 ^ format.unit num den := by
  obtain ⟨hle, hnormal⟩ := significand_bounds format hnum hden
  rw [nearestRank_eq hnum]
  exact value_eq hle (le_max_left _ _) hnormal

include hnum hden in
/-- Rounding changes a quotient by half a unit at most. -/
theorem value_nearestRank_sub :
    |format.value (format.nearestRank num den) - num / den| ≤ 2 ^ format.unit num den / 2 := by
  have hunit : (0 : ℚ) < 2 ^ format.unit num den := by positivity
  have hnear := significand_near format num hden
  rw [value_nearestRank format hnum hden]
  calc |(format.significand num den * 2 ^ format.unit num den - num / den : ℚ)|
      = |(format.significand num den : ℚ) - num / den / 2 ^ format.unit num den| *
          2 ^ format.unit num den := by
        rw [← abs_of_pos hunit, ← abs_mul, abs_of_pos hunit, sub_mul, div_mul_cancel₀ _ hunit.ne']
    _ ≤ 1 / 2 * 2 ^ format.unit num den := by gcongr
    _ = 2 ^ format.unit num den / 2 := by ring

include hnum hden in
/-- Above the subnormal values, rounding changes a quotient by one part in `2 ^ (f + 1)` at most. -/
theorem value_nearestRank_near
    (hnormal : (2 : ℚ) ^ (format.leastExponent + format.fractionBits) ≤ num / den) :
    |format.value (format.nearestRank num den) - num / den| ≤
      num / den / 2 ^ (format.fractionBits + 1) := by
  have hunit : (0 : ℚ) < 2 ^ format.unit num den := by positivity
  have hlow : (2 : ℚ) ^ format.fractionBits * 2 ^ format.unit num den ≤ num / den := by
    rcases (scaled_bounds format hnum hden).2 with hleast | hlow
    · rwa [hleast, mul_comm, ← zpow_natCast, ← zpow_add₀ two_ne_zero]
    · rwa [le_div_iff₀ hunit] at hlow
  refine (value_nearestRank_sub format hnum hden).trans ?_
  rw [le_div_iff₀ (by positivity), pow_succ]
  linarith

include hnum hden in
/-- The exponent of the unit, from bounds for the quotient. -/
theorem unit_eq {exponent : ℤ} (hleast : format.leastExponent ≤ exponent)
    (hhigh : (num / den : ℚ) < 2 ^ (exponent + format.fractionBits + 1))
    (hlow : exponent = format.leastExponent ∨
      (2 : ℚ) ^ (exponent + format.fractionBits) ≤ num / den) :
    format.unit num den = exponent := by
  obtain ⟨hfloor, hceil⟩ := floorLog2_spec hnum hden
  have hlt := (zpow_lt_zpow_iff_right₀ (one_lt_two (α := ℚ))).mp (hfloor.trans_lt hhigh)
  rw [unit]
  rcases hlow with rfl | hlow
  · exact max_eq_left (by omega)
  · have hge := (zpow_lt_zpow_iff_right₀ (one_lt_two (α := ℚ))).mp (hlow.trans_lt hceil)
    omega

include hnum hden in
/-- A quotient that is a value of the format is rounded to itself. -/
theorem value_nearestRank_of_eq {significand : ℕ} {exponent : ℤ}
    (hlt : significand < 2 ^ (format.fractionBits + 1)) (hleast : format.leastExponent ≤ exponent)
    (heq : (num / den : ℚ) = significand * 2 ^ exponent) :
    format.value (format.nearestRank num den) = num / den := by
  have hunit : format.unit num den ≤ exponent := by
    have hfloor := (floorLog2_spec hnum hden).1
    have hhigh : (num / den : ℚ) < 2 ^ (format.fractionBits + 1 + exponent : ℤ) := by
      rw [heq, zpow_add₀ two_ne_zero]
      gcongr
      exact_mod_cast hlt
    have hlt := (zpow_lt_zpow_iff_right₀ (one_lt_two (α := ℚ))).mp (hfloor.trans_lt hhigh)
    exact max_le hleast (by omega)
  obtain ⟨shift, rfl⟩ := Int.le.dest hunit
  have hscaled : (num / den / 2 ^ format.unit num den : ℚ) = (significand * 2 ^ shift : ℕ) := by
    rw [div_eq_iff (by positivity), heq, zpow_add₀ two_ne_zero, zpow_natCast]
    push_cast
    ring
  have hsignificand : format.significand num den = significand * 2 ^ shift := by
    refine significand_eq format hden ?_ fun htie => ?_
    · rw [hscaled, sub_self, abs_zero]
      norm_num
    · rw [hscaled, sub_self, abs_zero] at htie
      norm_num at htie
  rw [value_nearestRank format hnum hden, hsignificand, ← hscaled, div_mul_cancel₀]
  positivity

include hnum hden in
/-- A quotient near enough to a multiple of its unit is rounded to this multiple. -/
theorem nearestRank_of_near {n : ℕ} {exponent : ℤ} (hunit : format.unit num den = exponent)
    (hnear : |(n : ℚ) * 2 ^ exponent - num / den| ≤ 2 ^ exponent / 2)
    (htie : |(n : ℚ) * 2 ^ exponent - num / den| = 2 ^ exponent / 2 → n % 2 = 0) :
    format.nearestRank num den =
      (exponent - format.leastExponent).toNat * 2 ^ format.fractionBits + n := by
  have hpos : (0 : ℚ) < 2 ^ exponent := by positivity
  have hscale : |(n : ℚ) * 2 ^ exponent - num / den| =
      |(n : ℚ) - num / den / 2 ^ exponent| * 2 ^ exponent := by
    rw [← abs_of_pos hpos, ← abs_mul, abs_of_pos hpos, sub_mul, div_mul_cancel₀ _ hpos.ne']
  rw [hscale] at hnear htie
  rw [nearestRank_eq hnum, hunit, significand_eq format hden]
  · rw [hunit]
    nlinarith
  · rw [hunit]
    exact fun heq => htie (by rw [heq]; ring)

section Between

variable {rank significand : ℕ} {exponent : ℤ}
  (hexpands : format.Expands rank significand exponent)

include hnum hden hexpands

/-- Between the midpoint above the value of a rank and the end of its binade, the unit is that of
the rank. -/
theorem unit_of_midpoint_le (hlow : format.midpoint rank ≤ num / den)
    (hhigh : (num / den : ℚ) < 2 ^ (exponent + format.fractionBits + 1)) :
    format.unit num den = exponent := by
  refine unit_eq format hnum hden hexpands.least_le hhigh
    (hexpands.normal.imp_right fun hnormal => le_trans ?_ hlow)
  have hnormal' : (2 ^ format.fractionBits : ℚ) ≤ significand := by exact_mod_cast hnormal
  rw [hexpands.midpoint_eq, zpow_add₀ two_ne_zero, mul_comm, zpow_natCast]
  gcongr
  linarith

/-- With this unit, a quotient is rounded to the next rank up to one and a half units above the
value. -/
theorem nearestRank_of_unit (hunit : format.unit num den = exponent)
    (hlow : format.midpoint rank ≤ num / den)
    (hhigh : (num / den : ℚ) ≤ (significand + 1 + 1 / 2) * 2 ^ exponent)
    (htie : format.midpoint rank = num / den ∨
      (num / den : ℚ) = (significand + 1 + 1 / 2) * 2 ^ exponent → (significand + 1) % 2 = 0) :
    format.nearestRank num den = rank + 1 := by
  have hpos : (0 : ℚ) < 2 ^ exponent := by positivity
  rw [hexpands.midpoint_eq] at hlow htie
  rw [nearestRank_of_near format hnum hden hunit (n := significand + 1), hexpands.rank_eq,
    add_assoc]
  · rw [abs_le]
    push_cast
    constructor <;> linarith
  · intro heq
    push_cast at heq
    rcases abs_eq (by positivity) |>.mp heq with heq | heq
    · exact htie (.inl (by linarith))
    · exact htie (.inr (by linarith))

end Between

include hnum hden in
/-- A quotient between the midpoints around the value of a rank is rounded to this rank, and so is
one on a midpoint if the rank is even. -/
theorem nearestRank_of_between (hbits : 0 < format.fractionBits) {rank : ℕ}
    (hlow : format.midpoint rank ≤ num / den)
    (hhigh : (num / den : ℚ) ≤ format.midpoint (rank + 1))
    (htie : format.midpoint rank = num / den ∨ (num / den : ℚ) = format.midpoint (rank + 1) →
      (rank + 1) % 2 = 0) :
    format.nearestRank num den = rank + 1 := by
  have hexpands := format.expands_expand rank
  generalize (format.expand rank).1 = significand at hexpands
  generalize (format.expand rank).2 = exponent at hexpands
  have hpos : (0 : ℚ) < 2 ^ exponent := by positivity
  have heven : 2 ∣ 2 ^ format.fractionBits := dvd_pow_self 2 hbits.ne'
  have hbinade (exponent : ℤ) : (2 : ℚ) ^ (exponent + format.fractionBits + 1) =
      2 ^ format.fractionBits * 2 * 2 ^ exponent := by
    rw [zpow_add_one₀ two_ne_zero, zpow_add₀ two_ne_zero, zpow_natCast]
    ring
  rcases hexpands.succ with hnext | ⟨hcarry, hnext⟩
  · -- The next rank lies in the same binade.
    rw [hnext.midpoint_eq, Nat.cast_succ] at hhigh htie
    have hbelow : (num / den : ℚ) < 2 ^ (exponent + format.fractionBits + 1) := by
      have hbound : ((significand + 1 + 1 : ℕ) : ℚ) ≤ (2 ^ (format.fractionBits + 1) : ℕ) := by
        exact_mod_cast hnext.significand_lt
      push_cast [pow_succ] at hbound
      rw [hbinade]
      refine hhigh.trans_lt ?_
      gcongr
      linarith
    exact nearestRank_of_unit format hnum hden hexpands
      (unit_of_midpoint_le format hnum hden hexpands hlow hbelow) hlow hhigh fun hends =>
        hnext.mod_two hbits ▸ htie hends
  · -- The next rank begins a binade.
    have hcarry' : (significand + 1 : ℚ) = 2 ^ format.fractionBits * 2 := by exact_mod_cast hcarry
    rcases lt_or_ge (num / den : ℚ) (2 ^ (exponent + format.fractionBits + 1)) with hbelow | habove
    · have hlt : (num / den : ℚ) < (significand + 1 + 1 / 2) * 2 ^ exponent := by
        rw [hbinade, ← hcarry'] at hbelow
        linarith
      exact nearestRank_of_unit format hnum hden hexpands
        (unit_of_midpoint_le format hnum hden hexpands hlow hbelow) hlow hlt.le fun _ => by omega
    · rw [hnext.midpoint_eq] at hhigh
      push_cast at hhigh
      have hone : (1 : ℚ) ≤ 2 ^ format.fractionBits := one_le_pow₀ one_le_two
      have hunit : format.unit num den = exponent + 1 := by
        refine unit_eq format hnum hden hnext.least_le (hhigh.trans_lt ?_)
          (.inr (le_trans (by rw [add_right_comm]) habove))
        rw [hbinade]
        gcongr
        linarith
      rw [hbinade] at habove
      rw [zpow_add_one₀ two_ne_zero] at hhigh
      rw [nearestRank_of_near format hnum hden hunit (n := 2 ^ format.fractionBits),
        ← hnext.rank_eq]
      · rw [abs_le, zpow_add_one₀ two_ne_zero]
        push_cast
        constructor <;> linarith
      · intro _
        omega

end Nearest

end BinaryFormat

end OpGraph
