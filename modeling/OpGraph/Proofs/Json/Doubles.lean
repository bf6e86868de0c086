import OpGraph.Json.NumberText
import OpGraph.Proofs.Number.Shortest

/-!
# Doubles of decimals

A decimal is turned into a double by a product or a quotient with a power of ten. Both this power
and the result are rounded, so the double differs from the decimal by little more than one unit in
the last place. If the power is small it is exact, and so is a result that is a double.
-/

namespace OpGraph

/-! ## Rounded operations -/

namespace BinaryFormat

variable (format : BinaryFormat)

theorem ratio_den_pos (rank : ℕ) : 0 < (format.ratio rank).2 := Nat.two_pow_pos _

theorem ratio_div (rank : ℕ) :
    ((format.ratio rank).1 : ℚ) / (format.ratio rank).2 = format.value rank := by
  have hscale := pow_toNat (two_ne_zero : (2 : ℚ) ≠ 0) (format.expand rank).2
  simp only [ratio, Nat.pow_eq, Nat.cast_mul, Nat.cast_pow, Nat.cast_ofNat]
  rw [hscale, value, div_eq_iff (by positivity), mul_assoc]

variable {format} {rank : ℕ}

theorem mulRank_eq (rank rank' : ℕ) : format.mulRank rank rank' =
    format.nearestRank ((format.ratio rank).1 * (format.ratio rank').1)
      ((format.ratio rank).2 * (format.ratio rank').2) := rfl

theorem divRank_eq (rank rank' : ℕ) : format.divRank rank rank' =
    format.nearestRank ((format.ratio rank).1 * (format.ratio rank').2)
      ((format.ratio rank).2 * (format.ratio rank').1) := rfl

theorem mulRank_quotient (format : BinaryFormat) (rank rank' : ℕ) :
    (((format.ratio rank).1 * (format.ratio rank').1 : ℕ) : ℚ) /
      ((format.ratio rank).2 * (format.ratio rank').2 : ℕ) =
        format.value rank * format.value rank' := by
  rw [Nat.cast_mul, Nat.cast_mul, mul_div_mul_comm, ratio_div, ratio_div]

theorem divRank_quotient (format : BinaryFormat) (rank rank' : ℕ) :
    (((format.ratio rank).1 * (format.ratio rank').2 : ℕ) : ℚ) /
      ((format.ratio rank).2 * (format.ratio rank').1 : ℕ) =
        format.value rank / format.value rank' := by
  rw [Nat.cast_mul, Nat.cast_mul, mul_div_mul_comm, ratio_div, ← inv_div, ratio_div, div_eq_mul_inv]

theorem ratio_num_pos (hpos : 0 < format.value rank) : 0 < (format.ratio rank).1 := by
  rw [← ratio_div] at hpos
  refine Nat.pos_of_ne_zero fun hzero => hpos.ne' ?_
  rw [hzero, Nat.cast_zero, zero_div]

/-- Quotients far below infinity are rounded to finite values. -/
theorem nearestRank_le {num den : ℕ} (hnum : 0 < num) (hden : 0 < den) {exponent : ℤ}
    (hleast : format.leastExponent ≤ exponent)
    (hhigh : (num / den : ℚ) < 2 ^ (exponent + format.fractionBits + 1)) :
    format.nearestRank num den ≤ (exponent - format.leastExponent).toNat * 2 ^ format.fractionBits +
      2 ^ (format.fractionBits + 1) := by
  have hfloor := (floorLog2_spec hnum hden).1
  have hlt := (zpow_lt_zpow_iff_right₀ (one_lt_two (α := ℚ))).mp (hfloor.trans_lt hhigh)
  have hunit : format.unit num den ≤ exponent := max_le hleast (by omega)
  rw [nearestRank_eq hnum]
  gcongr ?_ * _ + ?_
  · exact Int.toNat_le_toNat (by omega)
  · exact (significand_bounds format hnum hden).1

end BinaryFormat

/-- The relative error of a double that is made from a decimal. -/
def doubleError : ℚ := 33 / 2 ^ 57

section Double

variable {num den : ℕ} (hnum : 0 < num) (hden : 0 < den)

include hnum hden

theorem double_near (hlow : (2 : ℚ) ^ (-300 : ℤ) ≤ num / den) :
    |binary64.value (binary64.nearestRank num den) - num / den| ≤ num / den / 2 ^ 53 := by
  refine BinaryFormat.value_nearestRank_near binary64 hnum hden (le_trans ?_ hlow)
  exact zpow_le_zpow_right₀ one_le_two (by decide)

theorem double_finite (hhigh : (num / den : ℚ) < 2 ^ (300 : ℤ)) :
    binary64.nearestRank num den < binary64.infinityRank := by
  have hle : binary64.nearestRank num den ≤
      (247 - binary64.leastExponent).toNat * 2 ^ 52 + 2 ^ 53 :=
    BinaryFormat.nearestRank_le hnum hden (by decide) hhigh
  exact hle.trans_lt (by decide)

theorem double_exact {significand : ℕ} {exponent : ℤ} (hlt : significand < 2 ^ 53)
    (hleast : -1074 ≤ exponent) (heq : (num / den : ℚ) = significand * 2 ^ exponent) :
    binary64.value (binary64.nearestRank num den) = num / den :=
  BinaryFormat.value_nearestRank_of_eq binary64 hnum hden hlt hleast heq

end Double

/-! ## Powers of ten -/

section TenPower

theorem tenPower_div_one (exponent : ℕ) :
    ((Nat.pow 10 exponent : ℕ) : ℚ) / (1 : ℕ) = 10 ^ exponent := by
  rw [Nat.pow_eq, Nat.cast_one, div_one, Nat.cast_pow, Nat.cast_ofNat]

theorem tenPower_near (exponent : ℕ) :
    |binary64.value (tenPowerRank exponent) - 10 ^ exponent| ≤ 10 ^ exponent / 2 ^ 53 := by
  have hpos : 0 < Nat.pow 10 exponent := Nat.pow_pos (by decide)
  have hlow : (2 : ℚ) ^ (-300 : ℤ) ≤ 10 ^ exponent :=
    (zpow_le_one_of_nonpos₀ one_le_two (by decide)).trans (one_le_pow₀ (by norm_num))
  have hnear := double_near hpos Nat.one_pos (tenPower_div_one exponent ▸ hlow)
  rwa [tenPower_div_one] at hnear

theorem tenPower_pos (exponent : ℕ) : 0 < binary64.value (tenPowerRank exponent) := by
  have hpos : (0 : ℚ) < 10 ^ exponent := by positivity
  have hlow := (abs_le.mp (tenPower_near exponent)).1
  linarith

/-- The powers of ten up to the twenty-second are doubles. -/
theorem tenPower_exact {exponent : ℕ} (hsmall : exponent ≤ 22) :
    binary64.value (tenPowerRank exponent) = 10 ^ exponent := by
  rw [← tenPower_div_one, tenPowerRank]
  refine double_exact (Nat.pow_pos (by decide)) Nat.one_pos (?_ : 5 ^ exponent < 2 ^ 53)
    (by omega : -1074 ≤ (exponent : ℤ)) ?_
  · exact (Nat.pow_le_pow_right (by decide) hsmall).trans_lt (by norm_num)
  · rw [tenPower_div_one, zpow_natCast]
    push_cast
    rw [← mul_pow]
    norm_num

end TenPower

/-! ## Decimals -/

section Errors

variable {factor power power' result : ℚ}

theorem product_close (hfactor : 0 < factor) (hpower : |power' - power| ≤ power / 2 ^ 53)
    (hresult : |result - factor * power'| ≤ factor * power' / 2 ^ 53) :
    |result - factor * power| ≤ doubleError * (factor * power) := by
  obtain ⟨hlow, hhigh⟩ := abs_le.mp hpower
  obtain ⟨hleast, hgreatest⟩ := abs_le.mp hresult
  have hpos : 0 ≤ power := by linarith
  have hbelow : factor * (power - power / 2 ^ 53) ≤ factor * power' := by gcongr; linarith
  have habove : factor * power' ≤ factor * (power + power / 2 ^ 53) := by gcongr; linarith
  have hproduct : 0 ≤ factor * power := by positivity
  rw [abs_le, doubleError]
  constructor <;> linarith

theorem quotient_close (hfactor : 0 < factor) (hpos : 0 < power)
    (hpower : |power' - power| ≤ power / 2 ^ 53)
    (hresult : |result - factor / power'| ≤ factor / power' / 2 ^ 53) :
    |result - factor / power| ≤ doubleError * (factor / power) := by
  obtain ⟨hlow, hhigh⟩ := abs_le.mp hpower
  obtain ⟨hleast, hgreatest⟩ := abs_le.mp hresult
  have hpos' : 0 < power' := by linarith
  have hquotient : 0 < factor / power' := by positivity
  -- The two quotients differ as the two powers do.
  have hratio : factor / power = factor / power' * (power' / power) := by field_simp
  have hbelow : 1 - 1 / 2 ^ 53 ≤ power' / power := by
    rw [le_div_iff₀ hpos]
    linarith
  have habove : power' / power ≤ 1 + 1 / 2 ^ 53 := by
    rw [div_le_iff₀ hpos]
    linarith
  have hleast' := mul_le_mul_of_nonneg_left hbelow hquotient.le
  have hgreatest' := mul_le_mul_of_nonneg_left habove hquotient.le
  rw [abs_le, doubleError, hratio]
  constructor <;> linarith

end Errors

/-- A rank is that of a double close to a decimal. -/
structure CloseRank (decimal : Decimal) (rank : ℕ) : Prop where
  finite : rank < binary64.infinityRank
  close : |binary64.value rank - decimal.value| ≤ doubleError * decimal.value
  exact : ∀ (significand : ℕ) (exponent : ℤ), significand < 2 ^ 53 → -1074 ≤ exponent →
    decimal.value = significand * 2 ^ exponent → decimal.exponent.natAbs ≤ 22 →
      binary64.value rank = decimal.value

theorem integer_exact {n : ℕ} (hpos : 0 < n) (hfits : n < 2 ^ 53) :
    binary64.value (binary64.nearestRank n 1) = n := by
  have hexact := double_exact hpos Nat.one_pos hfits (by decide : -1074 ≤ (0 : ℤ))
    (by rw [Nat.cast_one, div_one, zpow_zero, mul_one])
  rwa [Nat.cast_one, div_one] at hexact

section Scaled

variable {decimal : Decimal} (hlow : (2 : ℚ) ^ (-200 : ℤ) ≤ decimal.value)
  (hhigh : decimal.value ≤ 2 ^ (200 : ℤ))

include hlow hhigh

/-- Rounding a quotient that is itself close to a decimal. -/
theorem closeRank_of_quotient {num den : ℕ} (hnum : 0 < num) (hden : 0 < den)
    (hclose : ∀ result : ℚ, |result - num / den| ≤ num / den / 2 ^ 53 →
      |result - decimal.value| ≤ doubleError * decimal.value)
    (hexact : decimal.exponent.natAbs ≤ 22 → (num / den : ℚ) = decimal.value) :
    CloseRank decimal (binary64.nearestRank num den) := by
  have hpos : 0 < decimal.value := lt_of_lt_of_le (by positivity) hlow
  obtain ⟨hleast, hgreatest⟩ := abs_le.mp <| hclose (num / den) <| by
    rw [sub_self, abs_zero]
    positivity
  rw [doubleError] at hleast hgreatest
  refine ⟨double_finite hnum hden ?_, hclose _ (double_near hnum hden ?_), ?_⟩
  · calc (num / den : ℚ) ≤ decimal.value * 2 := by linarith
      _ ≤ 2 ^ (200 : ℤ) * 2 := by gcongr
      _ = 2 ^ (200 + 1 : ℤ) := (zpow_add_one₀ two_ne_zero _).symm
      _ < 2 ^ (300 : ℤ) := zpow_lt_zpow_right₀ one_lt_two (by decide)
  · calc (2 : ℚ) ^ (-300 : ℤ) ≤ 2 ^ (-200 - 1 : ℤ) := zpow_le_zpow_right₀ one_le_two (by decide)
      _ = 2 ^ (-200 : ℤ) * 2⁻¹ := zpow_sub_one₀ two_ne_zero _
      _ ≤ decimal.value * 2⁻¹ := by gcongr
      _ ≤ num / den := by linarith
  · intro significand exponent hlt hleast heq hsmall
    rw [← hexact hsmall] at heq ⊢
    exact double_exact hnum hden hlt hleast heq

end Scaled

section Parts

variable {d k : ℕ} (hd : 0 < d) (hfits : d < 2 ^ 53)

include hd hfits

theorem closeRank_divRank (hlow : (2 : ℚ) ^ (-200 : ℤ) ≤ Decimal.value ⟨d, -k⟩)
    (hhigh : Decimal.value ⟨d, -k⟩ ≤ 2 ^ (200 : ℤ)) :
    CloseRank ⟨d, -k⟩ (binary64.divRank (binary64.nearestRank d 1) (tenPowerRank k)) := by
  have hd' : (0 : ℚ) < d := by exact_mod_cast hd
  have hinteger := integer_exact hd hfits
  have hnum := BinaryFormat.ratio_num_pos (hinteger.symm ▸ hd')
  have hvalue : Decimal.value ⟨d, -k⟩ = d / 10 ^ k := by
    rw [Decimal.value, zpow_neg, zpow_natCast, div_eq_mul_inv]
  have hquotient := binary64.divRank_quotient (binary64.nearestRank d 1) (tenPowerRank k)
  rw [hinteger] at hquotient
  rw [BinaryFormat.divRank_eq]
  refine closeRank_of_quotient hlow hhigh (Nat.mul_pos hnum (BinaryFormat.ratio_den_pos _ _))
    (Nat.mul_pos (BinaryFormat.ratio_den_pos _ _) (BinaryFormat.ratio_num_pos (tenPower_pos k)))
    ?_ ?_
  · rw [hquotient, hvalue]
    exact fun result => quotient_close hd' (by positivity) (tenPower_near k)
  · intro hsmall
    rw [Int.natAbs_neg, Int.natAbs_natCast] at hsmall
    rw [hquotient, hvalue, tenPower_exact hsmall]

theorem closeRank_mulRank (hlow : (2 : ℚ) ^ (-200 : ℤ) ≤ Decimal.value ⟨d, k⟩)
    (hhigh : Decimal.value ⟨d, k⟩ ≤ 2 ^ (200 : ℤ)) :
    CloseRank ⟨d, k⟩ (binary64.mulRank (binary64.nearestRank d 1) (tenPowerRank k)) := by
  have hd' : (0 : ℚ) < d := by exact_mod_cast hd
  have hinteger := integer_exact hd hfits
  have hnum := BinaryFormat.ratio_num_pos (hinteger.symm ▸ hd')
  have hvalue : Decimal.value ⟨d, k⟩ = d * 10 ^ k := by rw [Decimal.value, zpow_natCast]
  have hquotient := binary64.mulRank_quotient (binary64.nearestRank d 1) (tenPowerRank k)
  rw [hinteger] at hquotient
  rw [BinaryFormat.mulRank_eq]
  refine closeRank_of_quotient hlow hhigh
    (Nat.mul_pos hnum (BinaryFormat.ratio_num_pos (tenPower_pos k)))
    (Nat.mul_pos (BinaryFormat.ratio_den_pos _ _) (BinaryFormat.ratio_den_pos _ _)) ?_ ?_
  · rw [hquotient, hvalue]
    exact fun result => product_close hd' (tenPower_near k)
  · intro hsmall
    rw [Int.natAbs_natCast] at hsmall
    rw [hquotient, hvalue, tenPower_exact hsmall]

end Parts

/-- A decimal of middle size whose digits fit into a double has a double close to it. -/
theorem scaledRank?_close {decimal : Decimal} (hpos : 0 < decimal.coefficient)
    (hfits : decimal.coefficient < 2 ^ 53) (hexponent : decimal.exponent.natAbs ≤ greatestTenPower)
    (hlow : (2 : ℚ) ^ (-200 : ℤ) ≤ decimal.value) (hhigh : decimal.value ≤ 2 ^ (200 : ℤ)) :
    ∃ rank, scaledRank? decimal.coefficient decimal.exponent = some rank ∧
      CloseRank decimal rank := by
  obtain ⟨d, p⟩ := decimal
  by_cases hneg : p < 0
  · obtain ⟨k, rfl⟩ : ∃ k : ℕ, p = -k := ⟨p.natAbs, by omega⟩
    rw [Int.natAbs_neg, Int.natAbs_natCast] at hexponent
    refine ⟨_, ?_, closeRank_divRank hpos hfits hlow hhigh⟩
    rw [scaledRank?]
    dsimp only
    rw [if_pos hneg, Int.natAbs_neg, Int.natAbs_natCast, divideByTenPower, if_pos hexponent]
  · obtain ⟨k, rfl⟩ := Int.eq_ofNat_of_zero_le (Int.not_lt.mp hneg)
    rw [Int.natAbs_natCast] at hexponent
    have hclose := closeRank_mulRank hpos hfits hlow hhigh
    refine ⟨_, ?_, hclose⟩
    rw [scaledRank?]
    dsimp only
    rw [if_neg hneg, if_pos (Int.ofNat_le.mpr hexponent), Int.toNat_natCast, if_pos hclose.finite]

end OpGraph
