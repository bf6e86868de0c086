import OpGraph.Proofs.Json.Decimals
import OpGraph.Proofs.Json.Decoding
import OpGraph.Proofs.Number.NearMisses

/-!
# Singles are read back

The decimal that is written for a finite single is read as a double that lies on the same side of
the midpoints around the single. The single nearest to this double is the one that was written.
-/

namespace OpGraph

/-! ## Sizes -/

section Sizes

variable {rank : ℕ} {decimal : Decimal}

theorem midpoint_low (rank : ℕ) : (2 : ℚ) ^ (-150 : ℤ) ≤ binary32.midpoint rank := by
  have hexpands := binary32.expands_expand rank
  have hleast : -149 ≤ (binary32.expand rank).2 := hexpands.least_le
  calc (2 : ℚ) ^ (-150 : ℤ) ≤ 2 ^ ((binary32.expand rank).2 - 1) :=
        zpow_le_zpow_right₀ one_le_two (by omega)
    _ ≤ binary32.midpoint rank := by
        rw [BinaryFormat.midpoint, BinaryFormat.value]
        exact le_add_of_nonneg_left (by positivity)

theorem midpoint_high (hrank : rank < binary32.infinityRank) :
    binary32.midpoint rank ≤ 2 ^ (128 : ℤ) := by
  have hexpands := binary32.expands_expand rank
  have hsignificand : (((binary32.expand rank).1 + 1 : ℕ) : ℚ) ≤ (2 ^ 24 : ℕ) := by
    exact_mod_cast Nat.succ_le_of_lt hexpands.significand_lt
  push_cast at hsignificand
  rw [hexpands.midpoint_eq]
  calc (((binary32.expand rank).1 + 1 / 2) * 2 ^ (binary32.expand rank).2 : ℚ)
      ≤ 2 ^ 24 * 2 ^ (104 : ℤ) := by
        gcongr
        · linarith
        · exact one_le_two
        · exact exponent_le_of_finite hexpands hrank
    _ = 2 ^ (128 : ℤ) := by
        rw [← zpow_natCast, ← zpow_add₀ two_ne_zero]
        norm_num

/-- A decimal that is written for a finite single has at most nine digits and lies in its range. -/
structure IsSized (decimal : Decimal) : Prop where
  pos : 0 < decimal.coefficient
  coefficient_lt : decimal.coefficient < 10 ^ 9
  low : (2 : ℚ) ^ (-150 : ℤ) ≤ decimal.value
  high : decimal.value ≤ 2 ^ (128 : ℤ)

theorem isSized_of_fits (hfits : (binary32.roundingInterval (rank + 1)).Fits decimal)
    (hrank : rank + 1 < binary32.infinityRank) : IsSized decimal := by
  have hsurrounds := binary32.roundingInterval_surrounds (by decide) rank
  obtain ⟨hlow, hhigh, -⟩ := hsurrounds.between hfits.contains
  have hexpands := binary32.expands_expand (rank + 1)
  have hinterval := BinaryFormat.roundingInterval_of_expands hexpands
  have hlt : (binary32.expand (rank + 1)).1 < 2 ^ 24 := hexpands.significand_lt
  have hgreatest : (binary32.roundingInterval (rank + 1)).high =
      4 * (binary32.expand (rank + 1)).1 + 2 := by rw [hinterval]
  have hcoefficient := hfits.coefficient_lt (by omega)
  exact ⟨Decimal.coefficient_pos ((BinaryFormat.midpoint_pos rank).trans_le hlow), by omega,
    (midpoint_low rank).trans hlow, hhigh.trans (midpoint_high hrank)⟩

theorem IsSized.exponent_le (hsized : IsSized decimal) : decimal.exponent.natAbs ≤ 60 := by
  have hten : (1 : ℚ) < 10 := by norm_num
  have hpower : (0 : ℚ) < 10 ^ decimal.exponent := by positivity
  have hpos : (1 : ℚ) ≤ decimal.coefficient := by exact_mod_cast hsized.pos
  have hlt : (decimal.coefficient : ℚ) < 10 ^ (9 : ℤ) := by exact_mod_cast hsized.coefficient_lt
  have habove : (10 : ℚ) ^ decimal.exponent < 10 ^ (60 : ℤ) :=
    calc (10 : ℚ) ^ decimal.exponent ≤ decimal.value := le_mul_of_one_le_left hpower.le hpos
      _ ≤ 2 ^ (128 : ℤ) := hsized.high
      _ < 10 ^ (60 : ℤ) := by norm_num
  have hbelow : (10 : ℚ) ^ (-51 : ℤ) < 10 ^ (9 + decimal.exponent) :=
    calc (10 : ℚ) ^ (-51 : ℤ) < 2 ^ (-150 : ℤ) := by norm_num
      _ ≤ decimal.value := hsized.low
      _ < 10 ^ (9 : ℤ) * 10 ^ decimal.exponent := by rw [Decimal.value]; gcongr
      _ = 10 ^ (9 + decimal.exponent) := (zpow_add₀ (by norm_num) _ _).symm
  have hlt := (zpow_lt_zpow_iff_right₀ hten).mp habove
  have hgt := (zpow_lt_zpow_iff_right₀ hten).mp hbelow
  omega

theorem le_of_five_pow_dvd {k n a : ℕ} (hn : 0 < n) (hn_lt : n < 10 ^ 9)
    (hdvd : 5 ^ k ∣ n * 2 ^ a) : k ≤ 22 := by
  have hcoprime : Nat.Coprime (5 ^ k) (2 ^ a) := Nat.Coprime.pow _ _ (by decide)
  have hle := Nat.le_of_dvd hn (hcoprime.dvd_of_dvd_mul_right hdvd)
  by_contra hlarge
  have hpow : 5 ^ 23 ≤ 5 ^ k := Nat.pow_le_pow_right (by decide) (by omega)
  omega

/-- A short decimal that is a short multiple of a power of two has a small exponent. -/
theorem exponent_le_of_eq {d m : ℕ} {p j : ℤ} (hd : 0 < d) (hd_lt : d < 10 ^ 9) (hm : 0 < m)
    (hm_lt : m < 2 ^ 25) (heq : (d * 10 ^ p : ℚ) = m * 2 ^ j) : p.natAbs ≤ 22 := by
  obtain ⟨scale, hscale, htwo, hten⟩ := exists_common_scale j p
  have hnat : d * (2 ^ (-j).toNat * 10 ^ p.toNat) = m * (2 ^ j.toNat * 10 ^ (-p).toNat) := by
    have hcast : ((d * (2 ^ (-j).toNat * 10 ^ p.toNat) : ℕ) : ℚ) =
        (m * (2 ^ j.toNat * 10 ^ (-p).toNat) : ℕ) := by
      rw [Nat.cast_mul, Nat.cast_mul m, htwo, hten, ← mul_assoc, ← mul_assoc, heq]
    exact_mod_cast hcast
  have hfive (k : ℕ) : 5 ^ k ∣ 10 ^ k := pow_dvd_pow_of_dvd (by decide) k
  rcases lt_or_ge p 0 with hneg | hnonneg
  · have hle : (-p).toNat ≤ 22 := by
      refine le_of_five_pow_dvd hd hd_lt (a := (-j).toNat) ?_
      rw [Int.toNat_of_nonpos hneg.le, pow_zero, mul_one] at hnat
      rw [hnat]
      exact Dvd.dvd.mul_left (Dvd.dvd.mul_left (hfive _) _) _
    omega
  · have hle : p.toNat ≤ 22 := by
      refine le_of_five_pow_dvd hm (hm_lt.trans (by decide)) (a := j.toNat) ?_
      rw [Int.toNat_of_nonpos (by omega : -p ≤ 0), pow_zero, mul_one] at hnat
      rw [← hnat]
      exact Dvd.dvd.mul_left (Dvd.dvd.mul_left (hfive _) _) _
    omega

end Sizes

/-! ## From the text to the double -/

section Reading

variable {decimal : Decimal}

/-- The decimal that is read has the same value, and its digits fit into a double. -/
theorem NumberToken.Stands.fits (hsized : IsSized decimal) {token : NumberToken}
    (hstands : token.Stands decimal singleLayout.greatestPlain) :
    token.decimal.value = decimal.value ∧ 0 < token.decimal.coefficient ∧
      token.decimal.coefficient < 2 ^ 53 ∧ token.decimal.exponent.natAbs ≤ 60 ∧
        (decimal.exponent.natAbs ≤ 22 → token.decimal.exponent.natAbs ≤ 22) := by
  have hpos := hsized.pos
  have hlt := hsized.coefficient_lt
  rcases hstands.decimal_eq with heq | ⟨hnonneg, hplain, heq⟩
  · rw [heq]
    exact ⟨rfl, hpos, by omega, hsized.exponent_le, id⟩
  · obtain ⟨d, p⟩ := decimal
    obtain ⟨places, rfl⟩ := Int.eq_ofNat_of_zero_le hnonneg
    rw [heq]
    refine ⟨?_, Nat.mul_pos hpos (Nat.pow_pos (by decide)), ?_, show 1 ≤ 60 by decide,
      fun _ => show 1 ≤ 22 by decide⟩
    · simp only [Decimal.value, Int.toNat_natCast]
      push_cast
      rw [zpow_neg_one, zpow_natCast, pow_succ]
      ring
    · have hdigits : d < 10 ^ (Nat.toDigits 10 d).length :=
        (Nat.length_toDigits_le_iff (by decide) Nat.length_toDigits_pos).mp le_rfl
      have hplaces : (Nat.toDigits 10 d).length + (places + 1) ≤ 14 := by
        change (places : ℤ) + (Nat.toDigits 10 d).length - 1 ≤ 12 at hplain
        omega
      calc d * 10 ^ (places + 1)
          < 10 ^ (Nat.toDigits 10 d).length * 10 ^ (places + 1) := by gcongr
        _ = 10 ^ ((Nat.toDigits 10 d).length + (places + 1)) := (pow_add _ _ _).symm
        _ ≤ 10 ^ 14 := Nat.pow_le_pow_right (by decide) hplaces
        _ < 2 ^ 53 := by decide

/-- A written decimal is read as a double that is close to it. -/
theorem exists_closeRank (hsized : IsSized decimal) {token : NumberToken}
    (hstands : token.Stands decimal singleLayout.greatestPlain) :
    ∃ rank, token.value? = some (.double (.ranked token.negative (Fin.ofNat _ rank))) ∧
      CloseRank decimal rank := by
  obtain ⟨hvalue, hpos, hlt, hexponent, hsmall⟩ := hstands.fits hsized
  obtain ⟨rank, hrank, hclose⟩ := scaledRank?_close hpos hlt (hexponent.trans (by decide))
    (hvalue ▸ (zpow_le_zpow_right₀ one_le_two (by decide)).trans hsized.low)
    (hvalue ▸ hsized.high.trans (zpow_le_zpow_right₀ one_le_two (by decide)))
  refine ⟨rank, ?_, hclose.finite, hvalue ▸ hclose.close,
    fun significand exponent hlt hleast heq hp =>
      hvalue ▸ hclose.exact significand exponent hlt hleast (hvalue ▸ heq) (hsmall hp)⟩
  have hexponent_lt : token.tenExponent.natAbs < 2 ^ 31 := by
    have hle := hstands.exponent_le
    have hdigits : (Nat.toDigits 10 decimal.coefficient).length ≤ 9 :=
      (Nat.length_toDigits_le_iff (by decide) (by decide)).mpr hsized.coefficient_lt
    have hp := hsized.exponent_le
    omega
  have hdouble := NumberToken.double?_eq hpos (hlt.trans (by decide)) hexponent_lt hrank
  simp only [NumberToken.value?, hstands.broken, Bool.false_and, Bool.false_eq_true, if_false,
    hdouble, Option.map_some]

end Reading

/-! ## From the double to the single -/

theorem Binary.convert_ranked {format target : BinaryFormat} (negative : Bool)
    {rank : Fin (format.infinityRank + 1)} (hfinite : rank.val < format.infinityRank) :
    (Binary.ranked negative rank).convert target =
      .ofRatio negative (format.ratio rank).1 (format.ratio rank).2 := by
  rw [convert, if_neg hfinite.ne]
  rfl

/-- Apart from the near misses, the double that is read for a single is rounded to it. -/
theorem convert_of_closeRank {rank : ℕ} {decimal : Decimal}
    (hfits : (binary32.roundingInterval (rank + 1)).Fits decimal)
    (hrank : rank + 1 < binary32.infinityRank)
    (hbelow : binary32.expand rank ∉ nearMisses) (habove : binary32.expand (rank + 1) ∉ nearMisses)
    {double : ℕ} (hclose : CloseRank decimal double) (negative : Bool) :
    (Binary.ranked negative (Fin.ofNat _ double) : Binary64).convert binary32 =
      .ranked negative ⟨rank + 1, hrank.trans (Nat.lt_succ_self _)⟩ := by
  have hsized := isSized_of_fits hfits hrank
  have hval : (Fin.ofNat (binary64.infinityRank + 1) double).val = double :=
    Nat.mod_eq_of_lt (hclose.finite.trans (Nat.lt_succ_self _))
  have hpos : 0 < binary64.value double := by
    have hdecimal : 0 < decimal.value := lt_of_lt_of_le (by positivity) hsized.low
    have hlow := (abs_le.mp hclose.close).1
    rw [doubleError] at hlow
    linarith
  have hnearest : binary32.nearestRank (binary64.ratio double).1 (binary64.ratio double).2 =
      rank + 1 := by
    refine nearestRank_of_close hfits hrank hbelow habove (BinaryFormat.ratio_num_pos hpos)
      (BinaryFormat.ratio_den_pos _ _) ?_ ?_
    · rw [BinaryFormat.ratio_div]
      exact hclose.close
    · rw [BinaryFormat.ratio_div]
      intro hend
      obtain ⟨index, hindex⟩ : ∃ index, decimal.value = binary32.midpoint index :=
        hend.elim (fun heq => ⟨_, heq.symm⟩) fun heq => ⟨_, heq⟩
      have hexpands := binary32.expands_expand index
      have hleast : -149 ≤ (binary32.expand index).2 := hexpands.least_le
      have hlt : (binary32.expand index).1 < 2 ^ 24 := hexpands.significand_lt
      have heq : decimal.value = (2 * (binary32.expand index).1 + 1 : ℕ) *
          2 ^ ((binary32.expand index).2 - 1) := by
        rw [hindex, hexpands.midpoint_eq, zpow_sub_one₀ two_ne_zero]
        push_cast
        ring
      exact hclose.exact _ _ (by omega) (by omega) heq
        (exponent_le_of_eq hsized.pos hsized.coefficient_lt (Nat.succ_pos _) (by omega) heq)
  rw [Binary.convert_ranked _ (by rw [hval]; exact hclose.finite), hval, Binary.ofRatio]
  simp only [hnearest, min_eq_left hrank.le]

/-- The single is read back from its digits. -/
def Binary32.Rereads (value : Binary32) : Prop :=
  ∃ double : Binary64, (JsonNumber.single value).reread? = some (.double double) ∧
    double.convert binary32 = value

instance (value : Binary32) : Decidable value.Rereads :=
  match hread : (JsonNumber.single value).reread? with
  | some (.double double) =>
      decidable_of_iff (double.convert binary32 = value) <| by
        rw [Binary32.Rereads, hread]
        exact ⟨fun heq => ⟨double, rfl, heq⟩, fun ⟨_, hdouble, heq⟩ => by cases hdouble; exact heq⟩
  | some (.integer _) => isFalse fun ⟨_, hdouble, _⟩ => by rw [hread] at hdouble; cases hdouble
  | some (.single _) => isFalse fun ⟨_, hdouble, _⟩ => by rw [hread] at hdouble; cases hdouble
  | none => isFalse fun ⟨_, hdouble, _⟩ => by rw [hread] at hdouble; cases hdouble

/-- The ranks of the singles on both sides of a near miss. -/
def besideNearMisses : List ℕ :=
  [363742205, 363742206, 372130813, 372130814, 853298129, 853298130]

theorem mem_besideNearMisses {rank : ℕ} (hnear : binary32.expand rank ∈ nearMisses) :
    rank ∈ besideNearMisses ∧ rank + 1 ∈ besideNearMisses := by
  have hrank := (binary32.expands_expand rank).rank_eq
  simp only [nearMisses, List.mem_cons, List.not_mem_nil, or_false] at hnear
  rcases hnear with heq | heq | heq <;> rw [heq] at hrank <;>
    · have hleast : binary32.leastExponent = -149 := by decide
      rw [hleast] at hrank
      norm_num at hrank
      subst hrank
      decide

theorem besideNearMisses_reread : ∀ rank ∈ besideNearMisses, ∀ negative,
    Binary32.Rereads (.ranked negative (Fin.ofNat _ rank)) := by
  decide +kernel

theorem zero_rereads : ∀ negative, Binary32.Rereads (.ranked negative 0) := by decide +kernel

theorem chars_ranked {rank : ℕ} (hrank : rank + 1 < binary32.infinityRank) (negative : Bool) :
    (JsonNumber.single (.ranked negative ⟨rank + 1, hrank.trans (Nat.lt_succ_self _)⟩)).chars =
      (if negative then ['-'] else []) ++ singleLayout.digits
        ((binary32.roundingInterval (rank + 1)).shortest singleLayout.tie) := by
  have hfinite : (Binary.ranked negative ⟨rank + 1, hrank.trans (Nat.lt_succ_self _)⟩ :
      Binary32).isFinite = true := decide_eq_true hrank
  simp only [JsonNumber.chars, hfinite, if_true, DecimalLayout.chars, Nat.succ_ne_zero, if_false,
    hrank.ne]

/-- Every finite single is read back from its digits. -/
theorem Binary32.rereads_of_isFinite {value : Binary32} (hfinite : value.isFinite = true) :
    value.Rereads := by
  obtain _ | ⟨negative, rank, hlast⟩ := value
  · cases hfinite
  have hrank : rank < binary32.infinityRank := of_decide_eq_true hfinite
  obtain _ | rank := rank
  · exact zero_rereads negative
  by_cases hbeside : rank + 1 ∈ besideNearMisses
  · have hrereads := besideNearMisses_reread _ hbeside negative
    rwa [show Fin.ofNat (binary32.infinityRank + 1) (rank + 1) = ⟨rank + 1, hlast⟩ from
      Fin.ext (Nat.mod_eq_of_lt hlast)] at hrereads
  have hsurrounds := binary32.roundingInterval_surrounds (by decide) rank
  have hfits := RoundingInterval.shortest_fits hsurrounds.proper singleLayout.tie
  have hsized := isSized_of_fits hfits hrank
  obtain ⟨token, hscan, hnegative, hstands⟩ :=
    DecimalLayout.scan_digits hsized.pos negative singleLayout
  obtain ⟨double, hvalue, hclose⟩ := exists_closeRank hsized hstands
  refine ⟨.ranked negative (Fin.ofNat _ double), ?_, convert_of_closeRank hfits hrank
    (fun hnear => hbeside (mem_besideNearMisses hnear).2)
    (fun hnear => hbeside (mem_besideNearMisses hnear).1) hclose negative⟩
  have hscan' : NumberToken.scan (JsonNumber.single (.ranked negative ⟨rank + 1, hlast⟩)).chars =
      .ok (token, []) := by
    rw [chars_ranked hrank]
    cases negative
    · exact NumberToken.scan_of_scanUnsigned hscan
    · exact hscan
  rw [JsonNumber.reread?, hscan', ← hnegative]
  exact hvalue

theorem Decoder.single_restores {value : Binary32} (hfinite : value.isFinite = true) :
    single.Restores (.single value) value := by
  obtain ⟨double, hread, hconvert⟩ := Binary32.rereads_of_isFinite hfinite
  refine ⟨Option.isSome_iff_exists.mpr ⟨_, hread⟩, rfl, fun source => ?_⟩
  rw [Json.single, Json.reread, hread]
  exact congrArg Except.ok hconvert

end OpGraph
