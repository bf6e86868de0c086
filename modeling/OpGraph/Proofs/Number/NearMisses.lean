import OpGraph.Proofs.Number.Shortest

/-!
# Decimals next to midpoints

A decimal that is written for a single either is the midpoint between two singles or keeps a
distance from it, except next to three of them. The multiples of a power of ten near the odd
multiples of a power of two are found with the steps of the Euclidean algorithm.
-/

namespace OpGraph

/-! ## Multiples near multiples -/

/-- Whether `a * x` lies for no `x` below the bound between `l` and `r` above a multiple of `n`. -/
def misses : ℕ → ℕ → ℕ → ℕ → ℕ → ℕ → Bool
  | 0, _, _, _, _, _ => false
  | fuel + 1, a, n, l, r, bound =>
      if a = 0 then true
      else
        let first := (l + a - 1) / a
        if a * first ≤ r then bound ≤ first
        else misses fuel (n % a) a (a * first - r) (a * first - l)
          ((a * (bound - 1) - l) / n + 1)

section Misses

variable {a n l r bound : ℕ}

/-- The multiples of `a` that are at least `l` begin with the first one. -/
theorem first_le_iff (ha : 0 < a) (x : ℕ) : (l + a - 1) / a ≤ x ↔ l ≤ a * x := by
  rw [← Nat.lt_succ_iff, Nat.div_lt_iff_lt_mul ha, Nat.succ_mul, mul_comm a]
  omega

/-- A multiple of `a` above a multiple `n * y` is, after the whole parts of `n / a` are taken off,
one of `n % a * y` below a multiple of `a`. -/
theorem swap_multiples (ha : 0 < a) (hn : 0 < n) (hl : 0 < l) {first x y : ℕ}
    (hfirst : ∀ z, first ≤ z ↔ l ≤ a * z) (hr : r < a * first) (hx : x < bound)
    (hlow : n * y + l ≤ a * x) (hhigh : a * x ≤ n * y + r) :
    ∃ w, y < (a * (bound - 1) - l) / n + 1 ∧ a * w + (a * first - r) ≤ n % a * y ∧
      n % a * y ≤ a * w + (a * first - l) := by
  have hdiv : n * y = a * (n / a * y) + n % a * y := by
    rw [← mul_assoc, ← add_mul, Nat.div_add_mod]
  obtain ⟨z, rfl⟩ : ∃ z, x = n / a * y + z := by
    refine Nat.exists_eq_add_of_le (Nat.le_of_mul_le_mul_left ?_ ha)
    omega
  rw [mul_add] at hlow hhigh
  obtain ⟨w, rfl⟩ := Nat.exists_eq_add_of_le ((hfirst z).mpr (by omega))
  rw [mul_add] at hlow hhigh
  have hleast := (hfirst first).mp le_rfl
  refine ⟨w, Nat.lt_succ_of_le ((Nat.le_div_iff_mul_le hn).mpr ?_), by omega, by omega⟩
  have hmul : a * (n / a * y + (first + w)) ≤ a * (bound - 1) := Nat.mul_le_mul_left a (by omega)
  rw [mul_add, mul_add] at hmul
  rw [mul_comm y n]
  omega

theorem misses_sound (fuel : ℕ) : ∀ {a n l r bound : ℕ}, 0 < n → 0 < l →
    misses fuel a n l r bound = true →
      ∀ x y, x < bound → n * y + l ≤ a * x → ¬a * x ≤ n * y + r := by
  induction fuel with
  | zero => exact fun _ _ hmisses => absurd hmisses Bool.false_ne_true
  | succ fuel ih =>
      intro a n l r bound hn hl hmisses x y hx hlow hhigh
      rw [misses] at hmisses
      split at hmisses
      · next hzero =>
        rw [hzero, zero_mul] at hlow
        omega
      · next hpos =>
        have ha := Nat.pos_of_ne_zero hpos
        have hfirst := first_le_iff (l := l) ha
        dsimp only at hmisses
        generalize (l + a - 1) / a = first at hfirst hmisses
        split at hmisses
        · have hbound := of_decide_eq_true hmisses
          have hge := (hfirst x).mpr (by omega)
          omega
        · next hbeyond =>
          have hbeyond := Nat.lt_of_not_le hbeyond
          obtain ⟨w, hy, hlow, hhigh⟩ := swap_multiples ha hn hl hfirst hbeyond hx hlow hhigh
          exact ih ha (Nat.sub_pos_of_lt hbeyond) hmisses y w hy hlow hhigh

/-- Whether `a * x + b` lies for none of `count` numbers from `start` between `l` and `r` above a
multiple of `n`. -/
def missesFrom (a b n l r start count : ℕ) : Bool :=
  let rest := (a * start + b) % n
  if rest < l then misses 512 a n (l - rest) (r - rest) count
  else r < rest && misses 512 a n (n + l - rest) (n + r - rest) count

theorem missesFrom_sound {b start count : ℕ} (hn : 0 < n) (hr : r < n) (hl : l ≤ r + 1)
    (hmisses : missesFrom a b n l r start count = true) {x y : ℕ} (hstart : start ≤ x)
    (hend : x < start + count) (hlow : n * y + l ≤ a * x + b) : ¬a * x + b ≤ n * y + r := by
  intro hhigh
  obtain ⟨x, rfl⟩ := Nat.exists_eq_add_of_le hstart
  have hdiv := Nat.div_add_mod (a * start + b) n
  have hrest := Nat.mod_lt (a * start + b) hn
  rw [missesFrom] at hmisses
  generalize (a * start + b) % n = rest at hdiv hrest hmisses
  generalize (a * start + b) / n = whole at hdiv
  rw [mul_add] at hlow hhigh
  split at hmisses
  · obtain ⟨y, rfl⟩ : ∃ y', y = whole + y' := by
      refine Nat.exists_eq_add_of_le (Nat.lt_succ_iff.mp (Nat.lt_of_mul_lt_mul_left (a := n) ?_))
      rw [Nat.mul_succ]
      omega
    rw [mul_add] at hlow hhigh
    exact misses_sound _ hn (by omega) hmisses x y (by omega) (by omega) (by omega)
  · rw [Bool.and_eq_true, decide_eq_true_iff] at hmisses
    obtain ⟨hafter, hmisses⟩ := hmisses
    obtain ⟨y, rfl⟩ : ∃ y', y = whole + 1 + y' := by
      refine Nat.exists_eq_add_of_le (Nat.lt_of_mul_lt_mul_left (a := n) ?_)
      omega
    rw [mul_add, mul_add] at hlow hhigh
    exact misses_sound _ hn (by omega) hmisses x y (by omega) (by omega) (by omega)

end Misses

/-! ## Midpoints between singles -/

/-- The significands and exponents of the singles with a decimal next to the midpoint above. -/
def nearMisses : List (ℕ × ℤ) := [(11420669, -107), (11420669, -106), (14437329, -49)]

/-- The significands with this exponent apart from that of a near miss, in rows. -/
def significandRows (exponent : ℤ) : List (ℕ × ℕ) :=
  if exponent = -149 then [(0, 2 ^ 24)]
  else match nearMisses.find? fun near => near.2 == exponent with
    | some (significand, _) =>
        [(2 ^ 23, significand - 2 ^ 23), (significand + 1, 2 ^ 24 - (significand + 1))]
    | none => [(2 ^ 23, 2 ^ 23)]

/-- The exponent of the finest grid that is not finer than half the unit. -/
def gridExponent (exponent : ℤ) : ℤ := (30103 * (exponent - 1) - 1) / 100000 + 1

/-- Half the unit, on the scale of the step of the grid. -/
def scaledHalf (exponent : ℤ) : ℕ :=
  2 ^ (exponent - 1).toNat * 10 ^ (-gridExponent exponent).toNat

/-- The step of the grid, on the scale of half the unit. -/
def scaledStep (exponent : ℤ) : ℕ :=
  2 ^ (-(exponent - 1)).toNat * 10 ^ (gridExponent exponent).toNat

/-- The distance that is kept from a midpoint, in whole parts. -/
def clearance (half : ℕ) : ℕ := 33 * half / 2 ^ 32

/-- Whether no multiple of the grid is near the midpoints of this exponent, except those that are
midpoints themselves. -/
def keepsDistance (exponent : ℤ) : Bool :=
  let half := scaledHalf exponent
  let step := scaledStep exponent
  step * 2 ^ 26 < half * (2 ^ 26 - 1) * 10 && clearance half < step &&
    (significandRows exponent).all fun (start, count) =>
      missesFrom (2 * half) half step 1 (clearance half) start count &&
        missesFrom (2 * half) half step (step - clearance half) (step - 1) start count

theorem singles_keepDistance :
    ((List.range 254).all fun binade => keepsDistance (binade - 149)) = true := by
  decide +kernel

section Singles

variable {rank significand : ℕ} {exponent : ℤ}

theorem mem_significandRows (hlt : significand < 2 ^ 24)
    (hnormal : exponent = -149 ∨ 2 ^ 23 ≤ significand)
    (hmiss : (significand, exponent) ∉ nearMisses) :
    ∃ row ∈ significandRows exponent, row.1 ≤ significand ∧ significand < row.1 + row.2 := by
  rw [significandRows]
  split
  · exact ⟨_, List.mem_singleton_self _, Nat.zero_le _, by omega⟩
  · next hbinade =>
    have hnormal := hnormal.resolve_left hbinade
    split
    · next near exponent' hnear =>
      have hne : significand ≠ near := by
        rintro rfl
        have heq : exponent' = exponent := by simpa using List.find?_some hnear
        exact hmiss (heq ▸ List.mem_of_find?_eq_some hnear)
      rcases Nat.lt_or_gt_of_ne hne with hbelow | habove
      · exact ⟨_, List.mem_cons_self, hnormal, by omega⟩
      · exact ⟨_, List.mem_cons_of_mem _ (List.mem_singleton_self _), habove, by omega⟩
    · exact ⟨_, List.mem_singleton_self _, hnormal, by omega⟩

theorem exponent_le_of_finite (hexpands : binary32.Expands rank significand exponent)
    (hrank : rank < binary32.infinityRank) : exponent ≤ 104 := by
  have hleast : binary32.leastExponent = -149 := by decide
  have hinfinity : binary32.infinityRank = 255 * 2 ^ 23 := by decide
  obtain ⟨hrank_eq, hleast_le, -, hnormal⟩ := hexpands
  change rank = (exponent - binary32.leastExponent).toNat * 2 ^ 23 + significand at hrank_eq
  change _ ∨ 2 ^ 23 ≤ significand at hnormal
  omega

theorem keepsDistance_of_expands (hexpands : binary32.Expands rank significand exponent)
    (hrank : rank < binary32.infinityRank) : keepsDistance exponent = true := by
  have hle := exponent_le_of_finite hexpands hrank
  obtain ⟨binade, rfl⟩ := Int.le.dest (show -149 ≤ exponent from hexpands.least_le)
  have hkeeps := List.all_eq_true.mp singles_keepDistance binade (List.mem_range.mpr (by omega))
  rwa [add_comm]

/-- The distance from the midpoints of this exponent that decimals keep. -/
def margin (exponent : ℤ) : ℚ := 33 / 2 ^ 32 * 2 ^ (exponent - 1)

theorem exists_scale_half (exponent : ℤ) : ∃ scale : ℚ, 0 < scale ∧
    (scaledHalf exponent : ℚ) = 2 ^ (exponent - 1) * scale ∧
      (scaledStep exponent : ℚ) = 10 ^ gridExponent exponent * scale :=
  exists_common_scale (exponent - 1) (gridExponent exponent)

/-- The grid of this exponent is the finest one that is not finer than half the unit. -/
theorem gridExponent_le
    (hfinest : scaledStep exponent * 2 ^ 26 < scaledHalf exponent * (2 ^ 26 - 1) * 10) {p : ℤ}
    (hgrid : (2 : ℚ) ^ (exponent - 1) * (1 - 1 / 2 ^ 26) ≤ 10 ^ p) :
    gridExponent exponent ≤ p := by
  obtain ⟨scale, hscale, hhalf, hstep⟩ := exists_scale_half exponent
  have hcast : ((scaledStep exponent * 2 ^ 26 : ℕ) : ℚ) <
      (scaledHalf exponent * (2 ^ 26 - 1) * 10 : ℕ) := by exact_mod_cast hfinest
  norm_num [hhalf, hstep] at hcast
  have hlt : (10 : ℚ) ^ gridExponent exponent < 10 ^ (p + 1) := by
    rw [zpow_add_one₀ (by norm_num)]
    nlinarith
  have hten : (1 : ℚ) < 10 := by norm_num
  exact Int.lt_add_one_iff.mp ((zpow_lt_zpow_iff_right₀ hten).mp hlt)

/-- A multiple of the step and an odd multiple of the half are equal or not within the clearance. -/
theorem apart_of_misses {half step width start count x y : ℕ}
    (hbelow : missesFrom (2 * half) half step 1 width start count = true)
    (habove : missesFrom (2 * half) half step (step - width) (step - 1) start count = true)
    (hwidth : width < step) (hstart : start ≤ x) (hend : x < start + count) (hy : 0 < y)
    (hne : step * y ≠ 2 * half * x + half) :
    step * y + width < 2 * half * x + half ∨ 2 * half * x + half + width < step * y := by
  have hstep : 0 < step := by omega
  by_contra hnear
  rcases Nat.lt_or_gt_of_ne hne with hlt | hgt
  · exact missesFrom_sound hstep hwidth (by omega) hbelow hstart hend (y := y) hlt (by omega)
  · obtain ⟨y, rfl⟩ := Nat.exists_eq_add_of_le' hy
    rw [Nat.mul_succ] at hgt hnear
    exact missesFrom_sound hstep (Nat.sub_lt hstep Nat.one_pos) (by omega) habove hstart hend
      (y := y) (by omega) (by omega)

theorem lt_abs_sub_of_apart {half x y : ℕ}
    (hapart : x + clearance half < y ∨ y + clearance half < x) :
    (33 / 2 ^ 32 * half : ℚ) < |(x : ℚ) - y| := by
  have hclearance : (33 / 2 ^ 32 * half : ℚ) < clearance half + 1 := by
    have hlt := Nat.lt_mul_div_succ (33 * half) (show 0 < 2 ^ 32 by decide)
    have hcast : ((33 * half : ℕ) : ℚ) < (2 ^ 32 * (clearance half + 1) : ℕ) := by
      exact_mod_cast hlt
    push_cast at hcast
    linarith
  rw [lt_abs]
  rcases hapart with hlt | hgt
  · have hcast : ((x + clearance half + 1 : ℕ) : ℚ) ≤ y := by exact_mod_cast hlt
    push_cast at hcast
    exact .inr (by linarith)
  · have hcast : ((y + clearance half + 1 : ℕ) : ℚ) ≤ x := by exact_mod_cast hgt
    push_cast at hcast
    exact .inl (by linarith)

/-- A decimal whose grid is not finer than half the unit is a midpoint or keeps its distance. -/
theorem far_of_grid (hexpands : binary32.Expands rank significand exponent)
    (hrank : rank < binary32.infinityRank) (hmiss : (significand, exponent) ∉ nearMisses)
    {d : ℕ} {p : ℤ} (hd : 0 < d) (hgrid : (2 : ℚ) ^ (exponent - 1) * (1 - 1 / 2 ^ 26) ≤ 10 ^ p)
    (hne : (d * 10 ^ p : ℚ) ≠ binary32.midpoint rank) :
    margin exponent < |(d * 10 ^ p : ℚ) - binary32.midpoint rank| := by
  have hkeeps := keepsDistance_of_expands hexpands hrank
  obtain ⟨row, hrow, hstart, hend⟩ :=
    mem_significandRows hexpands.significand_lt hexpands.normal hmiss
  simp only [keepsDistance, Bool.and_eq_true, decide_eq_true_iff, List.all_eq_true] at hkeeps
  obtain ⟨⟨hfinest, hwidth⟩, hrows⟩ := hkeeps
  obtain ⟨hbelow, habove⟩ := hrows row hrow
  obtain ⟨places, rfl⟩ := Int.le.dest (gridExponent_le hfinest hgrid)
  rw [hexpands.midpoint_eq] at hne ⊢
  -- The decimal and the midpoint are natural numbers on the common scale.
  obtain ⟨scale, hscale, hhalf, hstep⟩ := exists_scale_half exponent
  have hdecimal : (d * 10 ^ (gridExponent exponent + places) : ℚ) * scale =
      (scaledStep exponent * (d * 10 ^ places) : ℕ) := by
    push_cast
    rw [hstep, zpow_add₀ (by norm_num), zpow_natCast]
    ring
  have hmidpoint : ((significand + 1 / 2) * 2 ^ exponent : ℚ) * scale =
      (2 * scaledHalf exponent * significand + scaledHalf exponent : ℕ) := by
    push_cast
    rw [hhalf, zpow_sub_one₀ two_ne_zero]
    ring
  have hapart := apart_of_misses hbelow habove hwidth hstart hend
    (y := d * 10 ^ places) (by positivity) fun heq => hne <| by
      rw [← mul_left_inj' hscale.ne', hdecimal, hmidpoint, heq]
  rw [← mul_lt_mul_iff_left₀ hscale, ← abs_of_pos hscale, ← abs_mul, abs_of_pos hscale, sub_mul,
    hdecimal, hmidpoint, margin, mul_assoc, ← hhalf]
  exact lt_abs_sub_of_apart hapart

/-- So does every decimal that is written for one of the two singles next to the midpoint. -/
theorem far_of_near (hexpands : binary32.Expands rank significand exponent)
    (hrank : rank < binary32.infinityRank) (hmiss : (significand, exponent) ∉ nearMisses)
    {decimal : Decimal} (hpos : 0 < decimal.coefficient) {single : ℚ}
    (hsingle : |single - binary32.midpoint rank| = 2 ^ (exponent - 1))
    (hnear : |decimal.value - single| ≤ 10 ^ decimal.exponent)
    (hne : decimal.value ≠ binary32.midpoint rank) :
    margin exponent < |decimal.value - binary32.midpoint rank| := by
  by_cases hgrid : (2 : ℚ) ^ (exponent - 1) * (1 - 1 / 2 ^ 26) ≤ 10 ^ decimal.exponent
  · exact far_of_grid hexpands hrank hmiss hpos hgrid hne
  · have hhalf : (0 : ℚ) < 2 ^ (exponent - 1) := by positivity
    have htriangle := abs_sub_le single decimal.value (binary32.midpoint rank)
    rw [hsingle, abs_sub_comm] at htriangle
    rw [margin]
    linarith

/-- A number that is close to a decimal lies on the same side of the midpoint. -/
theorem same_side (hexpands : binary32.Expands rank significand exponent) {number decimal : ℚ}
    (hclose : |number - decimal| ≤ 33 / 2 ^ 57 * decimal)
    (hfar : margin exponent < |decimal - binary32.midpoint rank|) :
    (binary32.midpoint rank < decimal → binary32.midpoint rank < number) ∧
      (decimal < binary32.midpoint rank → number < binary32.midpoint rank) := by
  have hhalf : (0 : ℚ) < 2 ^ (exponent - 1) := by positivity
  have hmidpoint : binary32.midpoint rank ≤ (2 ^ 25 - 1) * 2 ^ (exponent - 1) := by
    have hle : ((2 * significand + 1 : ℕ) : ℚ) ≤ (2 ^ 25 - 1 : ℕ) := by
      have hlt : significand < 2 ^ 24 := hexpands.significand_lt
      exact_mod_cast (by omega : 2 * significand + 1 ≤ 2 ^ 25 - 1)
    norm_num at hle
    calc binary32.midpoint rank = (2 * significand + 1) * 2 ^ (exponent - 1) := by
          rw [hexpands.midpoint_eq, zpow_sub_one₀ two_ne_zero]
          ring
      _ ≤ (2 ^ 25 - 1) * 2 ^ (exponent - 1) := by
          gcongr
          linarith
  rw [margin] at hfar
  obtain ⟨hlow, hhigh⟩ := abs_le.mp hclose
  constructor <;> intro hside
  · rw [abs_of_pos (sub_pos.mpr hside)] at hfar
    linarith
  · rw [abs_of_neg (sub_neg.mpr hside)] at hfar
    linarith

/-- The value of the next rank is one unit greater. -/
theorem BinaryFormat.Expands.value_succ {format : BinaryFormat}
    (hexpands : format.Expands rank significand exponent) :
    format.value (rank + 1) = (significand + 1) * 2 ^ exponent := by
  rcases hexpands.succ with hnext | ⟨hcarry, hnext⟩
  · rw [hnext.value_eq, Nat.cast_succ]
  · have hcarry' : (significand + 1 : ℚ) = 2 ^ format.fractionBits * 2 := by exact_mod_cast hcarry
    rw [hnext.value_eq, hcarry', zpow_add_one₀ two_ne_zero]
    push_cast
    ring

theorem value_sub_midpoint (rank : ℕ) :
    |binary32.value rank - binary32.midpoint rank| = 2 ^ ((binary32.expand rank).2 - 1) := by
  have hhalf : (0 : ℚ) < 2 ^ ((binary32.expand rank).2 - 1) := by positivity
  rw [BinaryFormat.midpoint, sub_add_cancel_left, abs_neg, abs_of_pos hhalf]

theorem value_succ_sub_midpoint (rank : ℕ) :
    |binary32.value (rank + 1) - binary32.midpoint rank| =
      2 ^ ((binary32.expand rank).2 - 1) := by
  have hexpands := binary32.expands_expand rank
  have hhalf : (0 : ℚ) < 2 ^ ((binary32.expand rank).2 - 1) := by positivity
  rw [hexpands.value_succ, hexpands.midpoint_eq, ← abs_of_pos hhalf, zpow_sub_one₀ two_ne_zero]
  congr 1
  ring

theorem BinaryFormat.midpoint_pos {format : BinaryFormat} (rank : ℕ) :
    0 < format.midpoint rank := by
  rw [midpoint, value]
  positivity

theorem Decimal.coefficient_pos {decimal : Decimal} (hpos : 0 < decimal.value) :
    0 < decimal.coefficient := by
  refine Nat.pos_of_ne_zero fun hzero => hpos.ne' ?_
  rw [value, hzero, Nat.cast_zero, zero_mul]

/-- A number that is close enough to the decimal that is written for a single is rounded to it. -/
theorem nearestRank_of_close {decimal : Decimal}
    (hfits : (binary32.roundingInterval (rank + 1)).Fits decimal)
    (hrank : rank + 1 < binary32.infinityRank)
    (hbelow : binary32.expand rank ∉ nearMisses) (habove : binary32.expand (rank + 1) ∉ nearMisses)
    {num den : ℕ} (hnum : 0 < num) (hden : 0 < den)
    (hclose : |(num / den : ℚ) - decimal.value| ≤ 33 / 2 ^ 57 * decimal.value)
    (hexact : binary32.midpoint rank = decimal.value ∨
      decimal.value = binary32.midpoint (rank + 1) → (num / den : ℚ) = decimal.value) :
    binary32.nearestRank num den = rank + 1 := by
  have hsurrounds := binary32.roundingInterval_surrounds (by decide) rank
  obtain ⟨hlow, hhigh, htie⟩ := hsurrounds.between hfits.contains
  have hnear := hfits.near
  rw [hsurrounds.middle_eq] at hnear
  by_cases hend : binary32.midpoint rank = decimal.value ∨
      decimal.value = binary32.midpoint (rank + 1)
  · have heq := hexact hend
    exact BinaryFormat.nearestRank_of_between _ hnum hden (by decide) (heq ▸ hlow) (heq ▸ hhigh)
      fun _ => htie hend
  · obtain ⟨hlow_ne, hhigh_ne⟩ := not_or.mp hend
    have hpos := Decimal.coefficient_pos ((BinaryFormat.midpoint_pos rank).trans_le hlow)
    have hlt := (same_side (binary32.expands_expand rank) hclose
      (far_of_near (binary32.expands_expand rank) (Nat.lt_of_succ_lt hrank) hbelow hpos
        (value_succ_sub_midpoint rank) hnear (Ne.symm hlow_ne))).1 (lt_of_le_of_ne hlow hlow_ne)
    have hgt := (same_side (binary32.expands_expand (rank + 1)) hclose
      (far_of_near (binary32.expands_expand (rank + 1)) hrank habove hpos
        (value_sub_midpoint (rank + 1)) hnear hhigh_ne)).2 (lt_of_le_of_ne hhigh hhigh_ne)
    exact BinaryFormat.nearestRank_of_between _ hnum hden (by decide) hlt.le hgt.le fun htie =>
      absurd htie (not_or.mpr ⟨hlt.ne, hgt.ne⟩)

end Singles

end OpGraph
