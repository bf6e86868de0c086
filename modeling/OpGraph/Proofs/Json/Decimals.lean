import OpGraph.Proofs.Json.Doubles
import OpGraph.Proofs.Json.Numbers

/-!
# Written decimals are read back

The digits of a decimal are laid out with a point or with an exponent. The scanner takes all of them
off again, and the significand and the power of ten that are read stand for the same decimal.
-/

namespace OpGraph

/-- Digits that all fit are all taken in, and each moves the point. -/
theorem Significand.addFraction_eq {digits : List Char} {value : ℕ} {exponent : ℤ}
    (hfits : Nat.ofDigitChars 10 digits value < Nat.pow 2 64) :
    Significand.addFraction ⟨value, exponent⟩ digits =
      ⟨Nat.ofDigitChars 10 digits value, exponent - digits.length⟩ := by
  induction digits generalizing value exponent with
  | nil => rw [List.length_nil, Nat.cast_zero, sub_zero]; rfl
  | cons digit digits ih =>
      rw [Nat.ofDigitChars_cons] at hfits ⊢
      have hnext := lt_of_le_of_lt (le_ofDigitChars digits _) hfits
      rw [Significand.addFraction]
      refine (if_pos hnext).trans ((ih hfits).trans ?_)
      rw [List.length_cons, Nat.cast_succ, sub_sub, add_comm 1]

namespace NumberToken

variable {token : NumberToken}

/-- The power of ten that is written after the digits. -/
def tenExponent (token : NumberToken) : ℤ :=
  match token.exponent with
  | none => 0
  | some (negative, digits) => if negative then -digitsValue digits else digitsValue digits

/-- The decimal that is written. -/
def decimal (token : NumberToken) : Decimal where
  coefficient := Nat.ofDigitChars 10 (token.whole ++ token.fraction.getD []) 0
  exponent := token.tenExponent - (token.fraction.getD []).length

theorem significand_eq (hfits : token.decimal.coefficient < 2 ^ 64) :
    token.significand = ⟨token.decimal.coefficient, -(token.fraction.getD []).length⟩ := by
  rw [decimal, Nat.ofDigitChars_append] at hfits
  rw [significand, Significand.addWhole_eq ((le_ofDigitChars _ _).trans_lt hfits),
    Significand.addFraction_eq hfits, decimal, Nat.ofDigitChars_append, zero_sub]

/-- If its digits fit, the double is that of the decimal. -/
theorem double?_eq (hpos : 0 < token.decimal.coefficient)
    (hfits : token.decimal.coefficient < 2 ^ 64) (hsmall : token.tenExponent.natAbs < 2 ^ 31)
    {rank : ℕ}
    (hrank : scaledRank? token.decimal.coefficient token.decimal.exponent = some rank) :
    token.double? = some (.ranked token.negative (Fin.ofNat _ rank)) := by
  have hexponent : token.decimal.exponent =
      -((token.fraction.getD []).length : ℤ) + token.tenExponent := by
    rw [decimal]
    ring
  rw [double?]
  change Option.map _ (if token.significand.value = 0 then some 0
    else if Int.pow 2 31 ≤ token.tenExponent then none
    else if token.tenExponent ≤ -Int.pow 2 31 then some 0
    else scaledRank? token.significand.value (token.significand.exponent + token.tenExponent)) = _
  have hpow : Int.pow 2 31 = 2 ^ 31 := rfl
  rw [significand_eq hfits, if_neg hpos.ne', if_neg (by omega), if_neg (by omega), ← hexponent,
    hrank]
  rfl

/-! ## Scanning -/

/-- Digits before the point: a zero, or a row that does not begin with one. -/
inductive IsWhole : List Char → Prop where
  | zero : IsWhole ['0']
  | digits {whole : List Char} {c : Char} (hhead : whole.head? = some c) (hzero : c ≠ '0')
      (hdigits : ∀ digit ∈ whole, digit.isDigit = true) : IsWhole whole

/-- The digits end where the rest begins. -/
def NoDigit (rest : List Char) : Prop := ∀ c ∈ rest.head?, c.isDigit = false

theorem noDigit_nil : NoDigit [] := by simp [NoDigit]

theorem noDigit_cons {c : Char} {rest : List Char} (hc : c.isDigit = false) :
    NoDigit (c :: rest) := by
  simpa [NoDigit] using hc

variable {rest : List Char}

theorem scanDigits_of_digits {digits : List Char} (hsome : digits ≠ [])
    (hdigits : ∀ digit ∈ digits, digit.isDigit = true) (hrest : NoDigit rest) :
    scanDigits (digits ++ rest) = .ok (digits, rest) := by
  have htake : rest.takeWhile Char.isDigit = [] ∧ rest.dropWhile Char.isDigit = rest := by
    cases rest with
    | nil => exact ⟨rfl, rfl⟩
    | cons c rest => simp [hrest c rfl]
  rw [scanDigits, List.takeWhile_append_of_pos hdigits, List.dropWhile_append_of_pos hdigits,
    htake.1, htake.2, List.append_nil]
  simp [hsome]

theorem scanWhole_of_isWhole {whole : List Char} (hwhole : IsWhole whole) (hrest : NoDigit rest) :
    scanWhole (whole ++ rest) = .ok (whole, rest) := by
  cases hwhole with
  | zero =>
      cases rest with
      | nil => rfl
      | cons c rest => simp [scanWhole, hrest c rfl]
  | digits hhead hzero hdigits =>
      obtain ⟨more, rfl⟩ := List.head?_eq_some_iff.mp hhead
      rw [List.cons_append, scanWhole_of_ne_zero hzero, ← List.cons_append]
      exact scanDigits_of_digits (List.cons_ne_nil _ _) hdigits hrest

theorem scanUnsigned_plain (negative : Bool) {whole fraction : List Char} (hwhole : IsWhole whole)
    (hsome : fraction ≠ []) (hdigits : ∀ digit ∈ fraction, digit.isDigit = true) :
    scanUnsigned negative (whole ++ '.' :: fraction) =
      .ok (⟨negative, whole, some fraction, none⟩, []) := by
  have hfraction := scanDigits_of_digits hsome hdigits noDigit_nil
  rw [List.append_nil] at hfraction
  simp only [scanUnsigned, scanWhole_of_isWhole hwhole (noDigit_cons (c := '.') rfl), scanFraction,
    hfraction, bind, Except.bind, Except.map, scanExponent, pure, Except.pure]

end NumberToken

theorem isDigit_zeros (n : ℕ) : ∀ digit ∈ List.replicate n '0', digit.isDigit = true := by
  intro digit hdigit
  rw [List.eq_of_mem_replicate hdigit]
  rfl

theorem isDigit_of_mem_toDigits {n : ℕ} {c : Char} (hc : c ∈ Nat.toDigits 10 n) :
    c.isDigit = true :=
  Nat.isDigit_of_mem_toDigits (by decide) (by decide) hc

/-- What a token says is the decimal. If the digits are filled up with zeros before the point, a
further zero stands after it. -/
structure NumberToken.Stands (token : NumberToken) (decimal : Decimal) (greatestPlain : ℤ) : Prop
    where
  decimal_eq : token.decimal = decimal ∨ 0 ≤ decimal.exponent ∧
    decimal.exponent + (Nat.toDigits 10 decimal.coefficient).length - 1 ≤ greatestPlain ∧
      token.decimal = ⟨decimal.coefficient * 10 ^ (decimal.exponent.toNat + 1), -1⟩
  exponent_le : token.tenExponent.natAbs ≤
    decimal.exponent.natAbs + (Nat.toDigits 10 decimal.coefficient).length
  broken : (token.fraction.isNone && token.exponent.isNone) = false

theorem NumberToken.Stands.mono {token : NumberToken} {decimal : Decimal} {greatest greatest' : ℤ}
    (hstands : token.Stands decimal greatest) (hle : greatest ≤ greatest') :
    token.Stands decimal greatest' :=
  ⟨hstands.decimal_eq.imp_right fun hfilled => ⟨hfilled.1, hfilled.2.1.trans hle, hfilled.2.2⟩,
    hstands.exponent_le, hstands.broken⟩

namespace DecimalLayout

open NumberToken

variable {decimal : Decimal} (hpos : 0 < decimal.coefficient) (negative : Bool)

theorem head?_toDigits {n : ℕ} (hn : 0 < n) :
    ∃ c, (Nat.toDigits 10 n).head? = some c ∧ c ≠ '0' := by
  obtain ⟨c, more, heq, hne⟩ := head_toDigits_ne_zero hn
  exact ⟨c, heq ▸ rfl, hne⟩

theorem decimal_plain (whole fraction : List Char) :
    (⟨negative, whole, some fraction, none⟩ : NumberToken).decimal =
      ⟨Nat.ofDigitChars 10 (whole ++ fraction) 0, -fraction.length⟩ := by
  rw [NumberToken.decimal]
  congr 1
  exact zero_sub _

theorem stands_plain {whole fraction : List Char} {greatestPlain : ℤ}
    (hdecimal :
      (⟨Nat.ofDigitChars 10 (whole ++ fraction) 0, -fraction.length⟩ : Decimal) = decimal ∨
        0 ≤ decimal.exponent ∧
          decimal.exponent + (Nat.toDigits 10 decimal.coefficient).length - 1 ≤ greatestPlain ∧
            (⟨Nat.ofDigitChars 10 (whole ++ fraction) 0, -fraction.length⟩ : Decimal) =
              ⟨decimal.coefficient * 10 ^ (decimal.exponent.toNat + 1), -1⟩) :
    (⟨negative, whole, some fraction, none⟩ : NumberToken).Stands decimal greatestPlain := by
  refine ⟨?_, Nat.zero_le _, rfl⟩
  rw [decimal_plain]
  exact hdecimal

include hpos in
/-- Digits with a point before, after or between them. -/
theorem scan_plain {first : ℤ}
    (hfirst : first = decimal.exponent + (Nat.toDigits 10 decimal.coefficient).length - 1) :
    ∃ token, scanUnsigned negative (plain (Nat.toDigits 10 decimal.coefficient) first) =
      .ok (token, []) ∧ token.negative = negative ∧ token.Stands decimal first := by
  have hdigits : ∀ digit ∈ Nat.toDigits 10 decimal.coefficient, digit.isDigit = true :=
    fun digit => isDigit_of_mem_toDigits
  have hlength : 0 < (Nat.toDigits 10 decimal.coefficient).length := Nat.length_toDigits_pos
  have hvalue : Nat.ofDigitChars 10 (Nat.toDigits 10 decimal.coefficient) 0 =
      decimal.coefficient := Nat.ofDigitChars_ten_toDigits
  obtain ⟨c, hhead, hzero⟩ := head?_toDigits hpos
  generalize hlist : Nat.toDigits 10 decimal.coefficient = digits
    at hdigits hlength hvalue hhead hfirst ⊢
  rw [plain]
  split
  · -- All digits stand after the point.
    refine ⟨_, scanUnsigned_plain negative .zero (List.append_ne_nil_of_right_ne_nil _ ?_) ?_, rfl,
      stands_plain negative (.inl ?_)⟩
    · exact List.ne_nil_of_length_pos hlength
    · exact List.forall_mem_append.mpr ⟨isDigit_zeros _, hdigits⟩
    · rw [List.singleton_append, Nat.ofDigitChars_cons, Nat.ofDigitChars_append,
        Nat.ofDigitChars_replicate_zero]
      change (⟨Nat.ofDigitChars 10 digits (10 ^ _ * 0), _⟩ : Decimal) = _
      rw [mul_zero, hvalue, List.length_append, List.length_replicate]
      congr 1
      omega
  · dsimp only
    split
    · -- All digits stand before the point.
      next hshort =>
      refine ⟨_, scanUnsigned_plain negative ?_ (List.cons_ne_nil '0' []) (by simp), rfl,
        stands_plain negative (.inr ⟨by omega, by rw [hlist]; omega, ?_⟩)⟩
      · exact .digits (c := c) (by simp [hhead]) hzero
          (List.forall_mem_append.mpr ⟨hdigits, isDigit_zeros _⟩)
      · have hplaces : first.toNat + 1 - digits.length = decimal.exponent.toNat := by omega
        rw [hplaces, Nat.ofDigitChars_append, Nat.ofDigitChars_append, hvalue,
          Nat.ofDigitChars_replicate_zero, Nat.ofDigitChars_cons, pow_succ]
        change (⟨10 * _ + 0, _⟩ : Decimal) = _
        congr 1
        ring
    · -- The point stands between the digits.
      next hlong =>
      refine ⟨_, scanUnsigned_plain negative ?_ ?_ ?_, rfl, stands_plain negative (.inl ?_)⟩
      · refine .digits (c := c) ?_ hzero fun digit hdigit =>
          hdigits digit (List.mem_of_mem_take hdigit)
        rw [List.head?_take, if_neg (Nat.succ_ne_zero _), hhead]
      · exact List.ne_nil_of_length_pos (by rw [List.length_drop]; omega)
      · exact fun digit hdigit => hdigits digit (List.mem_of_mem_drop hdigit)
      · rw [List.take_append_drop, hvalue, List.length_drop]
        congr 1
        omega

theorem splitSign_of_isDigit {digits : List Char}
    (hdigits : ∀ digit ∈ digits, digit.isDigit = true) :
    splitSign digits = (false, digits) := by
  unfold splitSign
  split
  · exact absurd (hdigits '-' List.mem_cons_self) (by decide)
  · exact absurd (hdigits '+' List.mem_cons_self) (by decide)
  · rfl

theorem scanDigits_toDigits (n : ℕ) :
    scanDigits (Nat.toDigits 10 n) = .ok (Nat.toDigits 10 n, []) := by
  have hscan : scanDigits (Nat.toDigits 10 n ++ []) = .ok (Nat.toDigits 10 n, []) :=
    scanDigits_of_digits (List.ne_nil_of_length_pos Nat.length_toDigits_pos)
      (fun digit => isDigit_of_mem_toDigits) noDigit_nil
  rwa [List.append_nil] at hscan

theorem scanExponent_toDigits (plusSign : Bool) (first : ℤ) :
    scanExponent ('e' :: ((if first < 0 then ['-'] else if plusSign then ['+'] else []) ++
      Nat.toDigits 10 first.natAbs)) =
        .ok (some (decide (first < 0), Nat.toDigits 10 first.natAbs), []) := by
  have hsplit : splitSign ((if first < 0 then ['-'] else if plusSign then ['+'] else []) ++
      Nat.toDigits 10 first.natAbs) = (decide (first < 0), Nat.toDigits 10 first.natAbs) := by
    split
    · next hneg => simp [splitSign, hneg]
    · next hneg =>
      cases plusSign
      · simp [hneg, splitSign_of_isDigit fun digit => isDigit_of_mem_toDigits]
      · simp [splitSign, hneg]
  rw [scanExponent_of_mark (.inl rfl), hsplit, scanDigits_toDigits]
  rfl

/-- The token of a number that is written with an exponent. -/
theorem stands_scientific {c : Char} {more : List Char} (fraction : Option (List Char))
    (hfraction : fraction.getD [] = more) {first : ℤ} (greatestPlain : ℤ)
    (hdigits : Nat.toDigits 10 decimal.coefficient = c :: more)
    (hfirst : first = decimal.exponent + (Nat.toDigits 10 decimal.coefficient).length - 1) :
    (⟨negative, [c], fraction, some (decide (first < 0), Nat.toDigits 10 first.natAbs)⟩ :
      NumberToken).Stands decimal greatestPlain := by
  have hexponent : (⟨negative, [c], fraction,
      some (decide (first < 0), Nat.toDigits 10 first.natAbs)⟩ : NumberToken).tenExponent =
        first := by
    have hvalue : digitsValue (Nat.toDigits 10 first.natAbs) = first.natAbs :=
      Nat.ofDigitChars_ten_toDigits
    simp only [NumberToken.tenExponent, hvalue]
    by_cases hneg : first < 0
    · simp only [hneg, decide_true, if_true]
      omega
    · simp only [hneg, decide_false, Bool.false_eq_true, if_false]
      omega
  have hlength := congrArg List.length hdigits
  rw [List.length_cons] at hlength
  refine ⟨.inl ?_, ?_, ?_⟩
  · rw [NumberToken.decimal, hexponent, hfraction, List.singleton_append, ← hdigits,
      Nat.ofDigitChars_ten_toDigits]
    congr 1
    omega
  · rw [hexponent]
    omega
  · exact Bool.and_false _

include hpos in
/-- Digits with a point after the first one, if there are more, and with an exponent. -/
theorem scan_scientific (plusSign : Bool) {first : ℤ} (greatestPlain : ℤ)
    (hfirst : first = decimal.exponent + (Nat.toDigits 10 decimal.coefficient).length - 1) :
    ∃ token, scanUnsigned negative
        (scientific plusSign (Nat.toDigits 10 decimal.coefficient) first) =
      .ok (token, []) ∧ token.negative = negative ∧ token.Stands decimal greatestPlain := by
  obtain ⟨c, more, heq, hne⟩ := head_toDigits_ne_zero hpos
  have hall : ∀ digit ∈ c :: more, digit.isDigit = true := fun digit hdigit =>
    isDigit_of_mem_toDigits (heq ▸ hdigit)
  have hwhole : IsWhole [c] := .digits rfl hne fun digit hdigit => by
    rw [List.mem_singleton.mp hdigit]
    exact hall c List.mem_cons_self
  have hexponent := scanExponent_toDigits plusSign first
  rw [heq]
  cases more with
  | nil =>
      refine ⟨_, ?_, rfl, stands_scientific negative none rfl _ heq hfirst⟩
      change scanUnsigned negative ([c] ++ 'e' :: _) = _
      simp only [scanUnsigned, scanWhole_of_isWhole hwhole (noDigit_cons (c := 'e') rfl),
        scanFraction_of_ne_point (c := 'e') (by decide), hexponent, bind, Except.bind, pure,
        Except.pure]
  | cons next more =>
      refine ⟨_, ?_, rfl, stands_scientific negative (some _) rfl _ heq hfirst⟩
      have hfraction (rest : List Char) : scanDigits (next :: more ++ 'e' :: rest) =
          .ok (next :: more, 'e' :: rest) :=
        scanDigits_of_digits (List.cons_ne_nil next more)
          (fun digit hdigit => hall digit (List.mem_cons_of_mem _ hdigit)) (noDigit_cons rfl)
      change scanUnsigned negative ([c] ++ '.' :: (next :: more ++ 'e' :: _)) = _
      simp only [scanUnsigned, scanWhole_of_isWhole hwhole (noDigit_cons (c := '.') rfl),
        scanFraction, hfraction, hexponent, bind, Except.bind, Except.map, pure, Except.pure]

include hpos in
/-- The token of a decimal that is laid out. -/
theorem scan_digits (layout : DecimalLayout) :
    ∃ token, scanUnsigned negative (layout.digits decimal) = .ok (token, []) ∧
      token.negative = negative ∧ token.Stands decimal layout.greatestPlain := by
  rw [digits]
  split
  · next hplain =>
    obtain ⟨token, hscan, hnegative, hstands⟩ := scan_plain hpos negative rfl
    have hle := of_decide_eq_true (Bool.and_eq_true_iff.mp hplain).2
    exact ⟨token, hscan, hnegative, hstands.mono hle⟩
  · exact scan_scientific hpos negative _ _ rfl

end DecimalLayout

end OpGraph
