import Mathlib.Algebra.Group.Int.Defs
import Mathlib.Data.List.TakeWhile
import Mathlib.Order.Basic
import OpGraph.Json.NumberText
import OpGraph.Json.Printer

/-!
# Written numbers are read back

The scanner takes a written number off a text and stops where the number stops, whatever follows,
as long as that does not go on like a number. An integer that fits into 64 bits is read back as it
is; of a number in floating point, the value of its digits is read.
-/

namespace OpGraph

namespace NumberToken

/-- The text does not go on like a number. -/
def Ends (rest : List Char) : Prop :=
  ∀ c ∈ rest.head?, c.isDigit = false ∧ c ≠ '.' ∧ c ≠ 'e' ∧ c ≠ 'E'

variable {chars rest left : List Char}

theorem ends_nil : Ends [] := by simp [Ends]

namespace Ends

theorem takeWhile_append (hrest : Ends rest) (chars : List Char) :
    (chars ++ rest).takeWhile Char.isDigit = chars.takeWhile Char.isDigit := by
  induction chars with
  | nil =>
      cases rest with
      | nil => rfl
      | cons c rest => simp [(hrest c rfl).1]
  | cons c chars ih => cases hdigit : c.isDigit <;> simp [hdigit, ih]

theorem dropWhile_append (hrest : Ends rest) (chars : List Char) :
    (chars ++ rest).dropWhile Char.isDigit = chars.dropWhile Char.isDigit ++ rest := by
  induction chars with
  | nil =>
      cases rest with
      | nil => rfl
      | cons c rest => simp [(hrest c rfl).1]
  | cons c chars ih => cases hdigit : c.isDigit <;> simp [hdigit, ih]

end Ends

theorem scanWhole_of_ne_zero {c : Char} (hzero : c ≠ '0') (chars : List Char) :
    scanWhole (c :: chars) = scanDigits (c :: chars) := by
  unfold scanWhole
  split
  · next heq => exact absurd (List.cons.inj heq).1 hzero
  · rfl

theorem scanDigits_append (hrest : Ends rest) {digits : List Char}
    (hscan : scanDigits chars = .ok (digits, left)) :
    scanDigits (chars ++ rest) = .ok (digits, left ++ rest) := by
  simp only [scanDigits, hrest.takeWhile_append, hrest.dropWhile_append] at hscan ⊢
  split at hscan
  · cases hscan
  · next hsome =>
    cases hscan
    rw [if_neg hsome]

theorem scanWhole_append (hrest : Ends rest) {digits : List Char}
    (hscan : scanWhole chars = .ok (digits, left)) :
    scanWhole (chars ++ rest) = .ok (digits, left ++ rest) := by
  cases chars with
  | nil => cases hscan
  | cons c chars =>
      by_cases hzero : c = '0'
      · subst hzero
        cases chars with
        | nil =>
            cases hscan
            cases rest with
            | nil => rfl
            | cons c rest => simp [scanWhole, (hrest c rfl).1]
        | cons c chars =>
            simp only [scanWhole] at hscan
            split at hscan
            · cases hscan
            · next hdigit =>
              cases hscan
              simp [scanWhole, hdigit]
      · rw [scanWhole_of_ne_zero hzero] at hscan
        rw [List.cons_append, scanWhole_of_ne_zero hzero]
        exact scanDigits_append hrest hscan

theorem scanFraction_of_ne_point {c : Char} (hpoint : c ≠ '.') (chars : List Char) :
    scanFraction (c :: chars) = .ok (none, c :: chars) := by
  unfold scanFraction
  split
  · next heq => exact absurd (List.cons.inj heq).1 hpoint
  · rfl

theorem scanFraction_of_ends (hrest : Ends rest) : scanFraction rest = .ok (none, rest) := by
  cases rest with
  | nil => rfl
  | cons c rest => exact scanFraction_of_ne_point (hrest c rfl).2.1 rest

theorem scanFraction_append (hrest : Ends rest) {fraction : Option (List Char)}
    (hscan : scanFraction chars = .ok (fraction, left)) :
    scanFraction (chars ++ rest) = .ok (fraction, left ++ rest) := by
  cases chars with
  | nil =>
      cases hscan
      exact scanFraction_of_ends hrest
  | cons c chars =>
      by_cases hpoint : c = '.'
      · subst hpoint
        cases hdigits : scanDigits chars with
        | error => simp [scanFraction, hdigits, Except.map] at hscan
        | ok found =>
            obtain ⟨digits, left'⟩ := found
            simp only [scanFraction, hdigits, Except.map] at hscan
            cases hscan
            simp [scanFraction, scanDigits_append hrest hdigits, Except.map]
      · rw [scanFraction_of_ne_point hpoint] at hscan
        cases hscan
        exact scanFraction_of_ne_point hpoint (chars ++ rest)

/-- The sign of an exponent, and what follows it. -/
def splitSign (chars : List Char) : Bool × List Char :=
  match chars with
  | '-' :: rest => (true, rest)
  | '+' :: rest => (false, rest)
  | rest => (false, rest)

theorem splitSign_append {c : Char} :
    splitSign (c :: chars ++ rest) =
      ((splitSign (c :: chars)).1, (splitSign (c :: chars)).2 ++ rest) := by
  simp only [splitSign, List.cons_append]
  split <;> split <;> simp_all

theorem scanExponent_of_mark {mark : Char} (hmark : mark = 'e' ∨ mark = 'E') (chars : List Char) :
    scanExponent (mark :: chars) =
      (scanDigits (splitSign chars).2).map fun (digits, rest) =>
        (some ((splitSign chars).1, digits), rest) := by
  have htrue : (decide (mark = 'e') || decide (mark = 'E')) = true := by simpa using hmark
  unfold scanExponent
  dsimp only
  rw [if_pos htrue]
  rfl

theorem scanExponent_of_ne_mark {c : Char} (he : c ≠ 'e') (hE : c ≠ 'E') (chars : List Char) :
    scanExponent (c :: chars) = .ok (none, c :: chars) := by
  simp [scanExponent, he, hE]

theorem scanExponent_of_ends (hrest : Ends rest) : scanExponent rest = .ok (none, rest) := by
  cases rest with
  | nil => rfl
  | cons c rest => exact scanExponent_of_ne_mark (hrest c rfl).2.2.1 (hrest c rfl).2.2.2 rest

theorem scanExponent_append (hrest : Ends rest) {exponent : Option (Bool × List Char)}
    (hscan : scanExponent chars = .ok (exponent, left)) :
    scanExponent (chars ++ rest) = .ok (exponent, left ++ rest) := by
  cases chars with
  | nil =>
      cases hscan
      exact scanExponent_of_ends hrest
  | cons mark chars =>
      by_cases hmark : mark = 'e' ∨ mark = 'E'
      · rw [scanExponent_of_mark hmark] at hscan
        rw [List.cons_append, scanExponent_of_mark hmark]
        cases chars with
        | nil => cases hscan
        | cons c chars =>
            rw [splitSign_append]
            cases hdigits : scanDigits (splitSign (c :: chars)).2 with
            | error => simp [hdigits, Except.map] at hscan
            | ok found =>
                obtain ⟨digits, left'⟩ := found
                simp only [hdigits, Except.map] at hscan
                cases hscan
                simp [scanDigits_append hrest hdigits, Except.map]
      · obtain ⟨he, hE⟩ := not_or.mp hmark
        rw [scanExponent_of_ne_mark he hE] at hscan
        cases hscan
        exact scanExponent_of_ne_mark he hE (chars ++ rest)

theorem scanUnsigned_append (hrest : Ends rest) {negative : Bool} {token : NumberToken}
    (hscan : scanUnsigned negative chars = .ok (token, left)) :
    scanUnsigned negative (chars ++ rest) = .ok (token, left ++ rest) := by
  simp only [scanUnsigned, bind, Except.bind] at hscan ⊢
  cases hwhole : scanWhole chars with
  | error => simp [hwhole] at hscan
  | ok whole =>
  cases hfraction : scanFraction whole.2 with
  | error => simp [hwhole, hfraction] at hscan
  | ok fraction =>
  cases hexponent : scanExponent fraction.2 with
  | error => simp [hwhole, hfraction, hexponent] at hscan
  | ok exponent =>
  simp only [hwhole, hfraction, hexponent] at hscan
  cases hscan
  simp only [scanWhole_append hrest hwhole, scanFraction_append hrest hfraction,
    scanExponent_append hrest hexponent, pure, Except.pure]

/-- A number that ends where the text goes on otherwise is taken off as it is. -/
theorem scan_append (hrest : Ends rest) {token : NumberToken}
    (hscan : scan chars = .ok (token, left)) :
    scan (chars ++ rest) = .ok (token, left ++ rest) := by
  cases chars with
  | nil => cases hscan
  | cons c chars =>
      by_cases hminus : c = '-'
      · subst hminus
        exact scanUnsigned_append hrest hscan
      · have hscan' : ∀ chars, scan (c :: chars) = scanUnsigned false (c :: chars) := by
          intro chars
          unfold scan
          split
          · next heq => exact absurd (List.cons.inj heq).1 hminus
          · rfl
        rw [hscan'] at hscan
        rw [List.cons_append, hscan']
        exact scanUnsigned_append hrest hscan

theorem exists_head_of_scanWhole {digits : List Char}
    (hscan : scanWhole chars = .ok (digits, left)) :
    ∃ c more, chars = c :: more ∧ c.isDigit = true := by
  cases chars with
  | nil => cases hscan
  | cons c chars =>
      refine ⟨c, chars, rfl, ?_⟩
      by_cases hzero : c = '0'
      · subst hzero
        rfl
      · rw [scanWhole_of_ne_zero hzero] at hscan
        by_contra hdigit
        simp [scanDigits, hdigit] at hscan

theorem exists_head_of_scanUnsigned {negative : Bool} {token : NumberToken}
    (hscan : scanUnsigned negative chars = .ok (token, left)) :
    ∃ c more, chars = c :: more ∧ c.isDigit = true := by
  cases hwhole : scanWhole chars with
  | error => simp [scanUnsigned, bind, Except.bind, hwhole] at hscan
  | ok => exact exists_head_of_scanWhole hwhole

/-- A number without a sign is not taken for one with a sign. -/
theorem scan_of_scanUnsigned {token : NumberToken}
    (hscan : scanUnsigned false chars = .ok (token, left)) : scan chars = .ok (token, left) := by
  obtain ⟨c, more, rfl, hdigit⟩ := exists_head_of_scanUnsigned hscan
  unfold scan
  split
  · next hminus =>
    rw [(List.cons.inj hminus).1] at hdigit
    cases hdigit
  · exact hscan

/-- A number begins with its sign or with a digit. -/
theorem exists_head_of_scan {token : NumberToken} (hscan : scan chars = .ok (token, left)) :
    ∃ c more, chars = c :: more ∧ (c = '-' ∨ c.isDigit = true) := by
  unfold scan at hscan
  split at hscan
  · exact ⟨'-', _, rfl, .inl rfl⟩
  · obtain ⟨c, more, heq, hdigit⟩ := exists_head_of_scanUnsigned hscan
    exact ⟨c, more, heq, .inr hdigit⟩

end NumberToken

/-! ## Integers -/

/-- A positive number is written without zeros before it. -/
theorem head_toDigits_ne_zero {n : Nat} (hpos : 0 < n) :
    ∃ c more, Nat.toDigits 10 n = c :: more ∧ c ≠ '0' := by
  induction n using Nat.strongRecOn with
  | _ n ih =>
  by_cases hsmall : n < 10
  · refine ⟨n.digitChar, [], Nat.toDigits_of_lt_base hsmall, ?_⟩
    rw [Ne, Nat.digitChar_eq_zero]
    exact hpos.ne'
  · have hlarge : 10 ≤ n := Nat.le_of_not_lt hsmall
    obtain ⟨c, more, heq, hne⟩ := ih (n / 10) (by omega) (by omega)
    refine ⟨c, more ++ [(n % 10).digitChar], ?_, hne⟩
    rw [Nat.toDigits_of_base_le (by decide) hlarge, heq, List.cons_append]

/-- Digits that are read after a number only make it greater. -/
theorem le_ofDigitChars (digits : List Char) (value : Nat) :
    value ≤ Nat.ofDigitChars 10 digits value := by
  induction digits generalizing value with
  | nil => exact le_rfl
  | cons digit digits ih =>
      rw [Nat.ofDigitChars_cons]
      exact le_trans (by omega) (ih _)

/-- Digits that all fit are all taken in. -/
theorem Significand.addWhole_eq {digits : List Char} {value : Nat}
    (hfits : Nat.ofDigitChars 10 digits value < Nat.pow 2 64) :
    Significand.addWhole ⟨value, 0⟩ digits = ⟨Nat.ofDigitChars 10 digits value, 0⟩ := by
  induction digits generalizing value with
  | nil => rfl
  | cons digit digits ih =>
      rw [Nat.ofDigitChars_cons] at hfits ⊢
      have hnext := lt_of_le_of_lt (le_ofDigitChars digits _) hfits
      rw [Significand.addWhole]
      exact (if_pos hnext).trans (ih hfits)

namespace NumberToken

theorem scanWhole_toDigits (n : Nat) :
    scanWhole (Nat.toDigits 10 n) = .ok (Nat.toDigits 10 n, []) := by
  rcases Nat.eq_zero_or_pos n with rfl | hpos
  · rfl
  obtain ⟨c, more, heq, hne⟩ := head_toDigits_ne_zero hpos
  have hdigits : ∀ c ∈ Nat.toDigits 10 n, c.isDigit = true := fun c hc =>
    Nat.isDigit_of_mem_toDigits (by decide) (by decide) hc
  rw [heq] at hdigits ⊢
  rw [scanWhole_of_ne_zero hne, scanDigits, List.takeWhile_eq_self_iff.mpr hdigits,
    List.dropWhile_eq_nil_iff.mpr hdigits]
  rfl

theorem scanUnsigned_toDigits (negative : Bool) (n : Nat) :
    scanUnsigned negative (Nat.toDigits 10 n) =
      .ok (⟨negative, Nat.toDigits 10 n, none, none⟩, []) := by
  simp [scanUnsigned, scanWhole_toDigits, scanFraction, scanExponent, bind, Except.bind, pure,
    Except.pure]

theorem scan_toDigits (n : Nat) :
    scan (Nat.toDigits 10 n) = .ok (⟨false, Nat.toDigits 10 n, none, none⟩, []) :=
  scan_of_scanUnsigned (scanUnsigned_toDigits false n)

theorem significand_toDigits {n : Nat} (hfits : n < Nat.pow 2 64) :
    Significand.addWhole ⟨0, 0⟩ (Nat.toDigits 10 n) = ⟨n, 0⟩ := by
  have heq : Nat.ofDigitChars 10 (Nat.toDigits 10 n) 0 = n := Nat.ofDigitChars_ten_toDigits
  rw [Significand.addWhole_eq (by rw [heq]; exact hfits), heq]

end NumberToken

namespace JsonNumber

/-- The number that is read from the written form of a number, if one is. -/
def reread? (number : JsonNumber) : Option JsonNumber :=
  match NumberToken.scan number.chars with
  | .ok (token, []) => token.value?
  | _ => none

theorem reread?_eq_some {number number' : JsonNumber} (hread : number.reread? = some number') :
    ∃ token, NumberToken.scan number.chars = .ok (token, []) ∧ token.value? = some number' := by
  unfold reread? at hread
  split at hread
  · next token hscan => exact ⟨token, hscan, hread⟩
  · cases hread

theorem chars_ofNat (n : Nat) : (JsonNumber.integer n).chars = Nat.toDigits 10 n :=
  Nat.toList_repr

theorem chars_negSucc (n : Nat) :
    (JsonNumber.integer (.negSucc n)).chars = '-' :: Nat.toDigits 10 (n + 1) := by
  change (Int.repr (.negSucc n)).toList = _
  simp [Int.repr]

/-- An integer that fits into 64 bits, with or without a sign, is read back as it is. -/
theorem reread?_integer {value : Int} (hlow : -2 ^ 63 ≤ value) (hhigh : value < 2 ^ 64) :
    (JsonNumber.integer value).reread? = some (.integer value) := by
  cases value with
  | ofNat n =>
      have hfits : n < Nat.pow 2 64 := Int.ofNat_lt.mp hhigh
      simp only [reread?, Int.ofNat_eq_natCast, chars_ofNat, NumberToken.scan_toDigits]
      simp [NumberToken.value?, NumberToken.significand_toDigits hfits]
  | negSucc n =>
      have hsmall : n + 1 ≤ Nat.pow 2 63 := Int.ofNat_le.mp (Int.neg_le_neg_iff.mp hlow)
      have hfits : n + 1 < Nat.pow 2 64 := lt_of_le_of_lt hsmall (by decide)
      have hboth : (0 < n + 1 && n + 1 ≤ Nat.pow 2 63) = true := by simpa using hsmall
      simp only [reread?, chars_negSucc, NumberToken.scan, NumberToken.scanUnsigned_toDigits,
        NumberToken.value?, NumberToken.significand_toDigits hfits]
      simp only [Option.isNone_none, Bool.and_self, Bool.not_true, Bool.and_false, decide_true,
        Bool.false_eq_true, if_false, Bool.true_and]
      rw [if_pos hboth]
      rfl

end JsonNumber

end OpGraph
