import OpGraph.Json.Fault

/-!
Strings in a JSON text. Written strings escape quotes, backslashes and controls only. A string is
read with its escapes resolved, or skipped: skipping checks that each escape is complete, but not
that the code units it stands for make up a character.
-/

namespace OpGraph

namespace JsonString

def hexDigit (value : Nat) : Char := Nat.digitChar value

/-- How one character is written. -/
def encodeChar (c : Char) : List Char :=
  match c with
  | '"' => ['\\', '"']
  | '\\' => ['\\', '\\']
  | '\x08' => ['\\', 'b']
  | '\x0c' => ['\\', 'f']
  | '\n' => ['\\', 'n']
  | '\r' => ['\\', 'r']
  | '\t' => ['\\', 't']
  | c =>
      if c.toNat < 0x20 then
        ['\\', 'u', '0', '0', hexDigit (c.toNat / 16), hexDigit (c.toNat % 16)]
      else [c]

/-- The written string with its quotes. -/
def encode (text : String) : List Char :=
  '"' :: (text.toList.flatMap encodeChar ++ ['"'])

/-- The character of an escape of one letter. -/
def shortEscape? : Char → Option Char
  | '"' => some '"'
  | '\\' => some '\\'
  | '/' => some '/'
  | 'b' => some '\x08'
  | 'f' => some '\x0c'
  | 'n' => some '\n'
  | 'r' => some '\r'
  | 't' => some '\t'
  | _ => none

def hexValue? (c : Char) : Option Nat :=
  if '0' ≤ c && c ≤ '9' then some (c.toNat - '0'.toNat)
  else if 'a' ≤ c && c ≤ 'f' then some (c.toNat - 'a'.toNat + 10)
  else if 'A' ≤ c && c ≤ 'F' then some (c.toNat - 'A'.toNat + 10)
  else none

/-- Whether fewer than four bytes are left. -/
def shorterThanFour (chars : List Char) : Bool :=
  (chars.take 4).foldl (fun size char => size + char.utf8Size) 0 < 4

/-- The code unit of four hexadecimal digits. -/
def codeUnit (chars : List Char) : Except JsonFault (Nat × List Char) :=
  if shorterThanFour chars then .error .endInString
  else match chars with
    | a :: b :: c :: d :: rest =>
        match hexValue? a, hexValue? b, hexValue? c, hexValue? d with
        | some a, some b, some c, some d => .ok (((a * 16 + b) * 16 + c) * 16 + d, rest)
        | _, _, _, _ => .error .invalidEscape
    | _ => .error .invalidEscape

def isLeading (unit : Nat) : Bool := 0xd800 ≤ unit && unit ≤ 0xdbff

def isTrailing (unit : Nat) : Bool := 0xdc00 ≤ unit && unit ≤ 0xdfff

/-- The character that a leading and a trailing surrogate stand for. -/
def joinSurrogates (leading trailing : Nat) : Char :=
  Char.ofNat ((leading - 0xd800) * 0x400 + (trailing - 0xdc00) + 0x10000)

/-- The second half of a pair of escaped surrogates. -/
def trailingUnit (chars : List Char) : Except JsonFault (Nat × List Char) :=
  match chars with
  | [] | ['\\'] => .error .endInString
  | '\\' :: 'u' :: rest => do
      let (unit, rest) ← codeUnit rest
      if isTrailing unit then return (unit, rest) else throw .loneSurrogate
  | _ => .error .truncatedSurrogate

/-- The character of an escape by code units. -/
def unicodeEscape (chars : List Char) : Except JsonFault (Char × List Char) := do
  let (unit, rest) ← codeUnit chars
  if isTrailing unit then throw .loneSurrogate
  else if isLeading unit then
    let (trailing, rest) ← trailingUnit rest
    return (joinSurrogates unit trailing, rest)
  else return (Char.ofNat unit, rest)

/-- The character of an escape, after its backslash. -/
def escape (chars : List Char) : Except JsonFault (Char × List Char) :=
  match chars with
  | [] => .error .endInString
  | 'u' :: rest => unicodeEscape rest
  | letter :: rest =>
      match shortEscape? letter with
      | some c => .ok (c, rest)
      | none => .error .invalidEscape

/-- Reads the characters up to the closing quote, after the opening one. Each step takes at least
one character off, so the length of the text bounds the steps. -/
def readUpTo : Nat → List Char → Except JsonFault (List Char × List Char)
  | 0, _ => .error .endInString
  | _ + 1, [] => .error .endInString
  | steps + 1, c :: rest =>
      if c = '"' then .ok ([], rest)
      else if c = '\\' then do
        let (c, rest) ← escape rest
        let (text, rest) ← readUpTo steps rest
        return (c :: text, rest)
      else if c.toNat < 0x20 then .error .controlCharacter
      else do
        let (text, rest) ← readUpTo steps rest
        return (c :: text, rest)

/-- Skips an escape, after its backslash. -/
def skipEscape (chars : List Char) : Except JsonFault (List Char) :=
  match chars with
  | [] => .error .endInString
  | 'u' :: rest => (codeUnit rest).map (·.2)
  | letter :: rest => if (shortEscape? letter).isSome then .ok rest else .error .invalidEscape

/-- Skips the characters up to the closing quote. -/
def skipUpTo : Nat → List Char → Except JsonFault (List Char)
  | 0, _ => .error .endInString
  | _ + 1, [] => .error .endInString
  | steps + 1, c :: rest =>
      if c = '"' then .ok rest
      else if c = '\\' then do skipUpTo steps (← skipEscape rest)
      else if c.toNat < 0x20 then .error .controlCharacter
      else skipUpTo steps rest

/-- Reads a string, after its opening quote. -/
def read (limit : Nat) (chars : List Char) : Except JsonFault (String × List Char) :=
  (readUpTo limit chars).map fun (text, rest) => (String.ofList text, rest)

/-- The two digits of the escape of a control. -/
theorem hexDigits_control : ∀ n, n < 0x20 →
    hexValue? (hexDigit (n / 16)) = some (n / 16) ∧
    hexValue? (hexDigit (n % 16)) = some (n % 16) ∧
    (hexDigit (n / 16)).utf8Size = 1 ∧ (hexDigit (n % 16)).utf8Size = 1 := by
  decide

/-- The escape of a control stands for this control. -/
theorem codeUnit_control {n : Nat} (hn : n < 0x20) (rest : List Char) :
    codeUnit ('0' :: '0' :: hexDigit (n / 16) :: hexDigit (n % 16) :: rest) = .ok (n, rest) := by
  obtain ⟨hhigh, hlow, hhighSize, hlowSize⟩ := hexDigits_control n hn
  have hlong : shorterThanFour
      ('0' :: '0' :: hexDigit (n / 16) :: hexDigit (n % 16) :: rest) = false := by
    simp [shorterThanFour, hhighSize, hlowSize, show '0'.utf8Size = 1 from rfl]
  have hzero : hexValue? '0' = some 0 := rfl
  simp only [codeUnit, hlong, hzero, hhigh, hlow, Bool.false_eq_true, if_false]
  congr 2
  omega

theorem readUpTo_encodeChar (c : Char) (steps : Nat) (rest : List Char) :
    readUpTo (steps + 1) (encodeChar c ++ rest) =
      (readUpTo steps rest).map fun (text, rest) => (c :: text, rest) := by
  have hread (c : Char) (escaped : List Char)
      (hescape : escape (escaped ++ rest) = .ok (c, rest)) :
      readUpTo (steps + 1) ('\\' :: (escaped ++ rest)) =
        (readUpTo steps rest).map fun (text, rest) => (c :: text, rest) := by
    rw [readUpTo, if_neg (by decide), if_pos rfl, hescape]
    cases hrest : readUpTo steps rest <;>
      simp [bind, Except.bind, hrest, Except.map, pure, Except.pure]
  unfold encodeChar
  split
  · exact hread '"' ['"'] rfl
  · exact hread '\\' ['\\'] rfl
  · exact hread '\x08' ['b'] rfl
  · exact hread '\x0c' ['f'] rfl
  · exact hread '\n' ['n'] rfl
  · exact hread '\r' ['r'] rfl
  · exact hread '\t' ['t'] rfl
  · next hquote hbackslash _ _ _ _ _ =>
    split
    · next hcontrol =>
      refine hread c ['u', '0', '0', hexDigit (c.toNat / 16), hexDigit (c.toNat % 16)] ?_
      have hleading : isLeading c.toNat = false := by
        simp [isLeading]; omega
      have htrailing : isTrailing c.toNat = false := by
        simp [isTrailing]; omega
      simp [escape, unicodeEscape, codeUnit_control hcontrol, hleading, htrailing, bind,
        Except.bind, pure, Except.pure]
    · next hprintable =>
      have hquote' : c ≠ '"' := hquote
      have hbackslash' : c ≠ '\\' := hbackslash
      simp only [List.singleton_append, readUpTo, hquote', hbackslash', if_false, hprintable]
      cases readUpTo steps rest <;> rfl

/-- A written string is read back. -/
theorem readUpTo_encoded (text rest : List Char) (steps : Nat) (hsteps : text.length < steps) :
    readUpTo steps (text.flatMap encodeChar ++ '"' :: rest) = .ok (text, rest) := by
  induction text generalizing steps with
  | nil =>
      obtain ⟨steps, rfl⟩ := Nat.exists_eq_add_one_of_ne_zero (Nat.ne_of_gt hsteps)
      rfl
  | cons c text ih =>
      obtain ⟨steps, rfl⟩ := Nat.exists_eq_add_one_of_ne_zero
        (Nat.ne_of_gt (Nat.lt_of_le_of_lt (Nat.zero_le _) hsteps))
      rw [List.flatMap_cons, List.append_assoc, readUpTo_encodeChar,
        ih steps (Nat.lt_of_succ_lt_succ hsteps)]
      rfl

end JsonString

end OpGraph
