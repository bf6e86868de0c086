import OpGraph.Json.Reader
import OpGraph.Proofs.Json.Numbers

/-!
# Written values are read back

The reading of a written value has no fault in it and is that of the value itself, with every number
as it is read from its digits. The reader takes the text of a value off the text around it, so the
statement is one about any text that goes on after the value, and it holds of the items of a list
and of the members of an object as soon as it holds of each.
-/

namespace OpGraph

open NumberToken (Ends)

namespace Json

/-- The value with each number as it is read from its written form. -/
def reread : Json → Json
  | .number value => .number (value.reread?.getD value)
  | .array items => .array (itemsReread items)
  | .object members => .object (membersReread members)
  | value => value
where
  itemsReread : List Json → List Json
    | [] => []
    | item :: items => item.reread :: itemsReread items
  membersReread : List (String × Json) → List (String × Json)
    | [] => []
    | (key, value) :: members => (key, value.reread) :: membersReread members

/-- Each number in the value can be read from its written form. -/
def Legible : Json → Prop
  | .number value => value.reread?.isSome = true
  | .array items => itemsLegible items
  | .object members => membersLegible members
  | _ => True
where
  itemsLegible : List Json → Prop
    | [] => True
    | item :: items => item.Legible ∧ itemsLegible items
  membersLegible : List (String × Json) → Prop
    | [] => True
    | (_, value) :: members => value.Legible ∧ membersLegible members

/-- How deeply lists and objects are nested. -/
def height (value : Json) : Nat := value.reading.height

/-- What holds of a list when it holds of its items, of an object when it holds of the values of its
members, and of all leaves, holds of every value. -/
theorem nested_induction {motive : Json → Prop} (hnull : motive .null)
    (hbool : ∀ value, motive (.bool value)) (hnumber : ∀ value, motive (.number value))
    (hstring : ∀ text, motive (.string text))
    (harray : ∀ items, (∀ item ∈ items, motive item) → motive (.array items))
    (hobject : ∀ members, (∀ member ∈ members, motive member.2) → motive (.object members))
    (value : Json) : motive value := by
  refine Json.rec (motive_1 := motive) (motive_2 := fun items => ∀ item ∈ items, motive item)
    (motive_3 := fun members => ∀ member ∈ members, motive member.2)
    (motive_4 := fun member => motive member.2)
    hnull hbool hnumber hstring harray hobject ?_ ?_ ?_ ?_ ?_ value
  · simp
  · intro item items hitem hitems
    simpa using ⟨hitem, hitems⟩
  · simp
  · rintro ⟨key, value⟩ members hvalue hmembers
    simpa using ⟨hvalue, by simpa using hmembers⟩
  · exact fun _ _ hvalue => hvalue

section Nested

variable {items : List Json} {members : List (String × Json)}

theorem itemsReread_eq : reread.itemsReread items = items.map reread := by
  induction items with
  | nil => rfl
  | cons item items ih => rw [reread.itemsReread, ih, List.map_cons]

theorem membersReread_eq :
    reread.membersReread members = members.map fun member => (member.1, member.2.reread) := by
  induction members with
  | nil => rfl
  | cons member members ih => rw [reread.membersReread, ih, List.map_cons]

theorem itemReadings_eq : reading.itemReadings items = items.map reading := by
  induction items with
  | nil => rfl
  | cons item items ih => rw [reading.itemReadings, ih, List.map_cons]

theorem memberReadings_eq : reading.memberReadings members =
    members.map fun member => (.ok member.1, member.2.reading) := by
  induction members with
  | nil => rfl
  | cons member members ih => rw [reading.memberReadings, ih, List.map_cons]

theorem legible_array : (array items).Legible ↔ ∀ item ∈ items, item.Legible := by
  rw [Legible]
  induction items with
  | nil => simp [Legible.itemsLegible]
  | cons item items ih => rw [Legible.itemsLegible, ih, List.forall_mem_cons]

theorem legible_object : (object members).Legible ↔ ∀ member ∈ members, member.2.Legible := by
  rw [Legible]
  induction members with
  | nil => simp [Legible.membersLegible]
  | cons member members ih => rw [Legible.membersLegible, ih, List.forall_mem_cons]

theorem reading_reread_array : (array items).reread.reading =
    .array (items.map fun item => item.reread.reading) none := by
  rw [reread, itemsReread_eq, reading, itemReadings_eq, List.map_map]
  rfl

theorem reading_reread_object : (object members).reread.reading =
    .object (members.map fun member => (.ok member.1, member.2.reread.reading)) none := by
  rw [reread, membersReread_eq, reading, memberReadings_eq, List.map_map]
  rfl

end Nested

end Json

/-! ## The beginning of a value -/

/-- What a number does not begin with. -/
theorem NumberToken.head_ne {c : Char} (hhead : c = '-' ∨ c.isDigit = true) :
    ∀ other ∈ [' ', '\n', '\t', '\r', '[', ']', '\x7b', '"', 'n', 't', 'f'], c ≠ other := by
  have hother : ∀ other ∈ [' ', '\n', '\t', '\r', '[', ']', '\x7b', '"', 'n', 't', 'f'],
      ¬ (other = '-' ∨ other.isDigit = true) := by simp
  rintro other hmem rfl
  exact hother c hmem hhead

namespace Json

/-- A value begins with a character that is not blank and closes no list. -/
theorem exists_head {value : Json} (hlegible : value.Legible) (depth : Nat) :
    ∃ c more, value.prettyChars depth = c :: more ∧ Reading.isBlank c = false ∧ c ≠ ']' := by
  have hword : ∀ {c : Char}, c ∈ ['n', 't', 'f', '"', '[', '\x7b', '-'] →
      Reading.isBlank c = false ∧ c ≠ ']' := by simp +contextual [Reading.isBlank]
  cases value with
  | null => exact ⟨_, _, rfl, hword (by simp)⟩
  | bool value =>
      cases value
      · exact ⟨_, _, rfl, hword (by simp)⟩
      · exact ⟨_, _, rfl, hword (by simp)⟩
  | number value =>
      obtain ⟨value', hread⟩ := Option.isSome_iff_exists.mp hlegible
      obtain ⟨token, hscan, -⟩ := JsonNumber.reread?_eq_some hread
      obtain ⟨c, more, heq, hhead⟩ := NumberToken.exists_head_of_scan hscan
      have hne := NumberToken.head_ne hhead
      refine ⟨c, more, heq, ?_, hne ']' (by simp)⟩
      simp [Reading.isBlank, hne ' ' (by simp), hne '\n' (by simp), hne '\t' (by simp),
        hne '\r' (by simp)]
  | string text => exact ⟨_, _, rfl, hword (by simp)⟩
  | array items =>
      cases items
      · exact ⟨_, _, rfl, hword (by simp)⟩
      · exact ⟨_, _, rfl, hword (by simp)⟩
  | object members =>
      cases members
      · exact ⟨_, _, rfl, hword (by simp)⟩
      · exact ⟨_, _, rfl, hword (by simp)⟩

end Json

namespace Reading

open NumberToken (Ends)

variable {c : Char} {chars rest left more : List Char} {steps depth : Nat}

theorem skipBlanks_cons (hblank : isBlank c = false) : skipBlanks (c :: chars) = c :: chars := by
  simp [skipBlanks, hblank]

theorem skipBlanks_newLine (depth : Nat) (chars : List Char) :
    skipBlanks (Json.newLine depth ++ chars) = skipBlanks chars := by
  have hblanks : ∀ count, skipBlanks (List.replicate count ' ' ++ chars) = skipBlanks chars := by
    intro count
    induction count with
    | zero => rfl
    | succ count ih => exact ih
  exact hblanks (2 * depth)

/-- Blanks before a value do not matter. -/
theorem readValue_blank (hblank : isBlank c = true) :
    readValue steps (c :: chars) = readValue steps chars := by
  have hskip : skipBlanks (c :: chars) = skipBlanks chars := by simp [skipBlanks, hblank]
  cases steps with
  | zero => rfl
  | succ steps => rw [readValue, readValue, hskip]

/-! ### Lists -/

theorem readValue_list {items : List Reading} {stop : Option ListStop} {rest? : Option (List Char)}
    (hskip : skipBlanks chars = c :: more) (hbracket : c ≠ ']')
    (hitems : readItems steps (c :: more) = (items, stop, rest?)) :
    readValue (steps + 1) ('[' :: chars) = (.array items stop, rest?) := by
  rw [readValue, skipBlanks_cons (by decide)]
  simp only [hskip]
  split
  · next heq => cases heq
  · next heq => exact absurd (List.cons.inj heq).1 hbracket
  · simp only [hitems]

theorem readItems_last {item : Reading} (hitem : readValue steps chars = (item, some rest))
    (hskip : skipBlanks rest = ']' :: left) :
    readItems (steps + 1) chars = ([item], none, some left) := by
  simp only [readItems, hitem, hskip]

theorem readItems_next {item : Reading} {items : List Reading} {stop : Option ListStop}
    {rest? : Option (List Char)} (hitem : readValue steps chars = (item, some rest))
    (hcomma : skipBlanks rest = ',' :: left) (hskip : skipBlanks left = c :: more)
    (hbracket : c ≠ ']') (hitems : readItems steps (c :: more) = (items, stop, rest?)) :
    readItems (steps + 1) chars = (item :: items, stop, rest?) := by
  simp only [readItems, hitem, hcomma, hskip]
  split
  · next heq => cases heq
  · next heq => exact absurd (List.cons.inj heq).1 hbracket
  · simp only [hitems]

/-! ### Objects -/

theorem readValue_object {members : List (Except JsonFault String × Reading)}
    {stop : Option ObjectStop} {rest? : Option (List Char)}
    (hskip : skipBlanks chars = c :: more) (hbrace : c ≠ '\x7d')
    (hmembers : readMembers steps (c :: more) = (members, stop, rest?)) :
    readValue (steps + 1) ('\x7b' :: chars) = (.object members stop, rest?) := by
  rw [readValue, skipBlanks_cons (by decide)]
  simp only [hskip]
  split
  · next heq => cases heq
  · next heq => exact absurd (List.cons.inj heq).1 hbrace
  · simp only [hmembers]

theorem readMembers_key {key : String} (hkey : JsonString.read steps rest = .ok (key, left)) :
    readMembers (steps + 1) ('"' :: rest) = readMember steps (.ok key) left := by
  simp only [readMembers, hkey]

variable {key : Except JsonFault String} {value : Reading}

theorem readMember_last (hcolon : skipBlanks chars = ':' :: more)
    (hvalue : readValue steps more = (value, some rest))
    (hskip : skipBlanks rest = '\x7d' :: left) :
    readMember (steps + 1) key chars = ([(key, value)], none, some left) := by
  simp only [readMember, hcolon, hvalue, hskip]

theorem readMember_next {members : List (Except JsonFault String × Reading)}
    {stop : Option ObjectStop} {rest? : Option (List Char)} {after : List Char}
    (hcolon : skipBlanks chars = ':' :: more) (hvalue : readValue steps more = (value, some rest))
    (hcomma : skipBlanks rest = ',' :: left) (hskip : skipBlanks left = c :: after)
    (hbrace : c ≠ '\x7d') (hmembers : readMembers steps (c :: after) = (members, stop, rest?)) :
    readMember (steps + 1) key chars = ((key, value) :: members, stop, rest?) := by
  simp only [readMember, hcolon, hvalue, hcomma, hskip]
  split
  · next heq => cases heq
  · next heq => exact absurd (List.cons.inj heq).1 hbrace
  · simp only [hmembers]

/-! ### Leaves -/

theorem readValue_leaf (hblank : isBlank c = false) (hbracket : c ≠ '[') (hbrace : c ≠ '\x7b') :
    readValue (steps + 1) (c :: chars) = readLeaf steps (c :: chars) := by
  rw [readValue, skipBlanks_cons hblank]
  split
  · next heq => exact absurd (List.cons.inj heq).1 hbracket
  · next heq => exact absurd (List.cons.inj heq).1 hbrace
  · rfl

theorem readLeaf_number (hhead : c = '-' ∨ c.isDigit = true) :
    readLeaf steps (c :: chars) = readNumber (c :: chars) := by
  have hne := NumberToken.head_ne hhead
  unfold readLeaf
  split
  · next heq => cases heq
  · next heq => exact absurd (List.cons.inj heq).1 (hne 'n' (by simp))
  · next heq => exact absurd (List.cons.inj heq).1 (hne 't' (by simp))
  · next heq => exact absurd (List.cons.inj heq).1 (hne 'f' (by simp))
  · next heq => exact absurd (List.cons.inj heq).1 (hne '"' (by simp))
  · next heq =>
    obtain ⟨rfl, -⟩ := List.cons.inj heq
    exact if_pos (by simpa using hhead)

end Reading

/-! ## Strings -/

namespace JsonString

theorem length_encodeChar (c : Char) : 1 ≤ (encodeChar c).length := by
  unfold encodeChar
  split
  case h_8 => split <;> simp
  all_goals simp

theorem length_encode (text : String) : text.toList.length + 2 ≤ (encode text).length := by
  have hchars : ∀ chars : List Char, chars.length ≤ (chars.flatMap encodeChar).length := by
    intro chars
    induction chars with
    | nil => simp
    | cons c chars ih =>
        have hc := length_encodeChar c
        simp only [List.length_cons, List.flatMap_cons, List.length_append]
        omega
  have htext := hchars text.toList
  simp only [encode, List.length_cons, List.length_append, List.length_nil]
  omega

/-- A written string is read back, after its opening quote. -/
theorem read_encode (text : String) {rest : List Char} {limit : Nat}
    (hlimit : text.toList.length < limit) :
    read limit (text.toList.flatMap encodeChar ++ '"' :: rest) = .ok (text, rest) := by
  simp [read, readUpTo_encoded _ _ _ hlimit, Except.map]

end JsonString

/-! ## Values -/

namespace Json

open Reading

variable {rest : List Char} {depth steps : Nat}

theorem ends_newLine : Ends (newLine depth ++ rest) := by
  rintro c hc
  cases hc
  decide

theorem ends_comma : Ends (',' :: rest) := by
  rintro c hc
  cases hc
  decide

/-- A value on a line of its own begins where the blanks end. -/
theorem exists_skipBlanks {value : Json} (hlegible : value.Legible) (depth : Nat)
    (rest : List Char) :
    ∃ c more, value.prettyChars depth ++ rest = c :: more ∧ c ≠ ']' ∧
      skipBlanks (newLine depth ++ (value.prettyChars depth ++ rest)) = c :: more := by
  obtain ⟨c, more, heq, hblank, hbracket⟩ := exists_head hlegible depth
  refine ⟨c, more ++ rest, by rw [heq, List.cons_append], hbracket, ?_⟩
  rw [skipBlanks_newLine, heq]
  exact skipBlanks_cons hblank

/-- A key on a line of its own begins where the blanks end. -/
theorem skipBlanks_key (key : String) (depth : Nat) (rest : List Char) :
    skipBlanks (newLine depth ++ (JsonString.encode key ++ rest)) =
      '"' :: (key.toList.flatMap JsonString.encodeChar ++ ['"'] ++ rest) := by
  rw [skipBlanks_newLine]
  exact skipBlanks_cons (by decide)

/-- The reader takes the written value off any text that does not go on like a number. -/
def ReadBack (value : Json) : Prop :=
  ∀ ⦃depth steps : Nat⦄ ⦃rest : List Char⦄, Ends rest →
    (value.prettyChars depth).length ≤ steps →
    readValue steps (value.prettyChars depth ++ rest) = (value.reread.reading, some rest)

theorem readBack_null : null.ReadBack := by
  intro depth steps rest _ hsteps
  obtain _ | steps := steps
  · cases hsteps
  rw [prettyChars, List.cons_append, readValue_leaf (by decide) (by decide) (by decide)]
  rfl

theorem readBack_bool (value : Bool) : (bool value).ReadBack := by
  intro depth steps rest _ hsteps
  obtain _ | steps := steps
  · cases value <;> cases hsteps
  cases value
  · rw [prettyChars, boolChars, if_neg (by decide), List.cons_append,
      readValue_leaf (by decide) (by decide) (by decide)]
    rfl
  · rw [prettyChars, boolChars, if_pos rfl, List.cons_append,
      readValue_leaf (by decide) (by decide) (by decide)]
    rfl

theorem readBack_number {value : JsonNumber} (hlegible : (number value).Legible) :
    (number value).ReadBack := by
  intro depth steps rest hrest hsteps
  obtain ⟨value', hread⟩ := Option.isSome_iff_exists.mp hlegible
  obtain ⟨token, hscan, hvalue⟩ := JsonNumber.reread?_eq_some hread
  have hnumber : readNumber (value.chars ++ rest) = (.number value', some rest) := by
    rw [readNumber, NumberToken.scan_append hrest hscan]
    simp [hvalue]
  obtain ⟨c, more, heq, hhead⟩ := NumberToken.exists_head_of_scan hscan
  have hne := NumberToken.head_ne hhead
  obtain ⟨c', more', heq', hblank, -⟩ := exists_head hlegible depth
  obtain ⟨rfl, rfl⟩ := List.cons.inj (heq.symm.trans heq')
  rw [prettyChars, heq] at hsteps ⊢
  obtain _ | steps := steps
  · cases hsteps
  rw [List.cons_append, readValue_leaf hblank (hne '[' (by simp)) (hne '\x7b' (by simp)),
    readLeaf_number hhead, ← List.cons_append, ← heq, hnumber, reread, hread]
  rfl

theorem readBack_string (text : String) : (string text).ReadBack := by
  intro depth steps rest _ hsteps
  have hlength := JsonString.length_encode text
  rw [prettyChars] at hsteps ⊢
  obtain _ | steps := steps
  · omega
  rw [JsonString.encode, List.cons_append, readValue_leaf (by decide) (by decide) (by decide),
    readLeaf, readString, List.append_assoc, List.singleton_append,
    JsonString.read_encode text (by omega)]
  rfl

/-- The items of a list are read one after the other. -/
theorem readItems_itemLines {items : List Json} : ∀ {item : Json} {steps : Nat},
    (∀ value ∈ item :: items, value.Legible ∧ value.ReadBack) →
    (item.prettyChars (depth + 1)).length + (prettyChars.itemLines depth items).length ≤ steps →
    readItems steps (item.prettyChars (depth + 1) ++ (prettyChars.itemLines depth items ++ rest)) =
      ((item :: items).map fun value => value.reread.reading, none, some rest) := by
  induction items with
  | nil =>
      intro item steps hitems hsteps
      simp only [prettyChars.itemLines, newLine, List.length_cons, List.length_append,
        List.length_nil] at hsteps
      obtain _ | steps := steps
      · omega
      rw [prettyChars.itemLines, List.append_assoc]
      refine readItems_last ((hitems item (by simp)).2 ends_newLine (by omega)) ?_
      rw [skipBlanks_newLine]
      exact skipBlanks_cons (by decide)
  | cons next items ih =>
      intro item steps hitems hsteps
      rw [List.forall_mem_cons] at hitems
      simp only [prettyChars.itemLines, newLine, List.length_cons, List.length_append] at hsteps
      obtain _ | steps := steps
      · omega
      obtain ⟨c, more, heq, hbracket, hskip⟩ := exists_skipBlanks (hitems.2 next (by simp)).1
        (depth + 1) (prettyChars.itemLines depth items ++ rest)
      rw [prettyChars.itemLines, List.cons_append, List.append_assoc, List.append_assoc]
      refine readItems_next (hitems.1.2 ends_comma (by omega)) (skipBlanks_cons (by decide))
        hskip hbracket ?_
      rw [← heq]
      exact ih hitems.2 (by omega)

theorem readBack_array {items : List Json}
    (hitems : ∀ value ∈ items, value.Legible ∧ value.ReadBack) : (array items).ReadBack := by
  intro depth steps rest _ hsteps
  rw [reading_reread_array]
  cases items with
  | nil =>
      obtain _ | steps := steps
      · cases hsteps
      rw [prettyChars, List.cons_append, readValue, skipBlanks_cons (by decide)]
      rfl
  | cons item items =>
      simp only [prettyChars, newLine, List.length_cons, List.length_append] at hsteps
      obtain _ | steps := steps
      · omega
      obtain ⟨c, more, heq, hbracket, hskip⟩ := exists_skipBlanks (hitems item (by simp)).1
        (depth + 1) (prettyChars.itemLines depth items ++ rest)
      rw [prettyChars, List.cons_append, List.append_assoc, List.append_assoc]
      refine readValue_list hskip hbracket ?_
      rw [← heq]
      exact readItems_itemLines hitems (by omega)

/-- The members of an object are read one after the other. -/
theorem readMembers_memberLines {members : List (String × Json)} :
    ∀ {key : String} {value : Json} {steps : Nat},
    (∀ member ∈ (key, value) :: members, member.2.ReadBack) →
    (JsonString.encode key).length + (value.prettyChars (depth + 1)).length +
      (prettyChars.memberLines depth members).length ≤ steps →
    readMembers steps (JsonString.encode key ++ ':' :: ' ' ::
        (value.prettyChars (depth + 1) ++ (prettyChars.memberLines depth members ++ rest))) =
      (((key, value) :: members).map fun member => (.ok member.1, member.2.reread.reading),
        none, some rest) := by
  induction members with
  | nil =>
      intro key value steps hmembers hsteps
      have hlength := JsonString.length_encode key
      simp only [prettyChars.memberLines, newLine, List.length_cons, List.length_append,
        List.length_nil] at hsteps
      obtain _ | _ | steps := steps
      · omega
      · omega
      have hvalue : value.ReadBack := hmembers (key, value) (by simp)
      simp only [prettyChars.memberLines, JsonString.encode, List.cons_append, List.append_assoc,
        List.nil_append]
      rw [readMembers_key (JsonString.read_encode key (by omega))]
      refine readMember_last (skipBlanks_cons (by decide))
        ((readValue_blank (by decide)).trans (hvalue ends_newLine (by omega))) ?_
      rw [skipBlanks_newLine]
      exact skipBlanks_cons (by decide)
  | cons next members ih =>
      intro key value steps hmembers hsteps
      rw [List.forall_mem_cons] at hmembers
      have hlength := JsonString.length_encode key
      simp only [prettyChars.memberLines, newLine, List.length_cons, List.length_append] at hsteps
      obtain _ | _ | steps := steps
      · omega
      · omega
      have hvalue : value.ReadBack := hmembers.1
      simp only [prettyChars.memberLines, List.cons_append, List.append_assoc]
      rw [JsonString.encode, List.cons_append, List.append_assoc, List.singleton_append,
        readMembers_key (JsonString.read_encode key (by omega))]
      exact readMember_next (skipBlanks_cons (by decide))
        ((readValue_blank (by decide)).trans (hvalue ends_comma (by omega)))
        (skipBlanks_cons (by decide)) (skipBlanks_key next.1 (depth + 1) _) (by decide)
        (ih hmembers.2 (by omega))

theorem readBack_object {members : List (String × Json)}
    (hmembers : ∀ member ∈ members, member.2.ReadBack) : (object members).ReadBack := by
  intro depth steps rest _ hsteps
  rw [reading_reread_object]
  cases members with
  | nil =>
      obtain _ | steps := steps
      · cases hsteps
      rw [prettyChars, List.cons_append, readValue, skipBlanks_cons (by decide)]
      rfl
  | cons member members =>
      obtain ⟨key, value⟩ := member
      simp only [prettyChars, newLine, List.length_cons, List.length_append] at hsteps
      obtain _ | steps := steps
      · omega
      simp only [prettyChars, List.cons_append, List.append_assoc]
      refine readValue_object (skipBlanks_key key (depth + 1) _) (by decide) ?_
      exact readMembers_memberLines hmembers (by omega)

/-- Every legible value is read back. -/
theorem Legible.readBack {value : Json} (hlegible : value.Legible) : value.ReadBack := by
  induction value using nested_induction with
  | hnull => exact readBack_null
  | hbool value => exact readBack_bool value
  | hnumber value => exact readBack_number hlegible
  | hstring text => exact readBack_string text
  | harray items ih =>
      rw [legible_array] at hlegible
      exact readBack_array fun item hitem =>
        ⟨hlegible item hitem, ih item hitem (hlegible item hitem)⟩
  | hobject members ih =>
      rw [legible_object] at hlegible
      exact readBack_object fun member hmember => ih member hmember (hlegible member hmember)

/-- The text of a legible value is read as this value, and nothing is left of it. -/
theorem Legible.ofText_pretty {value : Json} (hlegible : value.Legible) :
    Document.ofText value.pretty = ⟨value.reread.reading, false⟩ := by
  have hread : readValue (2 * (value.prettyChars 0).length + 2) (value.prettyChars 0 ++ []) =
      (value.reread.reading, some []) := hlegible.readBack NumberToken.ends_nil (by omega)
  rw [List.append_nil] at hread
  rw [Document.ofText, pretty, String.toList_ofList, Document.ofChars, hread]
  rfl

end Json

end OpGraph
