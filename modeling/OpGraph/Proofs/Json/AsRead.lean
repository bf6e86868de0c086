import OpGraph.Proofs.Json.Decoding

/-!
# What is read from the text of a value

The text of a value has null in the place of each number that is not finite. So what is read from it
is the value with these numbers blanked out and all others read from their digits. Nothing else is
lost, and lists and objects are nested as deeply as before.
-/

namespace OpGraph

/-- The number is not infinite and no NaN. -/
def JsonNumber.isFinite : JsonNumber → Bool
  | .integer _ => true
  | .double value => value.isFinite
  | .single value => value.isFinite

namespace Json

/-- The value with null in the place of each number that is not finite. -/
def blanked : Json → Json
  | .number value => if value.isFinite then .number value else .null
  | .array items => .array (itemsBlanked items)
  | .object members => .object (membersBlanked members)
  | value => value
where
  itemsBlanked : List Json → List Json
    | [] => []
    | item :: items => item.blanked :: itemsBlanked items
  membersBlanked : List (String × Json) → List (String × Json)
    | [] => []
    | (key, value) :: members => (key, value.blanked) :: membersBlanked members

/-- All numbers in the value are finite: there is nothing to blank out. -/
def Finite (value : Json) : Prop := value.blanked = value

/-- The value as it is read from its text. -/
def asRead (value : Json) : Json := value.blanked.reread

/-- The text of the value can be read: each finite number in it is read from its digits. -/
def Readable (value : Json) : Prop := value.blanked.Legible

section Nested

variable {items : List Json} {members : List (String × Json)}

theorem itemsBlanked_eq : blanked.itemsBlanked items = items.map blanked := by
  induction items with
  | nil => rfl
  | cons item items ih => rw [blanked.itemsBlanked, ih, List.map_cons]

theorem membersBlanked_eq : blanked.membersBlanked members =
    members.map fun member => (member.1, member.2.blanked) := by
  induction members with
  | nil => rfl
  | cons member members ih => rw [blanked.membersBlanked, ih, List.map_cons]

theorem blanked_array : (array items).blanked = .array (items.map blanked) := by
  rw [blanked, itemsBlanked_eq]

theorem blanked_object : (object members).blanked =
    .object (members.map fun member => (member.1, member.2.blanked)) := by
  rw [blanked, membersBlanked_eq]

theorem finite_array : (array items).Finite ↔ ∀ item ∈ items, item.Finite := by
  have hmap : items.map blanked = items.map id ↔ ∀ item ∈ items, item.Finite := List.map_inj_left
  rw [List.map_id] at hmap
  rw [Finite, blanked_array, Json.array.injEq, hmap]

theorem finite_object : (object members).Finite ↔ ∀ member ∈ members, member.2.Finite := by
  have hmap : (members.map fun member => (member.1, member.2.blanked)) = members.map id ↔
      ∀ member ∈ members, (member.1, member.2.blanked) = member := List.map_inj_left
  rw [List.map_id] at hmap
  rw [Finite, blanked_object, Json.object.injEq, hmap]
  constructor
  · intro hmembers member hmember
    exact congrArg Prod.snd (hmembers member hmember)
  · intro hmembers member hmember
    exact Prod.ext rfl (hmembers member hmember)

theorem readable_array : (array items).Readable ↔ ∀ item ∈ items, item.Readable := by
  rw [Readable, blanked_array, legible_array, List.forall_mem_map]
  exact Iff.rfl

theorem readable_object : (object members).Readable ↔ ∀ member ∈ members, member.2.Readable := by
  rw [Readable, blanked_object, legible_object, List.forall_mem_map]
  exact Iff.rfl

theorem asRead_array : (array items).asRead = .array (items.map asRead) := by
  rw [asRead, blanked_array, reread, itemsReread_eq, List.map_map]
  rfl

theorem asRead_object : (object members).asRead =
    .object (members.map fun member => (member.1, member.2.asRead)) := by
  rw [asRead, blanked_object, reread, membersReread_eq, List.map_map]
  rfl

theorem reading_array : (array items).reading = .array (items.map reading) none := by
  rw [reading, itemReadings_eq]

theorem reading_object : (object members).reading =
    .object (members.map fun member => (.ok member.1, member.2.reading)) none := by
  rw [reading, memberReadings_eq]

theorem height_array_le {levels : Nat} :
    (array items).height ≤ levels + 1 ↔ ∀ item ∈ items, item.height ≤ levels := by
  rw [height, reading_array, Reading.height, Nat.add_le_add_iff_right]
  induction items with
  | nil => simp [Reading.height.itemsHeight]
  | cons item items ih =>
      rw [List.map_cons, Reading.height.itemsHeight, Nat.max_le, ih, List.forall_mem_cons]
      exact Iff.rfl

theorem height_object_le {levels : Nat} :
    (object members).height ≤ levels + 1 ↔ ∀ member ∈ members, member.2.height ≤ levels := by
  rw [height, reading_object, Reading.height, Nat.add_le_add_iff_right]
  induction members with
  | nil => simp [Reading.height.membersHeight]
  | cons member members ih =>
      rw [List.map_cons, Reading.height.membersHeight, Nat.max_le, ih, List.forall_mem_cons]
      exact Iff.rfl

end Nested

section Text

/-- What is blanked out is not finite, and was written as null before. -/
theorem prettyChars_blanked (value : Json) :
    ∀ depth, value.blanked.prettyChars depth = value.prettyChars depth := by
  induction value using nested_induction with
  | hnull => exact fun _ => rfl
  | hbool => exact fun _ => rfl
  | hstring => exact fun _ => rfl
  | hnumber value =>
      intro depth
      rw [blanked]
      split
      · rfl
      · next hfinite =>
        cases value with
        | integer => exact absurd rfl hfinite
        | double value => exact (if_neg hfinite).symm
        | single value => exact (if_neg hfinite).symm
  | harray items ih =>
      intro depth
      rw [blanked_array]
      cases items with
      | nil => rfl
      | cons item items =>
          rw [List.forall_mem_cons] at ih
          have hlines : prettyChars.itemLines depth (items.map blanked) =
              prettyChars.itemLines depth items := by
            have hitems := ih.2
            clear ih
            induction items with
            | nil => rfl
            | cons next items ihItems =>
                rw [List.forall_mem_cons] at hitems
                rw [List.map_cons, prettyChars.itemLines, prettyChars.itemLines, hitems.1,
                  ihItems hitems.2]
          rw [List.map_cons, prettyChars, prettyChars, ih.1, hlines]
  | hobject members ih =>
      intro depth
      rw [blanked_object]
      cases members with
      | nil => rfl
      | cons member members =>
          rw [List.forall_mem_cons] at ih
          have hlines :
              prettyChars.memberLines depth
                  (members.map fun member => (member.1, member.2.blanked)) =
                prettyChars.memberLines depth members := by
            have hmembers := ih.2
            clear ih
            induction members with
            | nil => rfl
            | cons next members ihMembers =>
                rw [List.forall_mem_cons] at hmembers
                rw [List.map_cons, prettyChars.memberLines, prettyChars.memberLines, hmembers.1,
                  ihMembers hmembers.2]
          rw [List.map_cons, prettyChars, prettyChars, ih.1, hlines]

/-- The text of a value is read as this value without the numbers that are not finite. -/
theorem Readable.ofText_pretty {value : Json} (hreadable : value.Readable) :
    Document.ofText value.pretty = ⟨value.asRead.reading, false⟩ := by
  have hpretty : value.pretty = value.blanked.pretty := by
    rw [pretty, pretty, prettyChars_blanked]
  rw [hpretty, Legible.ofText_pretty hreadable, asRead]

end Text

/-- Blanking changes no level. -/
theorem height_blanked (value : Json) : value.blanked.height = value.height := by
  induction value using nested_induction with
  | hnull => rfl
  | hbool => rfl
  | hstring => rfl
  | hnumber value => rw [blanked]; split <;> rfl
  | harray items ih =>
      rw [blanked_array, height, height, reading_array, reading_array, List.map_map,
        Reading.height, Reading.height]
      exact congrArg Nat.succ (itemsHeight_congr ih)
  | hobject members ih =>
      rw [blanked_object, height, height, reading_object, reading_object, List.map_map,
        Reading.height, Reading.height]
      exact congrArg Nat.succ (membersHeight_congr ih)

theorem height_asRead (value : Json) : value.asRead.height = value.height := by
  rw [asRead, ← height_blanked value]
  exact height_reread value.blanked

section Leaves

theorem readable_string (text : String) : (string text).Readable := trivial

theorem readable_int {value : Int} (hleast : -2 ^ 63 ≤ value) (hgreatest : value < 2 ^ 64) :
    (int value).Readable :=
  Option.isSome_iff_exists.mpr ⟨_, JsonNumber.reread?_integer hleast hgreatest⟩

theorem finite_single_iff {value : Binary32} :
    (single value).Finite ↔ value.isFinite = true := by
  rw [Finite, single, blanked, JsonNumber.isFinite]
  split <;> simp_all

theorem asRead_of_finite {value : Json} (hfinite : value.Finite) :
    value.asRead = value.reread := by
  rw [asRead, hfinite]

/-- A single that is not finite is read as null. -/
theorem asRead_single_of_not_finite {value : Binary32} (hfinite : value.isFinite ≠ true) :
    (single value).asRead = .null := by
  rw [asRead, single, blanked, JsonNumber.isFinite, if_neg hfinite]
  rfl

end Leaves

end Json

end OpGraph
