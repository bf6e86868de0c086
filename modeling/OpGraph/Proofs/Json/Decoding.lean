import Mathlib.Data.List.Nodup
import OpGraph.Json.Record
import OpGraph.Graph.Decode
import OpGraph.Proofs.Json.Printing

/-!
# Levels of nesting, and decoders of leaves

A list or an object takes one level more than what is in it, and a source allows only so many. A leaf
takes none: a decoder restores it if it gives its value back wherever the written form may stand, in
a text, in a value at hand, or in a part that was read ahead.
-/

namespace OpGraph

/-! ## Levels -/

namespace Json

variable {items : List Json} {members : List (String × Json)}

theorem itemsHeight_congr {first second : Json → Reading}
    (heights : ∀ item ∈ items, (first item).height = (second item).height) :
    Reading.height.itemsHeight (items.map first) =
      Reading.height.itemsHeight (items.map second) := by
  induction items with
  | nil => rfl
  | cons item items ih =>
      rw [List.forall_mem_cons] at heights
      rw [List.map_cons, List.map_cons, Reading.height.itemsHeight, Reading.height.itemsHeight,
        heights.1, ih heights.2]

theorem membersHeight_congr {first second : String × Json → Except JsonFault String × Reading}
    (heights : ∀ member ∈ members, (first member).2.height = (second member).2.height) :
    Reading.height.membersHeight (members.map first) =
      Reading.height.membersHeight (members.map second) := by
  induction members with
  | nil => rfl
  | cons member members ih =>
      rw [List.forall_mem_cons] at heights
      rw [List.map_cons, List.map_cons, Reading.height.membersHeight, Reading.height.membersHeight,
        heights.1, ih heights.2]

/-- Reading a number anew changes no level. -/
theorem height_reread (value : Json) : value.reread.height = value.height := by
  induction value using nested_induction with
  | hnull => rfl
  | hbool => rfl
  | hnumber => rfl
  | hstring => rfl
  | harray items ih =>
      rw [height, reading_reread_array, height, reading, itemReadings_eq, Reading.height,
        Reading.height, itemsHeight_congr ih]
  | hobject members ih =>
      rw [height, reading_reread_object, height, reading, memberReadings_eq, Reading.height,
        Reading.height]
      exact congrArg Nat.succ (membersHeight_congr ih)

theorem height_array_pos : 0 < (array items).height := Nat.succ_pos _

theorem height_object_pos : 0 < (object members).height := Nat.succ_pos _

/-- An item is nested less deeply than its list. -/
theorem height_lt_array {item : Json} (hitem : item ∈ items) :
    item.height < (array items).height := by
  rw [height, height, reading, itemReadings_eq, Reading.height, Nat.lt_succ_iff]
  induction items with
  | nil => cases hitem
  | cons head items ih =>
      rw [List.map_cons, Reading.height.itemsHeight]
      rcases List.mem_cons.mp hitem with rfl | hrest
      · exact Nat.le_max_left _ _
      · exact Nat.le_trans (ih hrest) (Nat.le_max_right _ _)

/-- The value of a member is nested less deeply than its object. -/
theorem height_lt_object {member : String × Json} (hmember : member ∈ members) :
    member.2.height < (object members).height := by
  rw [height, height, reading, memberReadings_eq, Reading.height, Nat.lt_succ_iff]
  induction members with
  | nil => cases hmember
  | cons head members ih =>
      rw [List.map_cons, Reading.height.membersHeight]
      rcases List.mem_cons.mp hmember with rfl | hrest
      · exact Nat.le_max_left _ _
      · exact Nat.le_trans (ih hrest) (Nat.le_max_right _ _)

end Json

/-- So many levels may still be entered. -/
def Source.Allows (source : Source) (height : Nat) : Prop :=
  match source with
  | .text levels => height ≤ levels
  | .value | .ahead => True

theorem Source.Allows.enter {source : Source} {height : Nat} (hallows : source.Allows height)
    (hpos : 0 < height) :
    ∃ inner, source.enter = .ok inner ∧ ∀ lower < height, inner.Allows lower := by
  cases source with
  | text levels =>
      obtain _ | levels := levels
      · exact absurd hpos (Nat.not_lt.mpr hallows)
      · exact ⟨.text levels, rfl, fun lower hlower =>
          Nat.le_of_lt_succ (Nat.lt_of_lt_of_le hlower hallows)⟩
  | value => exact ⟨.value, rfl, fun _ _ => trivial⟩
  | ahead => exact ⟨.ahead, rfl, fun _ _ => trivial⟩

/-- The decoder gives a leaf back from its written form. -/
structure Decoder.Restores {α : Type} (decode : Decoder α) (json : Json) (value : α) : Prop where
  legible : json.Legible
  leaf : json.height = 0
  decodes : ∀ source : Source, decode source json.reread.reading = .ok value

namespace Decoder

variable {α β : Type} {decode : Decoder α} {json : Json} {value : α}

theorem Restores.mapped (hrestores : decode.Restores json value) (make : α → β) :
    (mapped decode make).Restores json (make value) where
  legible := hrestores.legible
  leaf := hrestores.leaf
  decodes source := by rw [Decoder.mapped, hrestores.decodes source]; rfl

theorem string_restores (text : String) : string.Restores (.string text) text :=
  ⟨trivial, rfl, fun _ => rfl⟩

theorem integer_restores {low high value : Int} {name : String} (hlow : low ≤ value)
    (hhigh : value ≤ high) (hleast : -2 ^ 63 ≤ value) (hgreatest : value < 2 ^ 64) :
    (integer low high name).Restores (.int value) value := by
  have hread := JsonNumber.reread?_integer hleast hgreatest
  refine ⟨Option.isSome_iff_exists.mpr ⟨_, hread⟩, rfl, fun source => ?_⟩
  rw [Json.int, Json.reread, hread, Option.getD_some, Json.reading, integer,
    if_pos (by simp [hlow, hhigh])]

theorem int64_restores (value : Int64) : int64.Restores (.int value.toInt) value := by
  have hlow : -2 ^ 63 ≤ value.toInt := value.le_toInt
  have hhigh : value.toInt < 2 ^ 63 := value.toInt_lt
  have hinteger : (integer (-Int.pow 2 63) (Int.pow 2 63 - 1) "i64").Restores
      (.int value.toInt) value.toInt :=
    integer_restores hlow (Int.le_sub_one_of_lt hhigh) hlow (by omega)
  have hrestores := hinteger.mapped Int64.ofInt
  rwa [Int64.ofInt_toInt] at hrestores

theorem int32_restores (value : Int32) : int32.Restores (.int value.toInt) value := by
  have hlow : -2 ^ 31 ≤ value.toInt := value.le_toInt
  have hhigh : value.toInt < 2 ^ 31 := value.toInt_lt
  have hinteger : (integer (-Int.pow 2 31) (Int.pow 2 31 - 1) "i32").Restores
      (.int value.toInt) value.toInt :=
    integer_restores hlow (Int.le_sub_one_of_lt hhigh) (by omega) (by omega)
  have hrestores := hinteger.mapped Int32.ofInt
  rwa [Int32.ofInt_toInt] at hrestores

theorem byte_restores (value : UInt8) : byte.Restores (.nat value.toNat) value := by
  have hhigh := value.toNat_lt
  have hinteger : (integer 0 (Int.pow 2 8 - 1) "u8").Restores (.nat value.toNat) value.toNat :=
    integer_restores (by omega) (by change _ ≤ (2 : Int) ^ 8 - 1; omega) (by omega) (by omega)
  have hrestores := hinteger.mapped fun value => UInt8.ofNat value.toNat
  rwa [Int.toNat_natCast, UInt8.ofNat_toNat] at hrestores

theorem choice_eq_ok {choices : List (String × α)} {word : String}
    (hlookup : choices.lookup word = some value) : choice choices word = .ok value := by
  rw [choice, hlookup]

theorem oneOf_word {choices : List (String × α)} {word : String}
    (hlookup : choices.lookup word = some value) (source : Source) :
    oneOf choices source (.string word) = .ok value := by
  cases source <;> exact choice_eq_ok hlookup

theorem oneOf_restores {choices : List (String × α)} {word : String}
    (hlookup : choices.lookup word = some value) :
    (oneOf choices).Restores (.string word) value :=
  ⟨trivial, rfl, fun source => oneOf_word hlookup source⟩

theorem attributeKind_restores (kind : AttributeKind) : attributeKind.Restores kind.toJson kind :=
  oneOf_restores (by cases kind <;> decide)

end Decoder

/-- Where no two items have the same name, a name finds the item that has it. -/
theorem find?_name_eq_some {α : Type} {name : α → String} {items : List α}
    (hnames : (items.map name).Nodup) {item : α} (hitem : item ∈ items) :
    items.find? (name · == name item) = some item := by
  cases hfind : items.find? (name · == name item) with
  | none => exact absurd (List.find?_eq_none.mp hfind item hitem) (by simp)
  | some other =>
      have hname : name other = name item := by simpa using List.find?_some hfind
      rw [List.inj_on_of_nodup_map hnames (List.mem_of_find?_eq_some hfind) hitem hname]

end OpGraph
