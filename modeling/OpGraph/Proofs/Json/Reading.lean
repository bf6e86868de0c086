import OpGraph.Proofs.Json.AsRead
import OpGraph.Proofs.Json.Rewriting
import OpGraph.Proofs.Json.Singles
import OpGraph.Proofs.Scoping.WellFormed

/-!
# What a decoder makes of a written value

A decoder takes a value from all that shows its written form. From the text of it, it takes nothing
unless all numbers in it are finite and there are levels enough. Both are said together, since both are
put together as the written form is: here for leaves and lists.
-/

namespace OpGraph

/-- Where a value comes from: it is at hand, or was read from a text. -/
inductive View where
  | atHand
  | asRead

/-- A value can be read through as many levels as it has. -/
theorem Json.fault?_eq_none {value : Json} :
    ∀ {levels : Nat}, value.height ≤ levels → value.reading.fault? levels = none := by
  induction value using nested_induction with
  | hnull => exact fun _ => rfl
  | hbool => exact fun _ => rfl
  | hnumber => exact fun _ => rfl
  | hstring => exact fun _ => rfl
  | harray items ih =>
      intro levels hheight
      obtain _ | levels := levels
      · exact absurd hheight (Nat.not_le.mpr height_array_pos)
      · rw [height_array_le] at hheight
        rw [reading_array, Reading.fault?]
        have hitems : Reading.fault?.itemsFault? levels (items.map reading) = none := by
          induction items with
          | nil => rfl
          | cons item items ihItems =>
              rw [List.forall_mem_cons] at ih hheight
              rw [List.map_cons, Reading.fault?.itemsFault?, ih.1 hheight.1,
                ihItems ih.2 hheight.2]
              rfl
        rw [hitems]
        rfl
  | hobject members ih =>
      intro levels hheight
      obtain _ | levels := levels
      · exact absurd hheight (Nat.not_le.mpr height_object_pos)
      · rw [height_object_le] at hheight
        rw [reading_object, Reading.fault?]
        have hmembers : Reading.fault?.membersFault? levels
            (members.map fun member => (.ok member.1, member.2.reading)) = none := by
          induction members with
          | nil => rfl
          | cons member members ihMembers =>
              rw [List.forall_mem_cons] at ih hheight
              rw [List.map_cons, Reading.fault?.membersFault?, ih.1 hheight.1,
                ihMembers ih.2 hheight.2]
              rfl
        rw [hmembers]
        rfl

namespace View

variable {view : View}

def seen : View → Json → Json
  | .atHand, json => json
  | .asRead, json => json.asRead

theorem seen_string (text : String) : view.seen (.string text) = .string text := by
  cases view <;> rfl

theorem reading_array (items : List Json) : (view.seen (.array items)).reading =
    .array (items.map fun item => (view.seen item).reading) none := by
  cases view with
  | atHand => exact Json.reading_array
  | asRead => rw [seen, Json.asRead_array, Json.reading_array, List.map_map]; rfl

/-- The members of an object as they are read. -/
def readings (view : View) (members : List (String × Json)) :
    List (Except JsonFault String × Reading) :=
  members.map fun member => (.ok member.1, (view.seen member.2).reading)

theorem reading_object (members : List (String × Json)) :
    (view.seen (.object members)).reading = .object (view.readings members) none := by
  cases view with
  | atHand => exact Json.reading_object
  | asRead => rw [seen, Json.asRead_object, Json.reading_object, List.map_map]; rfl

theorem height_seen (json : Json) : (view.seen json).height = json.height := by
  cases view with
  | atHand => rfl
  | asRead => exact json.height_asRead

end View

/-- The decoder gives the value from all that shows its written form, below a limit of nesting, and
wherever it may stand. -/
def Decoder.Takes {α : Type} (decode : Decoder α) (view : View) (limit : Nat) (form : Form)
    (written : Json) (value : α) : Prop :=
  ∀ ⦃json : Json⦄, Shown form written json → json.height < limit → ∀ ⦃source : Source⦄,
    source.Allows json.height → decode source (view.seen json).reading = .ok value

/-- The text of the value can be read, and the decoder takes it only if the value is finite and so
many levels may be entered. -/
structure Decoder.Admits {α : Type} (decode : Decoder α) (json : Json) : Prop where
  readable : json.Readable
  bounded : ∀ ⦃levels : Nat⦄ ⦃value : α⦄, decode (.text levels) json.asRead.reading = .ok value →
    json.Finite ∧ json.height ≤ levels

/-- What the decoder makes of a written value, below a limit of nesting. It takes the value from all
that shows it, if what is given holds of the numbers in it. -/
structure Decoder.Reads {α : Type} (decode : Decoder α) (given : Prop) (limit : Nat) (form : Form)
    (written : Json) (value : α) : Prop where
  takes : given → ∀ view, decode.Takes view limit form written value
  admits : written.height < limit → decode.Admits written
  /-- The written form shows itself. -/
  shown : written.height < limit → Shown form written written

/-- Lists and objects in a text are entered through one of the levels that are left. -/
theorem Source.exists_of_enter {levels : Nat} {inner : Source}
    (henter : (Source.text levels).enter = .ok inner) :
    ∃ lower, levels = lower + 1 ∧ inner = .text lower := by
  cases levels with
  | zero => cases henter
  | succ lower =>
      cases henter
      exact ⟨lower, rfl, rfl⟩

theorem exists_ok_of_map_ok {ε α β : Type} {result : Except ε α} {make : α → β} {made : β}
    (hmap : result.map make = .ok made) : ∃ value, result = .ok value := by
  cases result with
  | error failure => cases hmap
  | ok value => exact ⟨value, rfl⟩

namespace Decoder

variable {α β : Type} {decode : Decoder α} {given : Prop} {limit : Nat} {form : Form}
  {written : Json} {value : α}

theorem Admits.ofText (hadmits : decode.Admits written)
    (hdecode : decode.ofText written.pretty = .ok value) :
    written.Finite ∧ written.height ≤ nestingLimit := by
  rw [Decoder.ofText, hadmits.readable.ofText_pretty] at hdecode
  obtain ⟨value', hvalue, _⟩ := Except.bind_eq_ok hdecode
  exact hadmits.bounded hvalue

theorem Reads.mapped (hreads : decode.Reads given limit form written value) (make : α → β) :
    (mapped decode make).Reads given limit form written (make value) where
  takes hgiven view json hshown hlimit source hallows := by
    rw [Decoder.mapped, hreads.takes hgiven view hshown hlimit hallows]
    rfl
  admits hlimit :=
    { readable := (hreads.admits hlimit).readable
      bounded := fun levels made hmade => by
        obtain ⟨value, hvalue⟩ := exists_ok_of_map_ok hmade
        exact (hreads.admits hlimit).bounded hvalue }
  shown := hreads.shown

theorem Reads.lower (hreads : decode.Reads given (limit + 1) form written value) :
    decode.Reads given limit form written value where
  takes hgiven view _ hshown hlimit := hreads.takes hgiven view hshown (Nat.lt_succ_of_lt hlimit)
  admits hlimit := hreads.admits (Nat.lt_succ_of_lt hlimit)
  shown hlimit := hreads.shown (Nat.lt_succ_of_lt hlimit)

theorem Reads.imp {given' : Prop} (hgiven : given' → given)
    (hreads : decode.Reads given limit form written value) :
    decode.Reads given' limit form written value where
  takes hgiven' := hreads.takes (hgiven hgiven')
  admits := hreads.admits
  shown := hreads.shown

/-! ## Leaves -/

/-- A leaf that is restored needs no level. -/
theorem Restores.admits (hrestores : decode.Restores written value) (hfinite : written.Finite) :
    decode.Admits written where
  readable := by
    rw [Json.Readable, hfinite]
    exact hrestores.legible
  bounded levels _ _ := ⟨hfinite, hrestores.leaf ▸ Nat.zero_le levels⟩

/-- A leaf is read if it is restored, and is the same in a text as at hand. -/
theorem Restores.reads (hrestores : decode.Restores written value) (hfinite : written.Finite)
    (hsame : written.reread = written) : decode.Reads given limit .plain written value where
  takes _ view json hshown _ source _ := by
    obtain rfl := hshown.eq_of_plain
    have hdecodes := hrestores.decodes source
    cases view with
    | atHand => rwa [hsame] at hdecodes
    | asRead => rwa [View.seen, Json.asRead_of_finite hfinite]
  admits _ := hrestores.admits hfinite
  shown _ := .plain _

theorem string_reads (text : String) : string.Reads given limit .plain (.string text) text :=
  (string_restores text).reads rfl rfl

theorem attributeKind_reads (kind : AttributeKind) :
    attributeKind.Reads given limit .plain kind.toJson kind :=
  (attributeKind_restores kind).reads rfl rfl

theorem reread_int {value : Int} (hleast : -2 ^ 63 ≤ value) (hgreatest : value < 2 ^ 64) :
    (Json.int value).reread = .int value := by
  rw [Json.int, Json.reread, JsonNumber.reread?_integer hleast hgreatest, Option.getD_some]

theorem int64_reads (value : Int64) : int64.Reads given limit .plain (.int value.toInt) value := by
  have hlow : -2 ^ 63 ≤ value.toInt := value.le_toInt
  have hhigh : value.toInt < 2 ^ 63 := value.toInt_lt
  exact (int64_restores value).reads rfl (reread_int hlow (by omega))

theorem int32_reads (value : Int32) : int32.Reads given limit .plain (.int value.toInt) value := by
  have hlow : -2 ^ 31 ≤ value.toInt := value.le_toInt
  have hhigh : value.toInt < 2 ^ 31 := value.toInt_lt
  exact (int32_restores value).reads rfl (reread_int (by omega) (by omega))

theorem byte_reads (value : UInt8) : byte.Reads given limit .plain (.nat value.toNat) value := by
  have hhigh := value.toNat_lt
  exact (byte_restores value).reads rfl (reread_int (by omega) (by omega))

theorem single_admits (value : Binary32) : single.Admits (.single value) := by
  by_cases hfinite : value.isFinite = true
  · exact (single_restores hfinite).admits (Json.finite_single_iff.mpr hfinite)
  · have hread := Json.asRead_single_of_not_finite hfinite
    constructor
    · rw [Json.Readable, Json.single, Json.blanked, JsonNumber.isFinite, if_neg hfinite]
      trivial
    · intro levels value' hdecode
      rw [hread] at hdecode
      cases hdecode

/-- A single is read if it is finite. -/
theorem single_reads {value : Binary32} (hfinite : given → value.isFinite = true) :
    single.Reads given limit .plain (.single value) value where
  takes hgiven view json hshown _ source _ := by
    obtain rfl := hshown.eq_of_plain
    cases view with
    | atHand => rfl
    | asRead =>
        rw [View.seen, Json.asRead_of_finite (Json.finite_single_iff.mpr (hfinite hgiven))]
        exact (single_restores (hfinite hgiven)).decodes source
  admits _ := single_admits value
  shown _ := .plain _

/-! ## Lists -/

theorem items_seen {item : Decoder α} {view : View} {source : Source} {values : List α} :
    ∀ {items' : List Json}, items'.length = values.length →
    (∀ (place : Nat) (value : α) (json : Json), values[place]? = some value →
      items'[place]? = some json → item source (view.seen json).reading = .ok value) →
    items item source (items'.map fun item => (view.seen item).reading) = .ok values := by
  induction values with
  | nil =>
      intro items' hlength _
      rw [List.length_eq_zero_iff.mp hlength]
      rfl
  | cons value values ih =>
      intro items' hlength hitems
      cases items' with
      | nil => cases hlength
      | cons json items' =>
          have hrest := ih (Nat.succ.inj hlength) fun place => hitems (place + 1)
          rw [List.map_cons, items, hitems 0 value json rfl rfl, hrest]
          rfl

/-- A list is taken when its items are. -/
theorem list_takes {item : Decoder α} {write : α → Json} {values : List α} {view : View}
    (hitems : ∀ value ∈ values, item.Takes view limit form (write value) value) :
    (list item).Takes view limit (.list form) (.array (values.map write)) values := by
  intro json hshown hlimit source hallows
  cases hshown with
  | @list _ _ items' hlength hshown =>
      obtain ⟨inner, henter, hinner⟩ := hallows.enter Json.height_array_pos
      have hvalues : items item inner (items'.map fun item => (view.seen item).reading) =
          .ok values := by
        rw [List.length_map] at hlength
        refine items_seen hlength fun place value json hvalue hjson => ?_
        have hlt : json.height < (Json.array items').height :=
          Json.height_lt_array (List.mem_of_getElem? hjson)
        have hwritten : (values.map write)[place]? = some (write value) := by
          rw [List.getElem?_map, hvalue, Option.map_some]
        exact hitems value (List.mem_of_getElem? hvalue) (hshown place _ _ hwritten hjson)
          (hlt.trans hlimit) (hinner _ hlt)
      rw [View.reading_array, list, henter]
      simp only [bind, Except.bind, hvalues]
      rfl

theorem exists_of_items {item : Decoder α} {source : Source} {readings : List Reading} :
    ∀ {values : List α}, items item source readings = .ok values →
      ∀ reading ∈ readings, ∃ value, item source reading = .ok value := by
  induction readings with
  | nil => exact fun _ reading hreading => absurd hreading List.not_mem_nil
  | cons first readings ih =>
      intro values hitems
      rw [items] at hitems
      obtain ⟨value, hvalue, hrest⟩ := Except.bind_eq_ok hitems
      obtain ⟨rest, hvalues, _⟩ := Except.bind_eq_ok hrest
      exact List.forall_mem_cons.mpr ⟨⟨value, hvalue⟩, ih hvalues⟩

/-- A list is admitted only if its items are, one level further down. -/
theorem list_admits {item : Decoder α} {values : List β} {write : β → Json}
    (hitems : ∀ value ∈ values, item.Admits (write value)) :
    (list item).Admits (.array (values.map write)) where
  readable := by
    rw [Json.readable_array, List.forall_mem_map]
    exact fun value hvalue => (hitems value hvalue).readable
  bounded levels decoded hdecode := by
    rw [Json.asRead_array, Json.reading_array, list] at hdecode
    obtain ⟨inner, henter, hdecode⟩ := Except.bind_eq_ok hdecode
    obtain ⟨decoded', hdecoded, _⟩ := Except.bind_eq_ok hdecode
    obtain ⟨lower, rfl, rfl⟩ := Source.exists_of_enter henter
    have hbounded : ∀ value ∈ values, (write value).Finite ∧ (write value).height ≤ lower := by
      intro value hvalue
      obtain ⟨_, hitem⟩ := exists_of_items hdecoded (write value).asRead.reading
        (List.mem_map_of_mem (List.mem_map_of_mem (List.mem_map_of_mem hvalue)))
      exact (hitems value hvalue).bounded hitem
    rw [Json.finite_array, Json.height_array_le, List.forall_mem_map, List.forall_mem_map]
    exact ⟨fun value hvalue => (hbounded value hvalue).1,
      fun value hvalue => (hbounded value hvalue).2⟩

/-- A list is read when its items are. -/
theorem list_reads {item : Decoder α} {write : α → Json} {values : List α}
    (hitems : ∀ value ∈ values, item.Reads given limit form (write value) value) :
    (list item).Reads given limit (.list form) (.array (values.map write)) values where
  takes hgiven view := list_takes fun value hvalue => (hitems value hvalue).takes hgiven view
  admits hlimit := list_admits fun value hvalue => (hitems value hvalue).admits
    ((Json.height_lt_array (List.mem_map_of_mem hvalue)).trans hlimit)
  shown hlimit := .listOf (List.forall_mem_map.mpr fun value hvalue => (hitems value hvalue).shown
    ((Json.height_lt_array (List.mem_map_of_mem hvalue)).trans hlimit))

theorem strings_reads (values : List String) :
    (list string).Reads given limit (.list .plain) (.strings values) values :=
  list_reads fun value _ => string_reads value

theorem int64s_reads (values : List Int64) :
    (list int64).Reads given limit (.list .plain) (.int64s values) values :=
  list_reads fun value _ => int64_reads value

end Decoder

end OpGraph
