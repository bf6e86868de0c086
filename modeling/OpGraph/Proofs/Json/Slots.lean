import OpGraph.Proofs.Json.Reading

/-!
# Reading records

For a record each field has a slot: what was written, and the change that putting it into the record
makes. The members of an object make these changes in any order, and those that are left out would
change nothing in the blank record; so the record is the one that was written. All that is asked of a
record is asked of its slots, and so is read off one list of them.
-/

namespace OpGraph

open RecordField

/-- The text of the value can be read, and the field takes it only if it is finite and so many levels
may be entered. -/
structure RecordField.Admits {α : Type} (field : RecordField α) (json : Json) : Prop where
  readable : json.Readable
  bounded : ∀ ⦃levels : Nat⦄ ⦃record record' : α⦄,
    field.put (.text levels) json.asRead.reading record = .ok record' →
      json.Finite ∧ json.height ≤ levels

/-- A field of a record, with what was written for it and the change that it makes when it is put
into the record. When it is left out with its default, it need not be there and would change nothing
in the blank record. -/
structure Slot (α : Type) (blank : α) (given : Prop) (limit : Nat) where
  field : FormField
  decoder : RecordField α
  written : Json
  change : α → α
  name_eq : decoder.name = field.name
  puts : given → ∀ (view : View) ⦃json : Json⦄, Shown field.form written json →
    json.height < limit → ∀ ⦃source : Source⦄, source.Allows json.height → ∀ record : α,
      decoder.put source (view.seen json).reading record = .ok (change record)
  admits : written.height < limit → decoder.Admits written
  shown : written.height < limit → Shown field.form written written
  left_out : field.default? = some written → decoder.required = false ∧ change blank = blank

namespace Slot

variable {α β : Type} {blank : α} {given : Prop} {limit : Nat} {form : Form} {written : Json}

/-- A field that has to be there. -/
def mandatory (name : String) {decode : Decoder β} {value : β}
    (hreads : decode.Reads given limit form written value) (set : α → β → α) :
    Slot α blank given limit where
  field := { name, form }
  decoder := RecordField.mandatory name decode set
  written
  change record := set record value
  name_eq := rfl
  puts hgiven view json hshown hlimit source hallows record := by
    simp only [RecordField.mandatory, hreads.takes hgiven view hshown hlimit hallows]
    rfl
  admits hlimit :=
    { readable := (hreads.admits hlimit).readable
      bounded := fun levels record record' hput => by
        obtain ⟨value, hvalue⟩ := exists_ok_of_map_ok hput
        exact (hreads.admits hlimit).bounded hvalue }
  shown := hreads.shown
  left_out hdefault := nomatch hdefault

/-- A field that is blank when it is left out. -/
def optional (name : String) (default : Json) {decode : Decoder β} {value : β}
    (hreads : decode.Reads given limit form written value) (set : α → β → α)
    (hblank : default = written → set blank value = blank) : Slot α blank given limit where
  field := { name, form, default? := some default }
  decoder := RecordField.optional name decode set
  written
  change record := set record value
  name_eq := rfl
  puts hgiven view json hshown hlimit source hallows record := by
    simp only [RecordField.optional, hreads.takes hgiven view hshown hlimit hallows]
    rfl
  admits hlimit :=
    { readable := (hreads.admits hlimit).readable
      bounded := fun levels record record' hput => by
        obtain ⟨value, hvalue⟩ := exists_ok_of_map_ok hput
        exact (hreads.admits hlimit).bounded hvalue }
  shown := hreads.shown
  left_out hdefault := ⟨rfl, hblank (Option.some.inj hdefault)⟩

/-- A text that is empty when it is left out. -/
def text (name : String) (value : String) (set : α → String → α) (hblank : set blank "" = blank) :
    Slot α blank given limit :=
  optional name (.string "") (Decoder.string_reads value) set fun hdefault => by
    cases hdefault
    exact hblank

/-- A list that is empty when it is left out. -/
def many (name : String) {item : Decoder β} {write : β → Json} {values : List β}
    (hitems : ∀ value ∈ values, item.Reads given limit form (write value) value)
    (set : α → List β → α) (hblank : set blank [] = blank) : Slot α blank given limit :=
  optional name (.array []) (Decoder.list_reads hitems) set fun hdefault => by
    have hnil : values = [] := by simpa using hdefault.symm
    exact hnil ▸ hblank

end Slot

/-- It does not matter which of the two changes is made first. -/
def Slot.Commutes {α : Type} {blank : α} {given : Prop} {limit : Nat}
    (first second : Slot α blank given limit) : Prop :=
  ∀ record, first.change (second.change record) = second.change (first.change record)

instance {α : Type} {blank : α} {given : Prop} {limit : Nat} :
    Std.Symm (@Slot.Commutes α blank given limit) where
  symm _ _ hcommutes record := (hcommutes record).symm

/-- The slots are those of a record: they have its fields in their order, and make the record out of
the blank one by changes of which none gets in the way of another. -/
structure RecordShape.Assembles {α : Type} (shape : RecordShape α) (form : Form) {given : Prop}
    {limit : Nat} (slots : List (Slot α shape.blank given limit)) (value : α) : Prop where
  fields_eq : slots.map Slot.field = form.fields
  decoders_eq : slots.map Slot.decoder = shape.fields
  commute : slots.Pairwise Slot.Commutes
  whole : slots.foldl (fun record slot => slot.change record) shape.blank = value

namespace Slot

variable {α : Type} {blank : α} {given : Prop} {limit : Nat}
  {slots : List (Slot α blank given limit)} {members : List (String × Json)}

/-- The name of the field. -/
def name (slot : Slot α blank given limit) : String := slot.field.name

/-- The member that is written for the field. -/
def member (slot : Slot α blank given limit) : String × Json := (slot.name, slot.written)

/-- The record after the changes of the slots. -/
def changeAll (slots : List (Slot α blank given limit)) (record : α) : α :=
  slots.foldl (fun record slot => slot.change record) record

/-- The slots of the members, in their order. -/
def found (slots : List (Slot α blank given limit)) (members : List (String × Json)) :
    List (Slot α blank given limit) :=
  members.filterMap fun member => slots.find? (·.name == member.1)

theorem found_cons (member : String × Json) : found slots (member :: members) =
    ((slots.find? (·.name == member.1)).toList ++ found slots members) := by
  rw [found, List.filterMap_cons]
  cases slots.find? (·.name == member.1) <;> rfl

theorem mem_found (hnames : (slots.map name).Nodup) {slot : Slot α blank given limit} :
    slot ∈ found slots members ↔ slot ∈ slots ∧ slot.name ∈ members.map Prod.fst := by
  rw [found, List.mem_filterMap]
  constructor
  · rintro ⟨member, hmember, hfind⟩
    have hname : slot.name = member.1 := by simpa using List.find?_some hfind
    exact ⟨List.mem_of_find?_eq_some hfind, hname ▸ List.mem_map_of_mem hmember⟩
  · rintro ⟨hslot, hname⟩
    obtain ⟨member, hmember, heq⟩ := List.mem_map.mp hname
    exact ⟨member, hmember, heq ▸ find?_name_eq_some hnames hslot⟩

theorem found_nodup (hnames : (slots.map name).Nodup)
    (honce : ∀ slot ∈ slots, (members.map Prod.fst).count slot.name ≤ 1) :
    (found slots members).Nodup := by
  induction members with
  | nil => exact List.nodup_nil
  | cons member members ih =>
      have hrest := ih fun slot hslot => Nat.le_trans
        (List.Sublist.count_le slot.name (List.sublist_cons_self _ _)) (honce slot hslot)
      rw [found_cons]
      cases hfind : slots.find? (·.name == member.1) with
      | none => exact hrest
      | some slot =>
          refine List.nodup_cons.mpr ⟨fun hmem => ?_, hrest⟩
          obtain ⟨hslot, hname⟩ := (mem_found hnames).mp hmem
          have heq : slot.name = member.1 := by simpa using List.find?_some hfind
          have hcount := honce slot hslot
          rw [List.map_cons, ← heq, List.count_cons_self] at hcount
          exact absurd (List.count_pos_iff.mpr hname) (by omega)

theorem changeAll_blank (hblank : ∀ slot ∈ slots, slot.change blank = blank) :
    changeAll slots blank = blank := by
  induction slots with
  | nil => rfl
  | cons slot slots ih =>
      rw [List.forall_mem_cons] at hblank
      rw [changeAll, List.foldl_cons, hblank.1]
      exact ih hblank.2

/-- Whether a member is there for the field. -/
def isAmong (members : List (String × Json)) (slot : Slot α blank given limit) : Bool :=
  (members.map Prod.fst).contains slot.name

theorem found_perm (hnames : (slots.map name).Nodup)
    (honce : ∀ slot ∈ slots, (members.map Prod.fst).count slot.name ≤ 1) :
    (found slots members).Perm (slots.filter (isAmong members)) := by
  refine (List.perm_ext_iff_of_nodup (found_nodup hnames honce)
    (List.Nodup.filter _ hnames.of_map)).mpr fun slot => ?_
  rw [mem_found hnames, List.mem_filter]
  simp [isAmong]

/-- Changes that commute can be made in any order. -/
theorem changeAll_perm {first second : List (Slot α blank given limit)} (hperm : first.Perm second)
    (hcommute : second.Pairwise Commutes) (record : α) :
    changeAll first record = changeAll second record := by
  have hcommutes := hcommute.forall_of_forall fun _ _ _ => rfl
  refine hperm.foldl_eq' (fun slot hslot slot' hslot' record => ?_) record
  exact hcommutes (hperm.mem_iff.mp hslot') (hperm.mem_iff.mp hslot) record

/-- The members make the record in any order, if those that are left out have their defaults. -/
theorem changeAll_found (hnames : (slots.map name).Nodup) (hcommute : slots.Pairwise Commutes)
    (hgiven : ∀ slot ∈ slots, slot.field.GivenBy slot.written members) :
    changeAll (found slots members) blank = changeAll slots blank := by
  have hle : ∀ slot ∈ slots, (members.map Prod.fst).count slot.name ≤ 1 :=
    fun slot hslot => (hgiven slot hslot).count_le
  have hhidden : changeAll (slots.filter fun slot => !slot.isAmong members) blank = blank := by
    refine changeAll_blank fun slot hslot => ?_
    obtain ⟨hslot, hhidden⟩ := List.mem_filter.mp hslot
    obtain hone | ⟨_, hdefault⟩ := hgiven slot hslot
    · have hmem : slot.name ∈ members.map Prod.fst :=
        List.count_pos_iff.mp (hone ▸ Nat.one_pos)
      simp [isAmong, hmem] at hhidden
    · exact (slot.left_out hdefault).2
  -- The slots that are left out can be put in front, where the record is still blank.
  have hsplit : ((slots.filter fun slot => !slot.isAmong members) ++
      slots.filter (isAmong members)).Perm slots :=
    List.perm_append_comm.trans (List.filter_append_perm (isAmong members) slots)
  calc changeAll (found slots members) blank
      = changeAll (slots.filter (isAmong members)) blank :=
        changeAll_perm (found_perm hnames hle) (hcommute.filter _) blank
    _ = changeAll ((slots.filter fun slot => !slot.isAmong members) ++
          slots.filter (isAmong members)) blank := by
        rw [changeAll, changeAll, List.foldl_append]
        exact congrArg (changeAll (slots.filter (isAmong members))) hhidden.symm
    _ = changeAll slots blank := changeAll_perm hsplit hcommute blank

end Slot

namespace RecordShape.Assembles

variable {α : Type} {shape : RecordShape α} {form : Form} {given : Prop} {view : View}
  {limit : Nat} {slots : List (Slot α shape.blank given limit)} {value : α}

theorem names_eq (hassembles : shape.Assembles form slots value) :
    slots.map Slot.name = form.names := by
  rw [Form.names, ← hassembles.fields_eq, List.map_map]
  rfl

theorem names_nodup (hassembles : shape.Assembles form slots value) :
    (slots.map Slot.name).Nodup :=
  hassembles.names_eq ▸ form.names_nodup

theorem field?_eq (hassembles : shape.Assembles form slots value) (name : String) :
    shape.field? name = (slots.find? (·.name == name)).map Slot.decoder := by
  have hnames : (fun field : RecordField α => field.name == name) ∘ Slot.decoder =
      fun slot : Slot α shape.blank given limit => slot.name == name :=
    funext fun slot => by rw [Function.comp_apply, slot.name_eq, Slot.name]
  rw [field?, ← hassembles.decoders_eq, List.find?_map, hnames]

/-- Each member makes the change of its slot, if it is no repetition. -/
theorem putMembers_eq (hassembles : shape.Assembles form slots value) {source : Source}
    {members : List (String × Json)} :
    ∀ (seen : List String) (record : α),
    (∀ slot ∈ slots, (members.map Prod.fst).count slot.name + seen.count slot.name ≤ 1) →
    (∀ slot ∈ slots, ∀ json, (slot.name, json) ∈ members → ∀ record,
      slot.decoder.put source (view.seen json).reading record = .ok (slot.change record)) →
    shape.putMembers source (view.readings members) seen record =
      .ok (Slot.changeAll (Slot.found slots members) record,
        ((Slot.found slots members).map Slot.name).reverse ++ seen) := by
  -- A name is among the members to come or among those seen, and never in both.
  induction members with
  | nil => exact fun _ _ _ _ => rfl
  | cons member members ih =>
      intro seen record honce hputs
      have hrest : ∀ slot ∈ slots, ∀ json, (slot.name, json) ∈ members → ∀ record,
          slot.decoder.put source (view.seen json).reading record = .ok (slot.change record) :=
        fun slot hslot json hmember => hputs slot hslot json (List.mem_cons_of_mem _ hmember)
      simp only [List.map_cons, List.count_cons] at honce
      rw [View.readings, List.map_cons, putMembers, hassembles.field?_eq, Slot.found_cons]
      cases hfind : slots.find? (·.name == member.1) with
      | none =>
          have hskip : raise? (view.seen member.2).reading.skip? = .ok () := by
            rw [Json.skip?_reading]
            rfl
          simp only [Option.map_none, hskip]
          exact ih seen record (fun slot hslot => by have := honce slot hslot; omega) hrest
      | some slot =>
          have hslot := List.mem_of_find?_eq_some hfind
          have hname : slot.name = member.1 := by simpa using List.find?_some hfind
          have hseen : seen.contains member.1 = false := by
            have hcount := honce slot hslot
            rw [if_pos (by simpa using hname.symm), hname] at hcount
            have hzero : seen.count member.1 = 0 := by omega
            simpa using List.count_eq_zero.mp hzero
          have hput := hputs slot hslot member.2 (hname ▸ List.mem_cons_self) record
          have hnext := ih (member.1 :: seen) (slot.change record) (fun other hother => by
            have := honce other hother
            rw [List.count_cons]
            omega) hrest
          simp only [Option.map_some, hseen, hput]
          rw [Option.toList_some, List.singleton_append, List.map_cons, List.reverse_cons,
            List.append_assoc, List.singleton_append, hname]
          exact hnext

/-- The members of an object, in whatever order, make the record. -/
theorem ofMembers_eq (hassembles : shape.Assembles form slots value) {source : Source}
    {members : List (String × Json)}
    (hgiven : ∀ slot ∈ slots, slot.field.GivenBy slot.written members)
    (hputs : ∀ slot ∈ slots, ∀ json, (slot.name, json) ∈ members → ∀ record,
      slot.decoder.put source (view.seen json).reading record = .ok (slot.change record)) :
    shape.ofMembers source (view.readings members) none = .ok value := by
  have hput := hassembles.putMembers_eq [] shape.blank
    (fun slot hslot => (hgiven slot hslot).count_le) hputs
  have hmissing : shape.missing? ((Slot.found slots members).map Slot.name).reverse = none := by
    rw [missing?, ← hassembles.decoders_eq, List.find?_eq_none]
    refine List.forall_mem_map.mpr fun slot hslot => ?_
    obtain hone | ⟨_, hdefault⟩ := hgiven slot hslot
    · have hfound : slot ∈ Slot.found slots members :=
        (Slot.mem_found hassembles.names_nodup).mpr
          ⟨hslot, List.count_pos_iff.mp (hone ▸ Nat.one_pos)⟩
      have hname : slot.decoder.name ∈ (Slot.found slots members).map Slot.name :=
        slot.name_eq ▸ List.mem_map_of_mem hfound
      simp [hname]
    · simp [(slot.left_out hdefault).1]
  have hwhole : Slot.changeAll (Slot.found slots members) shape.blank = value :=
    (Slot.changeAll_found hassembles.names_nodup hassembles.commute hgiven).trans hassembles.whole
  rw [List.append_nil] at hput
  rw [ofMembers, hput]
  simp only [bind, Except.bind, hmissing, hwhole]
  rfl

/-- The items of a list make the record, each put into the field that stands in its place. -/
theorem putItems_eq {source : Source} : ∀ {slots : List (Slot α shape.blank given limit)}
    {items : List Json}, items.length = slots.length →
    (∀ (place : Nat) (slot : Slot α shape.blank given limit) (json : Json),
      slots[place]? = some slot → items[place]? = some json → ∀ record,
        slot.decoder.put source (view.seen json).reading record = .ok (slot.change record)) →
    ∀ (place : Nat) (record : α),
    shape.putItems source none (slots.map Slot.decoder) place
        (items.map fun item => (view.seen item).reading) record =
      .ok (Slot.changeAll slots record) := by
  intro slots
  induction slots with
  | nil =>
      intro items hlength _ place record
      rw [List.length_eq_zero_iff.mp hlength]
      rfl
  | cons slot slots ih =>
      intro items hlength hputs place record
      cases items with
      | nil => cases hlength
      | cons json items =>
          have hrest := ih (Nat.succ.inj hlength) (fun place => hputs (place + 1)) (place + 1)
            (slot.change record)
          rw [List.map_cons, List.map_cons, putItems, hputs 0 slot json rfl rfl record]
          exact hrest

theorem ofItems_eq (hassembles : shape.Assembles form slots value) {source : Source}
    {items : List Json} (hlength : items.length = slots.length)
    (hputs : ∀ (place : Nat) (slot : Slot α shape.blank given limit) (json : Json),
      slots[place]? = some slot → items[place]? = some json → ∀ record,
        slot.decoder.put source (view.seen json).reading record = .ok (slot.change record)) :
    shape.ofItems source (items.map fun item => (view.seen item).reading) none = .ok value := by
  have hput : shape.putItems source none (slots.map Slot.decoder) 0
      (items.map fun item => (view.seen item).reading) shape.blank =
        .ok (Slot.changeAll slots shape.blank) := putItems_eq hlength hputs 0 shape.blank
  have hwhole : Slot.changeAll slots shape.blank = value := hassembles.whole
  have hclose : closeList source slots.length slots.length none = .ok () := by
    unfold closeList
    rw [if_neg (Nat.lt_irrefl _)]
    rfl
  rw [ofItems, ← hassembles.decoders_eq, hput]
  simp only [bind, Except.bind, List.length_map, hlength, hclose, hwhole]
  rfl

/-- What an object shows makes the record. -/
theorem ofMembers_shown (hassembles : shape.Assembles form slots value)
    {members : List (String × Json)}
    (hgiven : ∀ field ∈ form.fields, ∀ json, (field.name, json) ∈ slots.map Slot.member →
      field.GivenBy json members)
    (hshown : ∀ field ∈ form.fields, ∀ json json', (field.name, json) ∈ slots.map Slot.member →
      (field.name, json') ∈ members → Shown field.form json json')
    (hlimit : (Json.object members).height ≤ limit) (hgiven' : given) {source : Source}
    (hallows : ∀ lower < (Json.object members).height, source.Allows lower) :
    shape.ofMembers source (view.readings members) none = .ok value := by
  have hfield : ∀ slot ∈ slots, slot.field ∈ form.fields :=
    fun slot hslot => hassembles.fields_eq ▸ List.mem_map_of_mem hslot
  refine hassembles.ofMembers_eq
    (fun slot hslot => hgiven slot.field (hfield slot hslot) slot.written
      (List.mem_map_of_mem hslot))
    (fun slot hslot json hmember record => ?_)
  have hlt : json.height < (Json.object members).height := Json.height_lt_object hmember
  exact slot.puts hgiven' view (hshown slot.field (hfield slot hslot) slot.written json
    (List.mem_map_of_mem hslot) hmember) (Nat.lt_of_lt_of_le hlt hlimit) (hallows _ hlt) record

end RecordShape.Assembles

/-- A record is taken when it is assembled from its slots. -/
theorem RecordShape.Assembles.decode_takes {α : Type} {shape : RecordShape α} {form : Form}
    {given : Prop} {limit : Nat} {value : α} {slots : List (Slot α shape.blank given limit)}
    (hassembles : shape.Assembles form slots value) (hrecord : form.fields ≠ []) (hgiven' : given)
    (view : View) :
    shape.decode.Takes view (limit + 1) form (.object (slots.map Slot.member)) value := by
  intro json hshown hlimit source hallows
  cases hshown with
  | plain => exact absurd rfl hrecord
  | value => exact absurd rfl hrecord
  | object _ _ hgiven hshown =>
      obtain ⟨inner, henter, hinner⟩ := hallows.enter Json.height_object_pos
      rw [View.reading_object, decode, henter]
      exact hassembles.ofMembers_shown hgiven hshown (Nat.le_of_lt_succ hlimit) hgiven' hinner
  | @array _ _ items _ _ hlength hitems =>
      obtain ⟨inner, henter, hinner⟩ := hallows.enter Json.height_array_pos
      have hlength' : items.length = slots.length := by
        rw [hlength, ← hassembles.fields_eq, List.length_map]
      rw [View.reading_array, decode, henter]
      refine hassembles.ofItems_eq hlength' fun place slot json hslot hitem record => ?_
      have hlt : json.height < (Json.array items).height :=
        Json.height_lt_array (List.mem_of_getElem? hitem)
      have hplace : form.fields[place]? = some slot.field := by
        rw [← hassembles.fields_eq, List.getElem?_map, hslot, Option.map_some]
      have hwritten : (slot.field.name, slot.written) ∈ slots.map Slot.member :=
        List.mem_map_of_mem (List.mem_of_getElem? hslot)
      exact slot.puts hgiven' view (hitems place slot.field slot.written json hplace hwritten hitem)
        (Nat.lt_of_lt_of_le hlt (Nat.le_of_lt_succ hlimit)) (hinner _ hlt) record

namespace RecordShape

variable {α : Type} {shape : RecordShape α}

/-- Where all members are put into a record, each that belongs to a field is put into it. -/
theorem exists_put {source : Source} {members : List (String × Json)} :
    ∀ {seen : List String} {record : α} {result : α × List String},
    shape.putMembers source (members.map fun member => (.ok member.1, member.2.reading)) seen
      record = .ok result →
    ∀ member ∈ members, ∀ field, shape.field? member.1 = some field →
      ∃ before after, field.put source member.2.reading before = .ok after := by
  induction members with
  | nil => exact fun _ member hmember => absurd hmember List.not_mem_nil
  | cons first members ih =>
      intro seen record result hput
      rw [List.map_cons, putMembers] at hput
      cases hfound : shape.field? first.1 with
      | none =>
          rw [hfound] at hput
          obtain ⟨_, _, hrest⟩ := Except.bind_eq_ok hput
          refine List.forall_mem_cons.mpr ⟨fun field hfield => ?_, ih hrest⟩
          rw [hfound] at hfield
          cases hfield
      | some found =>
          rw [hfound] at hput
          simp only at hput
          split at hput
          · cases hput
          · obtain ⟨record', hfirst, hrest⟩ := Except.bind_eq_ok hput
            refine List.forall_mem_cons.mpr ⟨fun field hfield => ?_, ih hrest⟩
            rw [hfound, Option.some.injEq] at hfield
            subst hfield
            exact ⟨record, record', hfirst⟩

section Assembled

variable {form : Form} {given : Prop} {limit : Nat} {slots : List (Slot α shape.blank given limit)}
  {value : α}

/-- A written record is admitted only if each of its members is, one level further down. -/
theorem Assembles.ofMembers_bounded (hassembles : shape.Assembles form slots value)
    (hlimit : ∀ slot ∈ slots, slot.written.height < limit) {lower : Nat} {record : α}
    (hrecord : shape.ofMembers (.text lower) ((slots.map Slot.member).map fun member =>
      (.ok member.1, member.2.asRead.reading)) none = .ok record) :
    (Json.object (slots.map Slot.member)).Finite ∧
      (Json.object (slots.map Slot.member)).height ≤ lower + 1 := by
  obtain ⟨result, hput, _⟩ := Except.bind_eq_ok hrecord
  have hall : ∀ slot ∈ slots, slot.written.Finite ∧ slot.written.height ≤ lower := by
    intro slot hslot
    have hfound : shape.field? slot.name = some slot.decoder := by
      rw [hassembles.field?_eq, find?_name_eq_some hassembles.names_nodup hslot, Option.map_some]
    have hmember : (slot.name, slot.written.asRead) ∈
        (slots.map Slot.member).map fun member => (member.1, member.2.asRead) :=
      List.mem_map_of_mem (List.mem_map_of_mem hslot)
    have hput' : shape.putMembers (.text lower)
        (((slots.map Slot.member).map fun member => (member.1, member.2.asRead)).map fun member =>
          (.ok member.1, member.2.reading)) [] shape.blank = .ok result := by
      rw [List.map_map]
      exact hput
    obtain ⟨before, after, hfirst⟩ := exists_put hput' _ hmember slot.decoder hfound
    exact (slot.admits (hlimit slot hslot)).bounded hfirst
  rw [Json.finite_object, Json.height_object_le, List.forall_mem_map, List.forall_mem_map]
  exact ⟨fun slot hslot => (hall slot hslot).1, fun slot hslot => (hall slot hslot).2⟩

theorem Assembles.readable (hlimit : ∀ slot ∈ slots, slot.written.height < limit) :
    (Json.object (slots.map Slot.member)).Readable := by
  rw [Json.readable_object, List.forall_mem_map]
  exact fun slot hslot => (slot.admits (hlimit slot hslot)).readable

theorem Assembles.shown (hassembles : shape.Assembles form slots value)
    (hrecord : form.fields ≠ []) (hlimit : ∀ slot ∈ slots, slot.written.height < limit) :
    Shown form (.object (slots.map Slot.member)) (.object (slots.map Slot.member)) := by
  have hnames : (slots.map Slot.member).map Prod.fst = form.names := by
    rw [List.map_map]
    exact hassembles.names_eq
  refine .record hrecord hnames fun field hfield json hmember => ?_
  obtain ⟨slot, hslot, heq⟩ := List.mem_map.mp hmember
  obtain ⟨hname, rfl⟩ := Prod.mk.inj heq
  have hmem : slot.field ∈ form.fields := hassembles.fields_eq ▸ List.mem_map_of_mem hslot
  obtain rfl : slot.field = field := form.eq_of_name_eq hmem hfield hname
  exact slot.shown (hlimit slot hslot)

end Assembled

/-- A record is read when it is assembled from its slots. -/
theorem decode_reads {form : Form} {given : Prop} {limit : Nat} {value : α}
    (slots : List (Slot α shape.blank given limit)) (hassembles : shape.Assembles form slots value)
    (hrecord : form.fields ≠ []) :
    shape.decode.Reads given (limit + 1) form (.object (slots.map Slot.member)) value := by
  have hlower (hlimit : (Json.object (slots.map Slot.member)).height < limit + 1) :
      ∀ slot ∈ slots, slot.written.height < limit := fun slot hslot =>
    Nat.lt_of_lt_of_le (Json.height_lt_object (List.mem_map_of_mem (f := Slot.member) hslot))
      (Nat.le_of_lt_succ hlimit)
  refine ⟨fun hgiven view => hassembles.decode_takes hrecord hgiven view, fun hlimit => ?_,
    fun hlimit => hassembles.shown hrecord (hlower hlimit)⟩
  refine ⟨Assembles.readable (hlower hlimit), fun levels record hdecode => ?_⟩
  rw [Json.asRead_object, Json.reading_object, List.map_map, decode] at hdecode
  obtain ⟨inner, henter, hrecord'⟩ := Except.bind_eq_ok hdecode
  obtain ⟨lower, rfl, rfl⟩ := Source.exists_of_enter henter
  exact hassembles.ofMembers_bounded (hlower hlimit) hrecord'

end RecordShape

end OpGraph
