import OpGraph.Proofs.Json.Slots
import OpGraph.Proofs.Json.Written

/-!
# Decoding is the same for all written forms

Graphs and functions are records of records, and are read as their slots say. Only an attribute value
takes more: its payload may come before its kind, and is then read ahead and decoded once the kind is
known. So a value that is rewritten any number of times is decoded to what it was.
-/

namespace OpGraph

namespace Decoder

variable {view : View} {given : Prop} {limit : Nat}

theorem tensor_reads (data : Tensor) : tensor.Reads given limit .tensor data.toJson data := by
  refine Reads.lower (RecordShape.decode_reads [
    .mandatory "name" (string_reads data.name) _,
    .mandatory "data_type" (int32_reads data.dataType) _,
    .mandatory "dims" (int64s_reads data.dims) _,
    .mandatory "raw_data" (list_reads fun byte _ => byte_reads byte) _]
    ⟨rfl, rfl, ?_, rfl⟩ (List.cons_ne_nil _ _))
  simp [Slot.Commutes, Slot.mandatory]

theorem sparseTensor_reads (data : SparseTensor) :
    sparseTensor.Reads given limit .sparseTensor data.toJson data := by
  refine Reads.lower (RecordShape.decode_reads [
    .mandatory "values" (tensor_reads data.values) _,
    .mandatory "indices" (tensor_reads data.indices) _,
    .mandatory "dims" (int64s_reads data.dims) _]
    ⟨rfl, rfl, ?_, rfl⟩ (List.cons_ne_nil _ _))
  simp [Slot.Commutes, Slot.mandatory]

theorem opsetImport_reads (opset : OpsetImport) :
    opsetImport.Reads given limit .opsetImport opset.toJson opset := by
  refine Reads.lower (RecordShape.decode_reads [
    .text "domain" opset.domain _ rfl,
    .mandatory "version" (int64_reads opset.version) _]
    ⟨rfl, rfl, ?_, rfl⟩ (List.cons_ne_nil _ _))
  simp [Slot.Commutes, Slot.mandatory, Slot.text, Slot.optional]

theorem typeText_reads (type : TypeText) : typeText.Reads given limit .plain type.toJson type :=
  (string_reads type.text).mapped TypeText.mk

/-- The slots of a reference. -/
def referenceSlots (given : Prop) (limit : Nat) (target : String) (kind : AttributeKind) :
    List (Slot ReferencePayload referenceShape.blank given limit) := [
  .mandatory "target" (string_reads target) fun payload target => { payload with target },
  .mandatory "kind" (attributeKind_reads kind) fun payload kind => { payload with kind }]

/-- A reference is a record too, but no list of its fields is taken for one. -/
theorem reference_reads (target : String) (kind : AttributeKind) :
    reference.Reads given limit .reference
      (.object [("target", .string target), ("kind", kind.toJson)]) (.reference target kind) := by
  have hassembles : referenceShape.Assembles .reference (referenceSlots given limit target kind)
      ⟨target, kind⟩ :=
    ⟨rfl, rfl, by simp [referenceSlots, Slot.Commutes, Slot.mandatory], rfl⟩
  have hlower (hlimit : (Json.object ((referenceSlots given limit target kind).map
      Slot.member)).height < limit) :
      ∀ slot ∈ referenceSlots given limit target kind, slot.written.height < limit :=
    fun slot hslot => (Json.height_lt_object
      (List.mem_map_of_mem (f := Slot.member) hslot)).trans hlimit
  refine ⟨fun hgiven view json hshown hlimit source hallows => ?_, fun hlimit => ?_,
    fun hlimit => hassembles.shown (List.cons_ne_nil _ _) (hlower hlimit)⟩
  · cases hshown with
    | array hform => exact absurd rfl hform.2
    | object _ _ hmembers hshown =>
        obtain ⟨inner, henter, hinner⟩ := hallows.enter Json.height_object_pos
        rw [View.reading_object, reference, henter]
        have hrecord : referenceShape.ofMembers inner (view.readings _) none =
            .ok ⟨target, kind⟩ :=
          hassembles.ofMembers_shown hmembers hshown (Nat.le_of_lt hlimit) hgiven hinner
        simp only [bind, Except.bind, hrecord]
        rfl
  · refine ⟨RecordShape.Assembles.readable (hlower hlimit), fun levels value hdecode => ?_⟩
    rw [Json.asRead_object, Json.reading_object, List.map_map, reference] at hdecode
    obtain ⟨inner, henter, hrecord⟩ := Except.bind_eq_ok hdecode
    obtain ⟨payload, hpayload, _⟩ := Except.bind_eq_ok hrecord
    obtain ⟨lower, rfl, rfl⟩ := Source.exists_of_enter henter
    exact hassembles.ofMembers_bounded (hlower hlimit) hpayload

/-! ## Attribute values -/

/-- A value that is not nested too deeply can be read ahead. -/
theorem readAhead_seen {json : Json} {source : Source} (hallows : source.Allows json.height) :
    readAhead source (view.seen json).reading = .ok () := by
  cases source with
  | value => rfl
  | ahead => rfl
  | text levels =>
      have hheight : (view.seen json).height ≤ levels := view.height_seen json ▸ hallows
      rw [readAhead, Json.fault?_eq_none hheight]
      rfl

/-- The members are those that an attribute value need not have. -/
def Others (members : List (String × Json)) : Prop :=
  "kind" ∉ members.map Prod.fst ∧ "value" ∉ members.map Prod.fst

theorem ofName?_eq_none {name : String} (hkind : "kind" ≠ name) (hvalue : "value" ≠ name) :
    ValueKey.ofName? name = none := by
  unfold ValueKey.ofName?
  split
  · exact absurd rfl hkind
  · exact absurd rfl hvalue
  · rfl

theorem nextKey_others (view : View) {others : List (String × Json)} (hothers : Others others)
    (rest : List (String × Json)) :
    nextKey none (view.readings (others ++ rest)) = nextKey none (view.readings rest) := by
  induction others with
  | nil => rfl
  | cons member others ih =>
      simp only [Others, List.map_cons, List.mem_cons, not_or] at hothers
      have hskip : raise? (view.seen member.2).reading.skip? = .ok () := by
        rw [Json.skip?_reading]
        rfl
      rw [List.cons_append, View.readings, List.map_cons, nextKey,
        ofName?_eq_none hothers.1.1 hothers.2.1]
      simp only [hskip]
      exact ih ⟨hothers.1.2, hothers.2.2⟩

theorem nextKey_kind (view : View) {others : List (String × Json)} (hothers : Others others)
    (json : Json) (rest : List (String × Json)) :
    nextKey none (view.readings (others ++ ("kind", json) :: rest)) =
      .ok (some (.kind, (view.seen json).reading, view.readings rest)) := by
  rw [nextKey_others view hothers]
  rfl

theorem nextKey_value (view : View) {others : List (String × Json)} (hothers : Others others)
    (json : Json) (rest : List (String × Json)) :
    nextKey none (view.readings (others ++ ("value", json) :: rest)) =
      .ok (some (.value, (view.seen json).reading, view.readings rest)) := by
  rw [nextKey_others view hothers]
  rfl

theorem noKeyLeft_others (view : View) {others : List (String × Json)} (hothers : Others others) :
    noKeyLeft none (view.readings others) = .ok () := by
  have hend : nextKey none (view.readings others) = .ok none := by
    rw [← List.append_nil others, nextKey_others view hothers]
    rfl
  rw [noKeyLeft, hend]
  rfl

section Value

variable {graph : Decoder Graph} {before between after : List (String × Json)} {tag : ValueTag}
  {word : String} {json : Json} {value : AttributeValue} {source : Source}

theorem tag_seen (hword : ValueTag.words.lookup word = some tag) :
    oneOf ValueTag.words source (view.seen (.string word)).reading = .ok tag := by
  rw [View.seen_string]
  exact oneOf_word hword source

/-- The payload is decoded where it stands when the kind comes first. -/
theorem valueOfMembers_kind_first (hbefore : Others before) (hbetween : Others between)
    (hafter : Others after) (hword : ValueTag.words.lookup word = some tag)
    (hpayload : payload graph tag source (view.seen json).reading = .ok value) :
    valueOfMembers graph source (view.readings
      (before ++ ("kind", .string word) :: (between ++ ("value", json) :: after))) none =
        .ok value := by
  rw [valueOfMembers, nextKey_kind view hbefore]
  simp only [bind, Except.bind, tag_seen hword, nextKey_value view hbetween, hpayload,
    noKeyLeft_others view hafter]
  rfl

/-- The payload is read ahead, and decoded once the kind is known, when it comes first. -/
theorem valueOfMembers_value_first (hbefore : Others before) (hbetween : Others between)
    (hafter : Others after) (hword : ValueTag.words.lookup word = some tag)
    (hallows : source.Allows json.height)
    (hpayload : payload graph tag .ahead (view.seen json).reading = .ok value) :
    valueOfMembers graph source (view.readings
      (before ++ ("value", json) :: (between ++ ("kind", .string word) :: after))) none =
        .ok value := by
  rw [valueOfMembers, nextKey_value view hbefore]
  simp only [bind, Except.bind, readAhead_seen hallows, nextKey_kind view hbetween, tag_seen hword,
    hpayload, noKeyLeft_others view hafter]
  rfl

/-- The payload is decoded after the kind when both are the items of a list. -/
theorem valueOfItems_eq (hword : ValueTag.words.lookup word = some tag)
    (hpayload : payload graph tag source (view.seen json).reading = .ok value) :
    valueOfItems graph source ([.string word, json].map fun item => (view.seen item).reading) none =
      .ok value := by
  have htag : identifier ValueTag.words source (view.seen (.string word)).reading = .ok tag := by
    rw [View.seen_string]
    exact choice_eq_ok hword
  simp only [List.map_cons, List.map_nil, valueOfItems, bind, Except.bind, htag, hpayload]
  rfl

/-- A name that stands once among the members has others before and behind it. -/
theorem exists_split {name : String} {members : List (String × Json)}
    (hcount : (members.map Prod.fst).count name = 1) : ∃ before json after,
      members = before ++ (name, json) :: after ∧ name ∉ before.map Prod.fst ∧
        name ∉ after.map Prod.fst := by
  have hmem : name ∈ members.map Prod.fst := List.count_pos_iff.mp (by omega)
  obtain ⟨member, hmember, rfl⟩ := List.mem_map.mp hmem
  obtain ⟨before, after, rfl⟩ := List.append_of_mem hmember
  simp only [List.map_append, List.map_cons, List.count_append, List.count_cons_self] at hcount
  exact ⟨before, member.2, after, rfl, List.count_eq_zero.mp (by omega),
    List.count_eq_zero.mp (by omega)⟩

/-- The kind and the payload stand in one order or the other. -/
theorem exists_kind_value {members : List (String × Json)}
    (hkind : (members.map Prod.fst).count "kind" = 1)
    (hvalue : (members.map Prod.fst).count "value" = 1) :
    ∃ before between after kind value, Others before ∧ Others between ∧ Others after ∧
      (members = before ++ ("kind", kind) :: (between ++ ("value", value) :: after) ∨
        members = before ++ ("value", value) :: (between ++ ("kind", kind) :: after)) := by
  obtain ⟨first, kind, second, rfl, hfirst, hsecond⟩ := exists_split hkind
  have hvalue' : (first.map Prod.fst).count "value" + (second.map Prod.fst).count "value" = 1 := by
    simpa [List.count_cons] using hvalue
  by_cases hmem : "value" ∈ second.map Prod.fst
  · have hpos := List.count_pos_iff.mpr hmem
    have hone : (second.map Prod.fst).count "value" = 1 := by omega
    obtain ⟨between, value, after, rfl, hbetween, hafter⟩ := exists_split hone
    simp only [List.map_append, List.map_cons, List.mem_append, List.mem_cons, not_or] at hsecond
    exact ⟨first, between, after, kind, value,
      ⟨hfirst, List.count_eq_zero.mp (by omega)⟩, ⟨hsecond.1, hbetween⟩, ⟨hsecond.2.2, hafter⟩,
      .inl rfl⟩
  · have hzero := List.count_eq_zero.mpr hmem
    have hone : (first.map Prod.fst).count "value" = 1 := by omega
    obtain ⟨before, value, between, rfl, hbefore, hbetween⟩ := exists_split hone
    simp only [List.map_append, List.map_cons, List.mem_append, List.mem_cons, not_or] at hfirst
    exact ⟨before, between, second, kind, value, ⟨hfirst.1, hbefore⟩, ⟨hfirst.2.2, hbetween⟩,
      ⟨hsecond, hmem⟩, .inr (by simp)⟩

/-- An object that shows an attribute value has its kind and its payload, in one order or the other.
-/
theorem exists_of_tagged_object {members : List (String × Json)}
    (hshown : Shown (.tagged tag) (taggedJson word json) (.object members)) :
    ∃ before between after content, Others before ∧ Others between ∧ Others after ∧
      Shown (.ofTag tag) json content ∧ ("value", content) ∈ members ∧
      (members = before ++ ("kind", .string word) :: (between ++ ("value", content) :: after) ∨
        members = before ++ ("value", content) :: (between ++ ("kind", .string word) :: after)) := by
  rw [taggedJson] at hshown
  cases hshown with
  | object _ _ hgiven hshown =>
      have hkind := Or.resolve_right (hgiven _ List.mem_cons_self (.string word) List.mem_cons_self)
        fun habsent => Option.some_ne_none _ habsent.2.symm
      have hvalue := Or.resolve_right (hgiven _ (List.mem_cons_of_mem _ List.mem_cons_self) json
        (List.mem_cons_of_mem _ List.mem_cons_self))
        fun habsent => Option.some_ne_none _ habsent.2.symm
      obtain ⟨before, between, after, kind, content, hbefore, hbetween, hafter, horder⟩ :=
        exists_kind_value hkind hvalue
      have hkindMem : ("kind", kind) ∈ members := by rcases horder with rfl | rfl <;> simp
      have hcontentMem : ("value", content) ∈ members := by rcases horder with rfl | rfl <;> simp
      obtain rfl := (hshown _ List.mem_cons_self (.string word) kind List.mem_cons_self
        hkindMem).eq_of_plain
      have hcontent : Shown (.ofTag tag) json content :=
        hshown _ (List.mem_cons_of_mem _ List.mem_cons_self) json content
          (List.mem_cons_of_mem _ List.mem_cons_self) hcontentMem
      exact ⟨before, between, after, content, hbefore, hbetween, hafter, hcontent, hcontentMem,
        horder⟩

/-- A list that shows an attribute value has its kind and its payload. -/
theorem exists_of_tagged_array {items : List Json}
    (hshown : Shown (.tagged tag) (taggedJson word json) (.array items)) :
    ∃ content, items = [.string word, content] ∧ Shown (.ofTag tag) json content := by
  rw [taggedJson] at hshown
  cases hshown with
  | array _ _ hlength hitems =>
      obtain ⟨kind, content, rfl⟩ := List.length_eq_two.mp hlength
      obtain rfl := (hitems 0 _ (.string word) kind rfl List.mem_cons_self rfl).eq_of_plain
      exact ⟨content, rfl, hitems 1 _ json content rfl
        (List.mem_cons_of_mem _ List.mem_cons_self) rfl⟩

theorem tagged_takes {tag : ValueTag} (hword : ValueTag.words.lookup word = some tag)
    (hpayload : (payload graph tag).Takes view limit (.ofTag tag) json value) :
    (attributeValueOver graph).Takes view limit .value (taggedJson word json) value := by
  intro shown hshown hlimit source hallows
  cases hshown with
  | object hrecord => exact absurd rfl hrecord
  | array hform => exact absurd rfl hform.1
  | @value tag' _ _ htag htagged =>
      obtain rfl : tag = tag' := Option.some.inj (hword.symm.trans htag)
      cases shown with
      | object members =>
          obtain ⟨before, between, after, content, hbefore, hbetween, hafter, hcontent, hmember,
            horder⟩ := exists_of_tagged_object htagged
          obtain ⟨inner, henter, hinner⟩ := hallows.enter Json.height_object_pos
          have hlt : content.height < (Json.object members).height := Json.height_lt_object hmember
          have htakes := hpayload hcontent (hlt.trans hlimit)
          rw [View.reading_object, attributeValueOver, henter]
          obtain rfl | rfl := horder
          · exact valueOfMembers_kind_first hbefore hbetween hafter hword (htakes (hinner _ hlt))
          -- What is read ahead is checked for its height at once, and never again.
          · exact valueOfMembers_value_first hbefore hbetween hafter hword (hinner _ hlt)
              (htakes trivial)
      | array items =>
          obtain ⟨content, rfl, hcontent⟩ := exists_of_tagged_array htagged
          obtain ⟨inner, henter, hinner⟩ := hallows.enter Json.height_array_pos
          have hlt : content.height < (Json.array [.string word, content]).height :=
            Json.height_lt_array (List.mem_cons_of_mem _ List.mem_cons_self)
          have hvalue := hpayload hcontent (hlt.trans hlimit) (hinner _ hlt)
          rw [View.reading_array, attributeValueOver, henter]
          exact valueOfItems_eq hword hvalue
      | null | bool | number | string => cases htagged

/-- The kind is written before the payload, so nothing is read ahead. -/
theorem tagged_admits {tag : ValueTag} (hword : ValueTag.words.lookup word = some tag)
    (hpayload : (payload graph tag).Admits json) :
    (attributeValueOver graph).Admits (taggedJson word json) where
  readable := by
    rw [taggedJson, Json.readable_object]
    simp only [List.forall_mem_cons]
    exact ⟨Json.readable_string word, hpayload.readable,
      fun _ hmember => absurd hmember List.not_mem_nil⟩
  bounded levels value hdecode := by
    rw [taggedJson, Json.asRead_object, Json.reading_object, attributeValueOver] at hdecode
    obtain ⟨inner, henter, hvalue⟩ := Except.bind_eq_ok hdecode
    obtain ⟨lower, rfl, rfl⟩ := Source.exists_of_enter henter
    have hkey : (Json.string word).asRead.reading = .string word := rfl
    simp only [List.map_cons, List.map_nil, hkey, valueOfMembers, nextKey, ValueKey.ofName?,
      oneOf_word hword, bind, Except.bind] at hvalue
    obtain ⟨value', hpayload', _⟩ := Except.bind_eq_ok hvalue
    obtain ⟨hfinite, hheight⟩ := hpayload.bounded hpayload'
    rw [taggedJson, Json.finite_object, Json.height_object_le]
    simp only [List.forall_mem_cons]
    exact ⟨⟨rfl, hfinite, fun _ hmember => absurd hmember List.not_mem_nil⟩,
      Nat.zero_le lower, hheight, fun _ hmember => absurd hmember List.not_mem_nil⟩

theorem tagged_shown {tag : ValueTag} (hword : ValueTag.words.lookup word = some tag)
    (hpayload : Shown (.ofTag tag) json json) :
    Shown .value (taggedJson word json) (taggedJson word json) := by
  refine .value hword (.record (List.cons_ne_nil _ _) rfl ?_)
  have hfields : (Form.tagged tag).fields =
      [{ name := "kind", form := .plain }, { name := "value", form := .ofTag tag }] := rfl
  simp [hfields, Shown.plain, hpayload]

/-- An attribute value is read when its payload is, as the word for its kind says. -/
theorem tagged_reads (tag : ValueTag) (hword : ValueTag.words.lookup word = some tag)
    (hpayload : (payload graph tag).Reads given limit (.ofTag tag) json value) :
    (attributeValueOver graph).Reads given limit .value (taggedJson word json) value where
  takes hgiven view := tagged_takes hword (hpayload.takes hgiven view)
  admits hlimit := tagged_admits hword
    (hpayload.admits ((Json.height_lt_of_member? "value" rfl).trans hlimit))
  shown hlimit := tagged_shown hword
    (hpayload.shown ((Json.height_lt_of_member? "value" rfl).trans hlimit))

theorem attributeValue_reads {value : AttributeValue}
    (hgraphs : ∀ nested ∈ value.subgraphs, graph.Reads given limit .graph nested.toJson nested)
    (hfinite : given → ∀ number ∈ value.singles, number.isFinite = true) :
    (attributeValueOver graph).Reads given limit .value value.toJson value := by
  cases value <;> rw [AttributeValue.toJson]
  case int value => exact tagged_reads (.kind .int) (by decide) ((int64_reads value).mapped _)
  case float value =>
    exact tagged_reads (.kind .float) (by decide) ((single_reads fun hgiven =>
      hfinite hgiven value (by simp [AttributeValue.singles])).mapped _)
  case string text => exact tagged_reads (.kind .string) (by decide) ((string_reads text).mapped _)
  case ints values => exact tagged_reads (.kind .ints) (by decide) ((int64s_reads values).mapped _)
  case floats values =>
    exact tagged_reads (.kind .floats) (by decide) ((list_reads fun number hnumber =>
      single_reads fun hgiven => hfinite hgiven number hnumber).mapped _)
  case strings values =>
    exact tagged_reads (.kind .strings) (by decide) ((strings_reads values).mapped _)
  case graph nested =>
    exact tagged_reads (.kind .graph) (by decide)
      ((hgraphs nested (by simp [AttributeValue.subgraphs])).mapped _)
  case graphs nested =>
    rw [graphsJson_eq]
    exact tagged_reads (.kind .graphs) (by decide) ((list_reads hgraphs).mapped _)
  case reference target kind =>
    exact tagged_reads .reference (by decide) (reference_reads target kind)
  case tensor data => exact tagged_reads (.kind .tensor) (by decide) ((tensor_reads data).mapped _)
  case tensors tensors =>
    exact tagged_reads (.kind .tensors) (by decide)
      ((list_reads fun data _ => tensor_reads data).mapped _)
  case sparseTensor data =>
    exact tagged_reads (.kind .sparseTensor) (by decide) ((sparseTensor_reads data).mapped _)
  case sparseTensors tensors =>
    exact tagged_reads (.kind .sparseTensors) (by decide)
      ((list_reads fun data _ => sparseTensor_reads data).mapped _)
  case typeProto type =>
    exact tagged_reads (.kind .typeProto) (by decide) ((typeText_reads type).mapped _)
  case typeProtos types =>
    exact tagged_reads (.kind .typeProtos) (by decide)
      ((list_reads fun type _ => typeText_reads type).mapped _)

/-! ## Graphs and functions -/

theorem attribute_reads {attr : Attribute}
    (hgraphs : ∀ nested ∈ attr.value.subgraphs,
      graph.Reads given limit .graph nested.toJson nested)
    (hfinite : given → ∀ number ∈ attr.value.singles, number.isFinite = true) :
    (attributeOver graph).Reads given limit .attribute attr.toJson attr := by
  cases attr with | mk name value =>
  rw [Attribute.toJson]
  refine Reads.lower (RecordShape.decode_reads [
    .mandatory "name" (string_reads name) _,
    .mandatory "value" (attributeValue_reads hgraphs hfinite) _]
    ⟨rfl, rfl, ?_, rfl⟩ (List.cons_ne_nil _ _))
  simp [Slot.Commutes, Slot.mandatory]

theorem node_reads {node : Node}
    (hgraphs : ∀ nested, node.Carries nested →
      graph.Reads given limit .graph nested.toJson nested)
    (hfinite : given → ∀ attr ∈ node.attributes, ∀ number ∈ attr.value.singles,
      number.isFinite = true) :
    (nodeOver graph).Reads given limit .node node.toJson node := by
  have hattributes : ∀ attr ∈ node.attributes,
      (attributeOver graph).Reads given limit .attribute attr.toJson attr :=
    fun attr hattr => attribute_reads
      (fun nested hnested => hgraphs nested ⟨attr, hattr, hnested⟩)
      (fun hgiven => hfinite hgiven attr hattr)
  cases node with | mk name opType domain inputs outputs attributes =>
  rw [Node.toJson, attributesJson_eq]
  refine Reads.lower (RecordShape.decode_reads [
    .text "name" name _ rfl,
    .mandatory "op_type" (string_reads opType) _,
    .text "domain" domain _ rfl,
    .mandatory "inputs" (strings_reads inputs) _,
    .mandatory "outputs" (strings_reads outputs) _,
    .many "attributes" hattributes _ rfl]
    ⟨rfl, rfl, ?_, rfl⟩ (List.cons_ne_nil _ _))
  simp [Slot.Commutes, Slot.mandatory, Slot.text, Slot.many, Slot.optional]

/-- A graph may be nested one level more deeply than the graphs in it. -/
theorem graphOver_reads {whole : Graph}
    (hnodes : ∀ node ∈ whole.nodes,
      (nodeOver graph).Reads given limit .node node.toJson node) :
    (graphOver graph).Reads given (limit + 1) .graph whole.toJson whole := by
  cases whole with | mk name nodes inputs outputs initializers sparseInitializers =>
  rw [Graph.toJson, nodesJson_eq]
  refine RecordShape.decode_reads [
    .text "name" name _ rfl,
    .mandatory "nodes" (list_reads hnodes) _,
    .mandatory "inputs" (strings_reads inputs) _,
    .mandatory "outputs" (strings_reads outputs) _,
    .many "initializers" (fun data _ => tensor_reads data) _ rfl,
    .many "sparse_initializers" (fun data _ => sparseTensor_reads data) _ rfl]
    ⟨rfl, rfl, ?_, rfl⟩ (List.cons_ne_nil _ _)
  simp [Slot.Commutes, Slot.mandatory, Slot.text, Slot.many, Slot.optional]

end Value

theorem graphWithin_reads : ∀ (limit : Nat) {whole : Graph},
    (graphWithin limit).Reads whole.body.SinglesFinite limit .graph whole.toJson whole := by
  intro limit
  induction limit with
  | zero =>
      exact ⟨fun _ _ _ _ hlimit => absurd hlimit (Nat.not_lt_zero _),
        fun hlimit => absurd hlimit (Nat.not_lt_zero _),
        fun hlimit => absurd hlimit (Nat.not_lt_zero _)⟩
  | succ limit ih =>
      intro whole
      exact graphOver_reads fun node hnode => node_reads
        (fun nested hcarries => ih.imp fun hfinite => hfinite.of_carries hnode hcarries)
        (fun hfinite => hfinite _ .root node hnode)

/-- The limit of nesting is no matter: a graph is decoded with as many levels as it has. -/
theorem graph_reads (whole : Graph) :
    graph.Reads whole.body.SinglesFinite limit .graph whole.toJson whole where
  takes hfinite view json hshown _ source hallows := by
    have hheight : (view.seen json).reading.height = json.height := view.height_seen json
    rw [graph, hheight]
    exact (graphWithin_reads _).takes hfinite view hshown (Nat.lt_succ_self _) hallows
  admits _ := by
    have hwithin := (graphWithin_reads _).admits (Nat.lt_succ_self whole.toJson.height)
    refine ⟨hwithin.readable, fun levels value hdecode => ?_⟩
    have hheight : whole.toJson.asRead.reading.height = whole.toJson.height :=
      Json.height_asRead whole.toJson
    rw [graph, hheight] at hdecode
    exact hwithin.bounded hdecode
  shown _ := (graphWithin_reads _).shown (Nat.lt_succ_self whole.toJson.height)

theorem function_reads (whole : Function) :
    function.Reads whole.body.SinglesFinite limit .function whole.toJson whole := by
  have hnodes : ∀ node ∈ whole.nodes,
      Decoder.node.Reads whole.body.SinglesFinite limit .node node.toJson node :=
    fun node hnode => node_reads
      (fun nested hcarries => (graph_reads nested).imp fun hfinite =>
        hfinite.of_carries hnode hcarries)
      (fun hfinite => hfinite _ .root node hnode)
  rw [Function.toJson, nodesJson_eq]
  refine Reads.lower (RecordShape.decode_reads [
    .mandatory "name" (string_reads whole.name) _,
    .text "domain" whole.domain _ rfl,
    .mandatory "inputs" (strings_reads whole.inputs) _,
    .mandatory "outputs" (strings_reads whole.outputs) _,
    .mandatory "nodes" (list_reads hnodes) _,
    .many "attributes" (fun text _ => string_reads text) _ rfl,
    .many "opset_imports" (fun opset _ => opsetImport_reads opset) _ rfl]
    ⟨rfl, rfl, ?_, rfl⟩ (List.cons_ne_nil _ _))
  simp [Slot.Commutes, Slot.mandatory, Slot.text, Slot.many, Slot.optional]

/-- The decoder gives the value from this form of it: at hand as it was written, at hand as it was
read from a text, and from each text of it in which it is not nested too deeply. -/
structure Gives {α : Type} (decode : Decoder α) (json : Json) (value : α) : Prop where
  ofJson : decode.ofJson json = .ok value
  ofJson_asRead : decode.ofJson json.asRead = .ok value
  ofText : ∀ text, Document.ofText text = ⟨json.asRead.reading, false⟩ →
    json.height ≤ nestingLimit → decode.ofText text = .ok value

/-- What is read below every limit is given from all that shows the written form. -/
theorem Reads.gives {α : Type} {decode : Decoder α} {form : Form} {written : Json} {value : α}
    (hreads : ∀ limit, decode.Reads given limit form written value) (hgiven : given) {json : Json}
    (hshown : Shown form written json) : decode.Gives json value where
  ofJson := (hreads _).takes hgiven .atHand hshown (Nat.lt_succ_self _) trivial
  ofJson_asRead := (hreads _).takes hgiven .asRead hshown (Nat.lt_succ_self _) trivial
  ofText text htext hheight := by
    have hdecode : decode (.text nestingLimit) json.asRead.reading = .ok value :=
      (hreads _).takes hgiven .asRead hshown (Nat.lt_succ_self _) hheight
    rw [Decoder.ofText, htext]
    simp only [hdecode]
    rfl

/-- In particular from the text that is written of it. -/
theorem Gives.ofText_pretty {α : Type} {decode : Decoder α} {json : Json} {value : α}
    (hgives : decode.Gives json value) (hreadable : json.Readable)
    (hheight : json.height ≤ nestingLimit) : decode.ofText json.pretty = .ok value :=
  hgives.ofText _ hreadable.ofText_pretty hheight

/-- What is written of a value that is read is given back, if it is not nested too deeply. -/
theorem Reads.ofText_pretty {α : Type} {decode : Decoder α} {form : Form} {written : Json}
    {value : α} (hreads : ∀ limit, decode.Reads given limit form written value) (hgiven : given)
    (hheight : written.height ≤ nestingLimit) : decode.ofText written.pretty = .ok value :=
  have hwritten := hreads (written.height + 1)
  (Reads.gives hreads hgiven (hwritten.shown (Nat.lt_succ_self _))).ofText_pretty
    (hwritten.admits (Nat.lt_succ_self _)).readable hheight

end Decoder

theorem Graph.shown (graph : Graph) : Shown .graph graph.toJson graph.toJson :=
  (Decoder.graph_reads graph).shown (Nat.lt_succ_self _)

theorem Function.shown (function : Function) :
    Shown .function function.toJson function.toJson :=
  (Decoder.function_reads function).shown (Nat.lt_succ_self _)

/-- Decoding does not depend on how a value is written. -/
theorem gives_of_rewritten :
    (∀ (graph : Graph) (json : Json), graph.body.SinglesFinite →
      Relation.ReflTransGen (Rewrites .graph) graph.toJson json →
      Decoder.graph.Gives json graph) ∧
    ∀ (function : Function) (json : Json), function.body.SinglesFinite →
      Relation.ReflTransGen (Rewrites .function) function.toJson json →
      Decoder.function.Gives json function :=
  ⟨fun graph _ hfinite hrewritten =>
      Decoder.Reads.gives (fun _ => Decoder.graph_reads graph) hfinite
        (graph.shown.rewritten hrewritten),
    fun function _ hfinite hrewritten =>
      Decoder.Reads.gives (fun _ => Decoder.function_reads function) hfinite
        (function.shown.rewritten hrewritten)⟩

def Node.squeeze : Node where
  opType := "Squeeze"
  inputs := ["x"]
  outputs := ["y"]
  attributes := [⟨"axes", .ints [0]⟩]

def Graph.squeeze : Graph where
  inputs := ["x"]
  outputs := ["y"]
  nodes := [.squeeze]

def Function.squeeze : Function where
  name := "squeeze"
  inputs := ["x"]
  outputs := ["y"]
  nodes := [.squeeze]

namespace Json

/-- An attribute as the list of its fields, with the payload before the kind. -/
def axes : Json :=
  .array [.string "axes", .object [("value", .int64s [0]), ("kind", .string "ints")]]

/-- The members of a node behind its domain. -/
def squeezeRest (attr : Json) : List (String × Json) :=
  [("inputs", .strings ["x"]), ("outputs", .strings ["y"]), ("attributes", .array [attr])]

/-- A node around an attribute, without its name and its domain. -/
def bareSqueeze (attr : Json) : Json :=
  .object (("op_type", .string "Squeeze") :: squeezeRest attr)

def namelessSqueeze (attr : Json) : Json :=
  .object (("op_type", .string "Squeeze") :: ("domain", .string "") :: squeezeRest attr)

def squeeze (attr : Json) : Json :=
  .object (("name", .string "") :: ("op_type", .string "Squeeze") :: ("domain", .string "") ::
    squeezeRest attr)

/-- The members of a graph around a node. -/
def squeezeGraph (node : Json) : List (String × Json) := [
  ("name", .string ""), ("nodes", .array [node]), ("inputs", .strings ["x"]),
  ("outputs", .strings ["y"]), ("initializers", .array []), ("sparse_initializers", .array [])]

/-- The members of a function around a node. -/
def squeezeFunction (node : Json) : List (String × Json) := [
  ("name", .string "squeeze"), ("domain", .string ""), ("inputs", .strings ["x"]),
  ("outputs", .strings ["y"]), ("nodes", .array [node]), ("attributes", .array []),
  ("opset_imports", .array [])]

theorem bareSqueeze_rewritten :
    Relation.ReflTransGen (Rewrites .node) Node.squeeze.toJson (bareSqueeze axes) := by
  have hattribute : Relation.ReflTransGen (Rewrites .attribute)
      (Attribute.toJson ⟨"axes", .ints [0]⟩) axes :=
    .tail (.single (.member 1 (List.mem_of_getElem? (i := 1) rfl) rfl
        (.value rfl (.reorder (List.cons_ne_nil _ _) (.swap _ _ _)))))
      (.enlist ⟨List.cons_ne_nil _ _, by decide⟩ rfl)
  have hsqueeze (json json' : Json) (hrewrites : Rewrites .attribute json json') :
      Rewrites .node (squeeze json) (squeeze json') := by
    have hfield : ⟨"attributes", .list .attribute, some (.array [])⟩ ∈ Form.node.fields :=
      List.mem_of_getElem? (i := 5) rfl
    exact .member 5 hfield rfl (.item 0 rfl hrewrites)
  have hname : Rewrites .node (squeeze axes) (namelessSqueeze axes) := by
    have hfield : ⟨"name", .plain, some (.string "")⟩ ∈ Form.node.fields :=
      List.mem_of_getElem? (i := 0) rfl
    exact .drop [] _ hfield rfl
  have hdomain : Rewrites .node (namelessSqueeze axes) (bareSqueeze axes) := by
    have hfield : ⟨"domain", .plain, some (.string "")⟩ ∈ Form.node.fields :=
      List.mem_of_getElem? (i := 2) rfl
    exact .drop [("op_type", .string "Squeeze")] _ hfield rfl
  exact ((hattribute.lift squeeze hsqueeze).tail hname).tail hdomain

end Json

theorem gives_of_rewritten_squeeze : Graph.squeeze.body.SinglesFinite ∧
    Function.squeeze.body.SinglesFinite ∧
    Relation.ReflTransGen (Rewrites .graph) Graph.squeeze.toJson
      (.object (("doc", .null) :: Json.squeezeGraph (.bareSqueeze .axes))) ∧
    Relation.ReflTransGen (Rewrites .function) Function.squeeze.toJson
      (.array ((Json.squeezeFunction (.bareSqueeze .axes)).map Prod.snd)) ∧
    Decoder.graph.ofJson (.object (("doc", .null) :: Json.squeezeGraph (.bareSqueeze .axes))) =
      .ok .squeeze ∧
    Function.ofText
        (Json.array ((Json.squeezeFunction (.bareSqueeze .axes)).map Prod.snd)).pretty =
      .ok .squeeze := by
  have hfinite : Graph.squeeze.body.SinglesFinite := by
    refine Body.singlesFinite_of_scopes ?_
    change ∀ scope ∈ [Graph.squeeze.body], _
    simp [Graph.squeeze, Graph.body, Node.squeeze, AttributeValue.singles]
  have hgraphNode (json json' : Json) (hrewrites : Rewrites .node json json') :
      Rewrites .graph (.object (Json.squeezeGraph json)) (.object (Json.squeezeGraph json')) := by
    have hfield : ⟨"nodes", .list .node, none⟩ ∈ Form.graph.fields :=
      List.mem_of_getElem? (i := 1) rfl
    exact .member 1 hfield rfl (.item 0 rfl hrewrites)
  have hgraph : Relation.ReflTransGen (Rewrites .graph) Graph.squeeze.toJson
      (.object (("doc", .null) :: Json.squeezeGraph (.bareSqueeze .axes))) :=
    (Json.bareSqueeze_rewritten.lift (fun node => Json.object (Json.squeezeGraph node))
      hgraphNode).tail (.add .null (List.cons_ne_nil _ _) (by decide))
  have hfunctionNode (json json' : Json) (hrewrites : Rewrites .node json json') :
      Rewrites .function (.object (Json.squeezeFunction json))
        (.object (Json.squeezeFunction json')) := by
    have hfield : ⟨"nodes", .list .node, none⟩ ∈ Form.function.fields :=
      List.mem_of_getElem? (i := 4) rfl
    exact .member 4 hfield rfl (.item 0 rfl hrewrites)
  have hfunction : Relation.ReflTransGen (Rewrites .function) Function.squeeze.toJson
      (.array ((Json.squeezeFunction (.bareSqueeze .axes)).map Prod.snd)) :=
    (Json.bareSqueeze_rewritten.lift (fun node => Json.object (Json.squeezeFunction node))
      hfunctionNode).tail (.enlist ⟨List.cons_ne_nil _ _, by decide⟩ rfl)
  have hreadable :
      (Json.array ((Json.squeezeFunction (.bareSqueeze .axes)).map Prod.snd)).Readable := by
    simp [Json.squeezeFunction, Json.bareSqueeze, Json.squeezeRest, Json.axes, Json.strings,
      Json.int64s, Json.readable_object, Json.readable_array, Json.readable_string,
      Json.readable_int]
  exact ⟨hfinite, hfinite, hgraph, hfunction, (gives_of_rewritten.1 _ _ hfinite hgraph).ofJson,
    (gives_of_rewritten.2 .squeeze _ hfinite hfunction).ofText_pretty hreadable (by decide)⟩

end OpGraph
