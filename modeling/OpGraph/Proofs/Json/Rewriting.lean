import Mathlib.Logic.Relation
import OpGraph.Graph.Decode
import OpGraph.Proofs.Scoping.Mentioned

/-!
# Other written forms of a value

What is written in one form may be written in others that mean the same: the members of an object in
another order or among members that nobody asks for, without the fields that have their defaults, or
as the list of their values. A rewriting changes one thing at one place. A value that is rewritten
any number of times, at any places, still shows what was written at first, field by field; so
`Shown` compares two written forms as a reader would, and each rewriting keeps it.
-/

namespace OpGraph

/-- What a part of a written value stands for. An attribute value has a form of its own for each tag
that its kind may say. -/
inductive Form where
  | plain
  | list (item : Form)
  | tensor
  | sparseTensor
  | opsetImport
  | reference
  | tagged (tag : ValueTag)
  | value
  | attribute
  | node
  | graph
  | function
  deriving DecidableEq

/-- A field of a written record, with the value that it has when it is left out. -/
structure FormField where
  name : String
  form : Form := .plain
  default? : Option Json := none

namespace Form

/-- The payload of an attribute value. -/
def ofTag : ValueTag → Form
  | .kind .graph => .graph
  | .kind .graphs => .list .graph
  | .reference => .reference
  | .kind .tensor => .tensor
  | .kind .tensors => .list .tensor
  | .kind .sparseTensor => .sparseTensor
  | .kind .sparseTensors => .list .sparseTensor
  | .kind .ints | .kind .floats | .kind .strings | .kind .typeProtos => .list .plain
  | .kind .int | .kind .float | .kind .string | .kind .typeProto => .plain

/-- The fields of a record, in the order of their declaration. -/
def fields : Form → List FormField
  | .tensor => [
      { name := "name" }, { name := "data_type" }, { name := "dims", form := .list .plain },
      { name := "raw_data", form := .list .plain }]
  | .sparseTensor => [
      { name := "values", form := .tensor }, { name := "indices", form := .tensor },
      { name := "dims", form := .list .plain }]
  | .opsetImport => [{ name := "domain", default? := some (.string "") }, { name := "version" }]
  | .reference => [{ name := "target" }, { name := "kind" }]
  | .tagged tag => [{ name := "kind" }, { name := "value", form := ofTag tag }]
  | .attribute => [{ name := "name" }, { name := "value", form := .value }]
  | .node => [
      { name := "name", default? := some (.string "") }, { name := "op_type" },
      { name := "domain", default? := some (.string "") },
      { name := "inputs", form := .list .plain }, { name := "outputs", form := .list .plain },
      { name := "attributes", form := .list .attribute, default? := some (.array []) }]
  | .graph => [
      { name := "name", default? := some (.string "") }, { name := "nodes", form := .list .node },
      { name := "inputs", form := .list .plain }, { name := "outputs", form := .list .plain },
      { name := "initializers", form := .list .tensor, default? := some (.array []) },
      { name := "sparse_initializers", form := .list .sparseTensor,
        default? := some (.array []) }]
  | .function => [
      { name := "name" }, { name := "domain", default? := some (.string "") },
      { name := "inputs", form := .list .plain }, { name := "outputs", form := .list .plain },
      { name := "nodes", form := .list .node },
      { name := "attributes", form := .list .plain, default? := some (.array []) },
      { name := "opset_imports", form := .list .opsetImport, default? := some (.array []) }]
  | .plain | .list _ | .value => []

def names (form : Form) : List String := form.fields.map FormField.name

/-- Whether the record may be written as the list of its fields. The payload of a reference may
not. -/
def Listable (form : Form) : Prop := form.fields ≠ [] ∧ form ≠ .reference

end Form

/-- The tag that a written attribute value says, in a member or as its first item. -/
def Json.tag? : Json → Option ValueTag
  | .object members =>
      match members.lookup "kind" with
      | some (.string word) => ValueTag.words.lookup word
      | _ => none
  | .array (.string word :: _) => ValueTag.words.lookup word
  | _ => none

/-- One change to a written value of a form, at one place in it. -/
inductive Rewrites : Form → Json → Json → Prop
  /-- The members of a record in another order. -/
  | reorder {form : Form} {members members' : List (String × Json)} (hrecord : form.fields ≠ [])
      (hperm : members.Perm members') : Rewrites form (.object members) (.object members')
  /-- One more member, that is no field of the record. -/
  | add {form : Form} {members : List (String × Json)} {name : String} (extra : Json)
      (hrecord : form.fields ≠ []) (hname : name ∉ form.names) :
      Rewrites form (.object members) (.object ((name, extra) :: members))
  /-- A field left out that has its default. -/
  | drop {form : Form} {field : FormField} {default : Json} (before after : List (String × Json))
      (hfield : field ∈ form.fields) (hdefault : field.default? = some default) :
      Rewrites form (.object (before ++ (field.name, default) :: after)) (.object (before ++ after))
  /-- The list of all fields instead of the record. -/
  | enlist {form : Form} {members : List (String × Json)} (hform : form.Listable)
      (hnames : members.map Prod.fst = form.names) :
      Rewrites form (.object members) (.array (members.map Prod.snd))
  /-- A change to a field of a record. -/
  | member {form : Form} {field : FormField} {members : List (String × Json)}
      {json json' : Json} (place : Nat) (hfield : field ∈ form.fields)
      (hmember : members[place]? = some (field.name, json))
      (hrewrites : Rewrites field.form json json') :
      Rewrites form (.object members) (.object (members.set place (field.name, json')))
  /-- A change to a field of a record that is written as a list. -/
  | entry {form : Form} {field : FormField} {items : List Json} {json json' : Json} (place : Nat)
      (hfield : form.fields[place]? = some field) (hitem : items[place]? = some json)
      (hrewrites : Rewrites field.form json json') :
      Rewrites form (.array items) (.array (items.set place json'))
  /-- A change to an item of a list. -/
  | item {form : Form} {items : List Json} {json json' : Json} (place : Nat)
      (hitem : items[place]? = some json) (hrewrites : Rewrites form json json') :
      Rewrites (.list form) (.array items) (.array (items.set place json'))
  /-- A change to an attribute value of the tag that it says. -/
  | value {tag : ValueTag} {json json' : Json} (htag : json.tag? = some tag)
      (hrewrites : Rewrites (.tagged tag) json json') : Rewrites .value json json'

/-- A field with this value is given by the members: one of them has its name, or none has and the
value is the default. -/
def FormField.GivenBy (field : FormField) (json : Json) (members : List (String × Json)) : Prop :=
  (members.map Prod.fst).count field.name = 1 ∨
    (members.map Prod.fst).count field.name = 0 ∧ field.default? = some json

theorem FormField.GivenBy.count_le {field : FormField} {json : Json}
    {members : List (String × Json)} (hgiven : field.GivenBy json members) :
    (members.map Prod.fst).count field.name ≤ 1 := by
  obtain hone | ⟨hzero, _⟩ := hgiven
  · exact Nat.le_of_eq hone
  · exact Nat.le_trans (Nat.le_of_eq hzero) (Nat.zero_le 1)

/-- What is written first is what the value shown next means: each field that was written is shown
once, or left out with its default, in an object; and each in its place, in a list. -/
inductive Shown : Form → Json → Json → Prop
  | plain (json : Json) : Shown .plain json json
  | list {form : Form} {items items' : List Json} (hlength : items'.length = items.length)
      (hitems : ∀ (place : Nat) (json json' : Json), items[place]? = some json →
        items'[place]? = some json' → Shown form json json') :
      Shown (.list form) (.array items) (.array items')
  | object {form : Form} {written members : List (String × Json)} (hrecord : form.fields ≠ [])
      (hnames : written.map Prod.fst = form.names)
      (hgiven : ∀ field ∈ form.fields, ∀ json, (field.name, json) ∈ written →
        field.GivenBy json members)
      (hshown : ∀ field ∈ form.fields, ∀ json json', (field.name, json) ∈ written →
        (field.name, json') ∈ members → Shown field.form json json') :
      Shown form (.object written) (.object members)
  | array {form : Form} {written : List (String × Json)} {items : List Json}
      (hform : form.Listable) (hnames : written.map Prod.fst = form.names)
      (hlength : items.length = form.fields.length)
      (hitems : ∀ (place : Nat) (field : FormField) (json json' : Json),
        form.fields[place]? = some field → (field.name, json) ∈ written →
        items[place]? = some json' → Shown field.form json json') :
      Shown form (.object written) (.array items)
  | value {tag : ValueTag} {json json' : Json} (htag : json.tag? = some tag)
      (hshown : Shown (.tagged tag) json json') : Shown .value json json'

namespace Form

variable {form : Form} {field field' : FormField}

theorem names_nodup (form : Form) : form.names.Nodup := by
  cases form <;> simp [names, fields]

/-- Different fields of a record have different names. -/
theorem eq_of_name_eq (hfield : field ∈ form.fields) (hfield' : field' ∈ form.fields)
    (hname : field.name = field'.name) : field = field' :=
  List.inj_on_of_nodup_map form.names_nodup hfield hfield' hname

theorem name_mem (hfield : field ∈ form.fields) : field.name ∈ form.names :=
  List.mem_map_of_mem hfield

/-- A default is an empty string or an empty list. -/
theorem default_cases (hfield : field ∈ form.fields) {default : Json}
    (hdefault : field.default? = some default) :
    field.form = .plain ∨ (∃ item, field.form = .list item) ∧ default = .array [] := by
  cases form <;> simp only [fields, List.mem_cons, List.not_mem_nil, or_false] at hfield <;>
    grind

end Form

namespace Json

variable {tag : ValueTag}

theorem exists_of_tag?_object {members : List (String × Json)}
    (htag : (object members).tag? = some tag) :
    ∃ word, ("kind", .string word) ∈ members ∧ ValueTag.words.lookup word = some tag := by
  rw [tag?] at htag
  split at htag
  · next word hlookup => exact ⟨word, Body.mem_of_lookup hlookup, htag⟩
  · cases htag

theorem exists_of_tag?_array {items : List Json} (htag : (array items).tag? = some tag) :
    ∃ word, items[0]? = some (.string word) ∧ ValueTag.words.lookup word = some tag := by
  unfold tag? at htag
  split at htag
  · next hobject => cases hobject
  · next word rest harray =>
      cases harray
      exact ⟨word, rfl, htag⟩
  · cases htag

end Json

namespace Shown

variable {form : Form} {written json json' : Json}

theorem eq_of_plain (hshown : Shown .plain written json) : json = written := by
  cases hshown with
  | plain => rfl
  | object hrecord => exact absurd rfl hrecord
  | array hform => exact absurd rfl hform.1

theorem eq_nil_of_list {item : Form} (hshown : Shown (.list item) written (.array [])) :
    written = .array [] := by
  cases hshown with
  | @list _ items _ hlength => rw [List.length_eq_zero_iff.mp hlength.symm]
  | array hform => exact absurd rfl hform.1

/-- What shows the default is the default. -/
theorem eq_default {field : FormField} (hfield : field ∈ form.fields) {default : Json}
    (hdefault : field.default? = some default) (hshown : Shown field.form written default) :
    written = default := by
  obtain hplain | ⟨⟨item, hlist⟩, rfl⟩ := form.default_cases hfield hdefault
  · rw [hplain] at hshown
    exact hshown.eq_of_plain.symm
  · rw [hlist] at hshown
    exact hshown.eq_nil_of_list

/-- The tag that is shown is the one that was written. -/
theorem tag_eq {tag tag' tag'' : ValueTag} (hshown : Shown (.tagged tag) written json)
    (htag : written.tag? = some tag') (htag' : json.tag? = some tag'') : tag' = tag'' := by
  cases hshown with
  | @object _ written members _ _ _ hshown =>
      obtain ⟨word, hword, hlookup⟩ := Json.exists_of_tag?_object htag
      obtain ⟨word', hword', hlookup'⟩ := Json.exists_of_tag?_object htag'
      have hplain := hshown _ List.mem_cons_self _ _ hword hword'
      cases hplain.eq_of_plain
      exact Option.some.inj (hlookup.symm.trans hlookup')
  | @array _ written items _ _ _ hitems =>
      obtain ⟨word, hword, hlookup⟩ := Json.exists_of_tag?_object htag
      obtain ⟨word', hword', hlookup'⟩ := Json.exists_of_tag?_array htag'
      have hplain := hitems 0 _ _ _ rfl hword hword'
      cases hplain.eq_of_plain
      exact Option.some.inj (hlookup.symm.trans hlookup')

section Step

variable {members members' : List (String × Json)} {items : List Json} {field : FormField}
  {place : Nat}

theorem reorder (hrecord : form.fields ≠ []) (hperm : members.Perm members')
    (hshown : Shown form written (.object members)) : Shown form written (.object members') := by
  cases hshown with
  | plain => exact absurd rfl hrecord
  | value => exact absurd rfl hrecord
  | object _ hnames hgiven hshown =>
      refine .object hrecord hnames (fun field hfield json hjson => ?_)
        (fun field hfield json json' hjson hjson' => ?_)
      · rw [FormField.GivenBy, ← (hperm.map Prod.fst).count_eq]
        exact hgiven field hfield json hjson
      · exact hshown field hfield json json' hjson (hperm.mem_iff.mpr hjson')

theorem add (hrecord : form.fields ≠ []) {name : String} (hname : name ∉ form.names) (extra : Json)
    (hshown : Shown form written (.object members)) :
    Shown form written (.object ((name, extra) :: members)) := by
  have hne : ∀ field ∈ form.fields, name ≠ field.name :=
    fun field hfield heq => hname (heq ▸ form.name_mem hfield)
  cases hshown with
  | plain => exact absurd rfl hrecord
  | value => exact absurd rfl hrecord
  | object _ hnames hgiven hshown =>
      refine .object hrecord hnames (fun field hfield json hjson => ?_)
        (fun field hfield json json' hjson hjson' => ?_)
      · rw [FormField.GivenBy, List.map_cons, List.count_cons_of_ne (hne field hfield)]
        exact hgiven field hfield json hjson
      · obtain heq | hmember := List.mem_cons.mp hjson'
        · exact absurd (congrArg Prod.fst heq).symm (hne field hfield)
        · exact hshown field hfield json json' hjson hmember

theorem drop (hfield : field ∈ form.fields) {default : Json}
    (hdefault : field.default? = some default) {before after : List (String × Json)}
    (hshown : Shown form written (.object (before ++ (field.name, default) :: after))) :
    Shown form written (.object (before ++ after)) := by
  have hrecord : form.fields ≠ [] := List.ne_nil_of_mem hfield
  have hcount (name : String) :
      ((before ++ (field.name, default) :: after).map Prod.fst).count name =
        ((before ++ after).map Prod.fst).count name + if field.name = name then 1 else 0 := by
    simp [List.count_cons, Nat.add_assoc]
  cases hshown with
  | plain => exact absurd rfl hrecord
  | value => exact absurd rfl hrecord
  | object _ hnames hgiven hshown =>
      refine .object hrecord hnames (fun other hother json hjson => ?_)
        (fun other hother json json' hjson hjson' => ?_)
      · have hother' := hgiven other hother json hjson
        rw [FormField.GivenBy, hcount] at hother'
        by_cases hname : field.name = other.name
        · -- The field was shown with its default, so this is what was written.
          obtain rfl := form.eq_of_name_eq hfield hother hname
          have hjson' : json = default := eq_default hfield hdefault
            (hshown field hfield json default hjson (by simp))
          rw [if_pos rfl] at hother'
          exact .inr ⟨by omega, hjson' ▸ hdefault⟩
        · rw [if_neg hname, Nat.add_zero] at hother'
          exact hother'
      · refine hshown other hother json json' hjson ?_
        exact List.mem_append.mpr ((List.mem_append.mp hjson').imp_right (List.mem_cons_of_mem _))

theorem enlist (hform : form.Listable) (hnames' : members.map Prod.fst = form.names)
    (hshown : Shown form written (.object members)) :
    Shown form written (.array (members.map Prod.snd)) := by
  cases hshown with
  | plain => exact absurd rfl hform.1
  | value => exact absurd rfl hform.1
  | object _ hnames hgiven hshown =>
      refine .array hform hnames ?_ fun place field json json' hfield hjson hjson' => ?_
      · rw [List.length_map, ← List.length_map Prod.fst, hnames', Form.names, List.length_map]
      · rw [List.getElem?_map, Option.map_eq_some_iff] at hjson'
        obtain ⟨⟨name, _⟩, hmember, rfl⟩ := hjson'
        have hname : (members.map Prod.fst)[place]? = some field.name := by
          rw [hnames', Form.names, List.getElem?_map, hfield, Option.map_some]
        rw [List.getElem?_map, hmember, Option.map_some, Option.some.injEq] at hname
        subst hname
        exact hshown field (List.mem_of_getElem? hfield) json _ hjson
          (List.mem_of_getElem? hmember)

theorem member (hfield : field ∈ form.fields) (hmember : members[place]? = some (field.name, json))
    (hnext : ∀ {written : Json}, Shown field.form written json → Shown field.form written json')
    (hshown : Shown form written (.object members)) :
    Shown form written (.object (members.set place (field.name, json'))) := by
  have hrecord : form.fields ≠ [] := List.ne_nil_of_mem hfield
  have hset : (members.set place (field.name, json')).map Prod.fst = members.map Prod.fst := by
    have hname : (members.map Prod.fst)[place]? = some field.name := by
      rw [List.getElem?_map, hmember, Option.map_some]
    obtain ⟨hlt, heq⟩ := List.getElem?_eq_some_iff.mp hname
    rw [List.map_set, ← heq, List.set_getElem_self]
  cases hshown with
  | plain => exact absurd rfl hrecord
  | value => exact absurd rfl hrecord
  | object _ hnames hgiven hshown =>
      refine .object hrecord hnames (fun other hother value hvalue => ?_)
        (fun other hother value value' hvalue hvalue' => ?_)
      · rw [FormField.GivenBy, hset]
        exact hgiven other hother value hvalue
      · obtain hold | heq := List.mem_or_eq_of_mem_set hvalue'
        · exact hshown other hother value value' hvalue hold
        · obtain ⟨hname, rfl⟩ := Prod.mk.inj heq
          obtain rfl := form.eq_of_name_eq hother hfield hname
          exact hnext (hshown other hother value json hvalue (List.mem_of_getElem? hmember))

theorem entry (hfield : form.fields[place]? = some field) (hitem : items[place]? = some json)
    (hnext : ∀ {written : Json}, Shown field.form written json → Shown field.form written json')
    (hshown : Shown form written (.array items)) :
    Shown form written (.array (items.set place json')) := by
  have hrecord : form.fields ≠ [] := List.ne_nil_of_mem (List.mem_of_getElem? hfield)
  cases hshown with
  | plain => exact absurd rfl hrecord
  | value => exact absurd rfl hrecord
  | list => exact absurd rfl hrecord
  | array hform hnames hlength hitems =>
      refine .array hform hnames (by rw [List.length_set, hlength])
        fun other field' value value' hfield' hvalue hvalue' => ?_
      by_cases hplace : place = other
      · subst hplace
        have hlt := (List.getElem?_eq_some_iff.mp hitem).1
        rw [List.getElem?_set_self hlt, Option.some.injEq] at hvalue'
        rw [hfield, Option.some.injEq] at hfield'
        subst hvalue' hfield'
        exact hnext (hitems place field value json hfield hvalue hitem)
      · rw [List.getElem?_set_ne hplace] at hvalue'
        exact hitems other field' value value' hfield' hvalue hvalue'

theorem item (hitem : items[place]? = some json)
    (hnext : ∀ {written : Json}, Shown form written json → Shown form written json')
    (hshown : Shown (.list form) written (.array items)) :
    Shown (.list form) written (.array (items.set place json')) := by
  cases hshown with
  | array hform => exact absurd rfl hform.1
  | list hlength hitems =>
      refine .list (by rw [List.length_set, hlength]) fun other value value' hvalue hvalue' => ?_
      by_cases hplace : place = other
      · subst hplace
        have hlt := (List.getElem?_eq_some_iff.mp hitem).1
        rw [List.getElem?_set_self hlt, Option.some.injEq] at hvalue'
        subst hvalue'
        exact hnext (hitems place value json hvalue hitem)
      · rw [List.getElem?_set_ne hplace] at hvalue'
        exact hitems other value value' hvalue hvalue'

theorem retag {tag : ValueTag} (htag : json.tag? = some tag)
    (hnext : ∀ {written : Json}, Shown (.tagged tag) written json →
      Shown (.tagged tag) written json')
    (hshown : Shown .value written json) : Shown .value written json' := by
  cases hshown with
  | object hrecord => exact absurd rfl hrecord
  | array hform => exact absurd rfl hform.1
  | value htag' hshown =>
      obtain rfl := hshown.tag_eq htag' htag
      exact .value htag' (hnext hshown)

end Step

/-- A rewriting shows what was shown before. -/
theorem rewrites (hrewrites : Rewrites form json json') :
    ∀ {written : Json}, Shown form written json → Shown form written json' := by
  induction hrewrites with
  | reorder hrecord hperm => exact reorder hrecord hperm
  | add extra hrecord hname => exact add hrecord hname extra
  | drop _ _ hfield hdefault => exact drop hfield hdefault
  | enlist hform hnames => exact enlist hform hnames
  | member _ hfield hmember _ ih => exact member hfield hmember ih
  | entry _ hfield hitem _ ih => exact entry hfield hitem ih
  | item _ hitem _ ih => exact item hitem ih
  | value htag _ ih => exact retag htag ih

/-- However often it is rewritten, what is written is shown. -/
theorem rewritten (hrewritten : Relation.ReflTransGen (Rewrites form) json json')
    (hshown : Shown form written json) : Shown form written json' := by
  induction hrewritten with
  | refl => exact hshown
  | tail _ hrewrites ih => exact rewrites hrewrites ih

end Shown

/-! ## What is written shows itself -/

namespace Shown

variable {form : Form}

theorem listOf {items : List Json} (hitems : ∀ item ∈ items, Shown form item item) :
    Shown (.list form) (.array items) (.array items) := by
  refine .list rfl fun place json json' hjson hjson' => ?_
  obtain rfl := Option.some.inj (hjson.symm.trans hjson')
  exact hitems json (List.mem_of_getElem? hjson)

/-- A record shows itself when each of its fields does. -/
theorem record {members : List (String × Json)} (hrecord : form.fields ≠ [])
    (hnames : members.map Prod.fst = form.names)
    (hfields : ∀ field ∈ form.fields, ∀ json, (field.name, json) ∈ members →
      Shown field.form json json) : Shown form (.object members) (.object members) := by
  have hnodup := hnames ▸ form.names_nodup
  refine .object hrecord hnames (fun field hfield json hjson => .inl ?_)
    (fun field hfield json json' hjson hjson' => ?_)
  · exact List.count_eq_one_of_mem hnodup (List.mem_map_of_mem hjson)
  · obtain rfl : json = json' :=
      congrArg Prod.snd (List.inj_on_of_nodup_map hnodup hjson hjson' rfl)
    exact hfields field hfield json hjson

end Shown

end OpGraph
