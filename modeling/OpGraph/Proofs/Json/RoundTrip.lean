import OpGraph.Proofs.Json.Presentations

/-!
# Graphs and functions are read back from their text

Writing never fails, but reading does: a number that is not finite is written as null, which is no
number, and a text may have only so many levels. These are the only reasons. Every level of a written
value is entered when it is read, and every single in it is asked for, so a decoder takes the text
only if the value is finite and not nested too deeply; and then it gives the value back.
-/

namespace OpGraph

/-- A graph or a function is read back from its text, whole and as it was. -/
theorem ofText_toText :
    (∀ graph : Graph, graph.body.SinglesFinite → graph.toJson.height ≤ nestingLimit →
      Graph.ofText graph.toText = .ok graph) ∧
    ∀ function : Function, function.body.SinglesFinite →
      function.toJson.height ≤ nestingLimit → Function.ofText function.toText = .ok function :=
  ⟨fun graph => Decoder.Reads.ofText_pretty fun _ => Decoder.graph_reads graph,
    fun function => Decoder.Reads.ofText_pretty fun _ => Decoder.function_reads function⟩

/-- The single nearest to one tenth. -/
def Binary32.tenth : Binary32 := .ranked false 1036831949

theorem Binary32.tenth_isFinite : Binary32.tenth.isFinite = true := by decide

/-- A node with a single, a reference and a word beyond the Latin letters. -/
def Node.elu : Node where
  name := "ψ"
  opType := "Elu"
  inputs := ["x"]
  outputs := ["y"]
  attributes := [⟨"alpha", .float .tenth⟩, ⟨"axes", .reference "axes" .ints⟩]

/-- The node in a branch. -/
def Graph.eluBranch : Graph where
  inputs := ["c", "x"]
  outputs := ["z"]
  nodes := [{
    opType := "If", inputs := ["c"], outputs := ["z"],
    attributes := [⟨"then_branch", .graph { outputs := ["y"], nodes := [.elu] }⟩] }]

def Function.elu : Function where
  name := "elu"
  inputs := ["x"]
  outputs := ["y"]
  nodes := [.elu]
  parameters := ["axes"]

theorem ofText_toText_elu : Graph.eluBranch.body.SinglesFinite ∧
    Graph.eluBranch.toJson.height ≤ nestingLimit ∧ Function.elu.body.SinglesFinite ∧
    Function.elu.toJson.height ≤ nestingLimit ∧
    Graph.ofText Graph.eluBranch.toText = .ok .eluBranch ∧
    Function.ofText Function.elu.toText = .ok .elu := by
  have hbranch : Graph.eluBranch.body.SinglesFinite := by
    refine Body.singlesFinite_of_scopes ?_
    change ∀ scope ∈ [Graph.eluBranch.body, ⟨[.elu], [], ["y"]⟩], _
    simp [Graph.eluBranch, Graph.body, Node.elu, AttributeValue.singles, Binary32.tenth_isFinite]
  have helu : Function.elu.body.SinglesFinite := by
    refine Body.singlesFinite_of_scopes ?_
    change ∀ scope ∈ [Function.elu.body], _
    simp [Function.elu, Function.body, Node.elu, AttributeValue.singles, Binary32.tenth_isFinite]
  exact ⟨hbranch, by decide, helu, by decide, ofText_toText.1 _ hbranch (by decide),
    ofText_toText.2 _ helu (by decide)⟩

/-- What is written of a value can be loaded exactly if what is given holds, and it is not nested too
deeply, where what is given follows from what is written. -/
theorem Decoder.Reads.loads_iff {α : Type} {decode : Decoder α} {given : Prop} {form : Form}
    {written : Json} {value : α} (hreads : ∀ limit, decode.Reads given limit form written value)
    (hfinite : written.Finite → given) :
    (∃ loaded, decode.ofText written.pretty = .ok loaded) ↔
      given ∧ written.height ≤ nestingLimit := by
  constructor
  · rintro ⟨loaded, hloaded⟩
    have hadmits := (hreads _).admits (Nat.lt_succ_self written.height)
    obtain ⟨hwritten, hheight⟩ := hadmits.ofText hloaded
    exact ⟨hfinite hwritten, hheight⟩
  · rintro ⟨hgiven, hheight⟩
    exact ⟨value, Reads.ofText_pretty hreads hgiven hheight⟩

/-- What is written can be loaded exactly if each single in it is finite and the text has no more
levels than a text may have. -/
theorem loads_toText_iff (graph : Graph) (function : Function) :
    ((∃ loaded, Graph.ofText graph.toText = .ok loaded) ↔
      graph.body.SinglesFinite ∧ graph.toJson.height ≤ nestingLimit) ∧
    ((∃ loaded, Function.ofText function.toText = .ok loaded) ↔
      function.body.SinglesFinite ∧ function.toJson.height ≤ nestingLimit) :=
  ⟨Decoder.Reads.loads_iff (fun _ => Decoder.graph_reads graph) graph.singlesFinite,
    Decoder.Reads.loads_iff (fun _ => Decoder.function_reads function) function.singlesFinite⟩

/-- A node with a single that is no number. -/
def Graph.withNan : Graph where
  outputs := ["y"]
  nodes := [{
    opType := "Constant", outputs := ["y"], attributes := [⟨"value_float", .float .nan⟩] }]

/-- Branches in branches, so many levels down. -/
def Graph.branches : Nat → Graph
  | 0 => {}
  | levels + 1 => {
      nodes := [{
        opType := "If", attributes := [⟨"then_branch", .graph (branches levels)⟩] }] }

/-- Each level of nested graphs takes six levels of the text. -/
theorem Graph.height_branches (levels : Nat) :
    (branches levels).toJson.height = 6 * levels + 2 := by
  induction levels with
  | zero => rfl
  | succ levels ih =>
      rw [Json.height] at ih
      simp only [branches, toJson, nodesJson, Node.toJson, attributesJson, Attribute.toJson,
        AttributeValue.toJson, taggedJson, Json.strings, List.map_nil, Json.height, Json.reading,
        Json.reading.itemReadings, Json.reading.memberReadings, Reading.height,
        Reading.height.itemsHeight, Reading.height.membersHeight, ih]
      omega

theorem Graph.admits (graph : Graph) : Decoder.graph.Admits graph.toJson :=
  (Decoder.graph_reads graph).admits (Nat.lt_succ_self _)

theorem toText_not_loaded :
    Graph.ofText Graph.withNan.toText = .error (.data (.invalidType .null "f32")) ∧
    ¬ ∃ loaded, Graph.ofText (Graph.branches 21).toText = .ok loaded := by
  constructor
  · rw [Graph.ofText, Graph.toText, Decoder.ofText,
      Graph.withNan.admits.readable.ofText_pretty]
    rfl
  · rintro ⟨loaded, hloaded⟩
    obtain ⟨_, hheight⟩ := (Graph.branches 21).admits.ofText hloaded
    rw [Graph.height_branches] at hheight
    exact absurd hheight (by decide)

end OpGraph
