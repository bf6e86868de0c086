import OpGraph.Proofs.Descent.Confirmation
import OpGraph.Proofs.Matching.Renaming

/-!
Functions that are found equivalent are the same up to names and order, if they leave out the same
values. A comparison looks at the outputs of a node only where they are used; so it takes a node for
another one that has more or fewer outputs, as long as nobody uses those.
-/

namespace OpGraph

open CompareM

section Signatures

variable {lefts rights : List OpsetImport}

/-- Where each domain is imported once, the same imports are those of the same domains under the
same versions. -/
theorem perm_of_sameImports (hlefts : (lefts.map OpsetImport.domain).Nodup)
    (hrights : (rights.map OpsetImport.domain).Nodup) (hsame : sameImports lefts rights = true) :
    lefts.Perm rights := by
  rw [sameImports, List.all_eq_true] at hsame
  refine (List.perm_ext_iff_of_nodup hlefts.of_map hrights.of_map).mpr fun opset => ?_
  have hversion : opset ∈ lefts ++ rights → (opset ∈ lefts ↔ opset ∈ rights) := by
    intro hmem
    have heq : importedVersion? lefts opset.domain = importedVersion? rights opset.domain := by
      simpa using hsame opset hmem
    rw [← importedVersion?_eq_some_iff hlefts, ← importedVersion?_eq_some_iff hrights, heq]
  exact ⟨fun hmem => (hversion (List.mem_append_left _ hmem)).mp hmem,
    fun hmem => (hversion (List.mem_append_right _ hmem)).mpr hmem⟩

end Signatures

section Functions

variable {options : CompareOptions} {left right : Function} {pairing : Pairing}

/-- Functions that are found equivalent have the same signature, and the pairs take part of all
their nodes one to one. -/
theorem Function.bijection_of_compare
    (hcompare : left.compare options right = .ok (.equivalent pairing)) :
    signatureDifference? left right = none ∧
      NodeBijection pairing.partner? left.nodes.length right.nodes.length := by
  have hsignature : signatureDifference? left right = none :=
    (@Operands.outputs_of_compare _ (.functions left right) _ hcompare).1
  have hcover := @Operands.cover_of_compare _ (.functions left right) _ rfl hcompare
  obtain ⟨_, _, _, hnodes⟩ := signatureDifference?_eq_none_iff.mp hsignature
  exact ⟨hsignature, (Pairing.bijection_iff_of_cover hcover).mpr hnodes⟩

/-- A function without nested graphs is another name and order of one that it is equivalent to,
exactly if both leave out the same inputs, and the nodes that are paired leave out the same outputs.
-/
theorem Function.renamedBy_iff_of_compare (hleft : left.checkWellFormed = .ok ())
    (hright : right.checkWellFormed = .ok ()) (hacyclic : left.body.AcyclicScopes)
    (hplain : ∀ node ∈ left.nodes, ∀ graph, ¬ node.Carries graph)
    (hcompare : left.compare options right = .ok (.equivalent pairing)) :
    (∃ names, left.RenamedBy right names pairing.partner?) ↔
      left.body.SameOmissions right.body pairing.partner? := by
  constructor
  · rintro ⟨names, hrenamed⟩
    exact hrenamed.body.sameOmissions
  · intro homitted
    have hdistinct := Function.distinct_of_checkWellFormed hleft
    have hdistinct' := Function.distinct_of_checkWellFormed hright
    obtain ⟨hsignature, hbijection⟩ :=
      Function.bijection_of_compare hcompare
    obtain ⟨_, hparameters, himports, _⟩ := signatureDifference?_eq_none_iff.mp hsignature
    have hagree := (@Operands.agreement_of_compare _ _ (.functions left right) ⟨hleft, hright⟩
      hacyclic hcompare).bodies.bodiesAgree
    refine ⟨left.body.newName right.body pairing.partner?, ?_, ?_, ?_⟩
    · exact Body.renamedBy_of_bodiesAgree (hdistinct.names _ .root) (hdistinct'.names _ .root)
        (hdistinct.attributes _ .root) (hdistinct'.attributes _ .root) hplain hbijection hagree
        homitted
    · exact sameNames_eq_true_iff.mp hparameters
    · exact perm_of_sameImports (Function.checkWellFormed_eq_ok_iff.mp hleft).1
        (Function.checkWellFormed_eq_ok_iff.mp hright).1 himports

/-- The sum of the two parts of a value. -/
def Function.parts : Function where
  inputs := ["x"]
  outputs := ["y"]
  nodes := [
    { opType := "Split", inputs := ["x"], outputs := ["a", "b"] },
    { opType := "Add", inputs := ["a", "b"], outputs := ["y"] }]

/-- The same with other names, and with the nodes in another order. -/
def Function.renamedParts : Function where
  inputs := ["v"]
  outputs := ["w"]
  nodes := [
    { opType := "Add", inputs := ["s", "t"], outputs := ["w"] },
    { opType := "Split", inputs := ["v"], outputs := ["s", "t"] }]

theorem Function.renamedBy_parts : ∃ pairing : Pairing,
    Function.parts.compare {} Function.renamedParts = .ok (.equivalent pairing) ∧
      pairing.partner? 0 = some 1 ∧ pairing.partner? 1 = some 0 ∧
      ∃ names, Function.parts.RenamedBy Function.renamedParts names pairing.partner? := by
  have hcompare : Function.parts.compare {} Function.renamedParts =
      .ok (.equivalent ⟨[(1, 0), (0, 1)], by decide⟩) := rfl
  refine ⟨_, hcompare, rfl, rfl, (Function.renamedBy_iff_of_compare rfl rfl
    (Body.acyclicScopes_of_inOrder rfl) ?_ hcompare).mpr ⟨rfl, ?_⟩⟩
  · rintro node hnode graph ⟨attr, hattr, _⟩
    have hnone : ∀ node ∈ Function.parts.nodes, node.attributes = [] := by
      simp [Function.parts]
    rw [hnone node hnode] at hattr
    cases hattr
  · intro index index' node node' hpartner hnode hnode'
    have hindex : index < 2 := (List.getElem?_eq_some_iff.mp hnode).1
    rcases (by omega : index = 0 ∨ index = 1) with rfl | rfl
    · cases hpartner
      cases hnode
      cases hnode'
      rfl
    · cases hpartner
      cases hnode
      cases hnode'
      rfl

/-- The first part of a value. -/
def Function.firstPart : Function where
  inputs := ["x"]
  outputs := ["a"]
  nodes := [{ opType := "Split", inputs := ["x"], outputs := ["a", "b"] }]

/-- The only part of a value. -/
def Function.onlyPart : Function where
  inputs := ["x"]
  outputs := ["a"]
  nodes := [{ opType := "Split", inputs := ["x"], outputs := ["a"] }]

/-- Two operations of which one has more outputs are held for the same. -/
theorem Function.compare_firstPart_onlyPart :
    Function.firstPart.checkWellFormed = .ok () ∧ Function.onlyPart.checkWellFormed = .ok () ∧
      Function.firstPart.body.AcyclicScopes ∧ Function.onlyPart.body.AcyclicScopes ∧
      (∀ node ∈ Function.firstPart.nodes ++ Function.onlyPart.nodes, node.attributes = []) ∧
      ∃ pairing : Pairing,
        Function.firstPart.compare {} Function.onlyPart = .ok (.equivalent pairing) ∧
          ¬ ∃ names, Function.firstPart.RenamedBy Function.onlyPart names pairing.partner? := by
  refine ⟨rfl, rfl, Body.acyclicScopes_of_inOrder rfl, Body.acyclicScopes_of_inOrder rfl,
    by simp [Function.firstPart, Function.onlyPart], ⟨[(0, 0)], by decide⟩, rfl, ?_⟩
  rintro ⟨names, hrenamed⟩
  have houtputs := hrenamed.body.sameOmissions.outputs 0 0 _ _ rfl rfl rfl
  exact absurd (congrArg List.length houtputs) (by decide)

end Functions

end OpGraph
