import Mathlib
import BlockFlow.Graph.Document
import BlockFlow.Proofs.Canonicalization
import BlockFlow.Proofs.Json.Order

/-! Collections of graphs compare as multisets: by the texts of the canonical forms of their
members, each counted as often as it occurs. -/

namespace BlockFlow

/-- The text that a canonical form is compared by. -/
def Graph.text (form : Graph) : String := form.toJson.stableText

/-- The text that a collection of canonical forms is compared by. -/
def Graph.collectionText (forms : List Graph) : String :=
  (GraphDocument.collection forms).toJson.stableText

/-- The text of a collection tells the texts of its members. -/
theorem Graph.collectionText_inj {xs ys : List Graph} :
    Graph.collectionText xs = Graph.collectionText ys ↔ xs.map Graph.text = ys.map Graph.text := by
  unfold Graph.collectionText GraphDocument.toJson
  rw [Json.stableText_arr_inj, List.map_map, List.map_map]
  rfl

/-- Once sorted, collections have one text exactly if their members have the same texts, in
whatever order. -/
theorem collectionText_sort_eq_iff {xs ys : List Graph} :
    Graph.collectionText (sortByText Graph.toJson xs) =
        Graph.collectionText (sortByText Graph.toJson ys) ↔
      (xs.map Graph.text).Perm (ys.map Graph.text) := by
  rw [Graph.collectionText_inj]
  constructor
  · intro h
    have hx := (sortByText_perm Graph.toJson xs).map Graph.text
    have hy := (sortByText_perm Graph.toJson ys).map Graph.text
    exact hx.symm.trans (h ▸ hy)
  · exact sortByText_texts_eq Graph.toJson

theorem Json.CanonicalizesTo.unique {strict : Bool} {d : Json} {form form' : Graph}
    (h : d.CanonicalizesTo strict form) (h' : d.CanonicalizesTo strict form') : form = form' := by
  obtain ⟨g, hread, hform⟩ := h
  obtain ⟨g', hread', hform'⟩ := h'
  obtain rfl : g = g' := Except.ok.inj (hread.symm.trans hread')
  exact Except.ok.inj (hform.symm.trans hform')

/-- Documents in another order have the same forms in another order. -/
theorem forms_perm {strict : Bool} {xs ys : List Json} {forms forms' : List Graph}
    (hx : List.Forall₂ (Json.CanonicalizesTo strict) xs forms)
    (hy : List.Forall₂ (Json.CanonicalizesTo strict) ys forms') (h : xs.Perm ys) :
    forms.Perm forms' := by
  obtain ⟨turned, hturned, hperm⟩ := List.perm_comp_forall₂ h hy
  have heq : forms = turned := by
    refine List.right_unique_forall₂' ?_ hx hturned
    intro d form form' hd hd'
    exact hd.unique hd'
  exact heq ▸ hperm

/-- What a collection of documents is made into, in any workspace, read one by one or all at first:
the canonical forms that the members have alone, in some order. -/
structure CollectionOf (documents : List Json) (forms made : List Graph) : Prop where
  returns : ∀ w, (Work.canonicalizeForms (some false) documents).Returns w made
  outcome : ∀ graphs, documents.mapM Graph.ofJson = .ok graphs →
    (canonicalList false graphs).outcome = .ok made
  members : made.Perm forms

/-- Collections of documents that have canonical forms are made into collections of one text exactly
if the texts of the forms that the members have alone are the same multiset. So the order of the
documents does not count. -/
theorem collections_compare_as_multisets {left right : List Json}
    {leftForms rightForms : List Graph}
    (hl : List.Forall₂ (Json.CanonicalizesTo false) left leftForms)
    (hr : List.Forall₂ (Json.CanonicalizesTo false) right rightForms) :
    ∃ madeLeft madeRight, CollectionOf left leftForms madeLeft ∧
      CollectionOf right rightForms madeRight ∧
      (Graph.collectionText madeLeft = Graph.collectionText madeRight ↔
        (leftForms.map Graph.text : Multiset String) = rightForms.map Graph.text) ∧
      (left.Perm right → Graph.collectionText madeLeft = Graph.collectionText madeRight) := by
  have hcollection {documents : List Json} {forms : List Graph}
      (h : List.Forall₂ (Json.CanonicalizesTo false) documents forms) :
      CollectionOf documents forms (sortByText Graph.toJson forms) :=
    ⟨fun w => Work.canonicalizeForms_returns w h, fun _ => canonicalList_of_documents h,
      sortByText_perm Graph.toJson forms⟩
  refine ⟨_, _, hcollection hl, hcollection hr, ?_, ?_⟩
  · rw [collectionText_sort_eq_iff, Multiset.coe_eq_coe]
  · intro h
    exact collectionText_sort_eq_iff.mpr ((forms_perm hl hr h).map Graph.text)

/-- A block with the id `x`, and a jump to it. -/
def jumpDocument (type : String) : Json :=
  .arr [.obj [("id", .str "x"), ("type", .str type)],
    .obj [("type", .str "jump_to_block"),
      ("args", .arr [.obj [("type", .str "constant"), ("value", .str "x")]])]]

def jumpingForm (type : String) : Graph :=
  [.mk .null type (.list []) [],
    .mk .null "jump_to_block" (.list [.constant ("@" ++ type)]) []]

theorem jumpDocuments_compare :
    (∃ made made',
      CollectionOf (["control_wait", "op_log_value", "control_wait"].map jumpDocument)
        (["control_wait", "op_log_value", "control_wait"].map jumpingForm) made ∧
      CollectionOf (["op_log_value", "control_wait", "control_wait"].map jumpDocument)
        (["op_log_value", "control_wait", "control_wait"].map jumpingForm) made' ∧
      Graph.collectionText made = Graph.collectionText made') ∧
    ∃ made made',
      CollectionOf (["control_wait", "op_log_value"].map jumpDocument)
        (["control_wait", "op_log_value"].map jumpingForm) made ∧
      CollectionOf (["control_wait", "op_log_value", "control_wait"].map jumpDocument)
        (["control_wait", "op_log_value", "control_wait"].map jumpingForm) made' ∧
      Graph.collectionText made ≠ Graph.collectionText made' := by
  have hwait : (jumpDocument "control_wait").CanonicalizesTo false (jumpingForm "control_wait") :=
    ⟨_, rfl, rfl⟩
  have hlog : (jumpDocument "op_log_value").CanonicalizesTo false (jumpingForm "op_log_value") :=
    ⟨_, rfl, rfl⟩
  have hpair : List.Forall₂ (Json.CanonicalizesTo false)
      (["control_wait", "op_log_value"].map jumpDocument)
      (["control_wait", "op_log_value"].map jumpingForm) := .cons hwait (.cons hlog .nil)
  have htriple : List.Forall₂ (Json.CanonicalizesTo false)
      (["control_wait", "op_log_value", "control_wait"].map jumpDocument)
      (["control_wait", "op_log_value", "control_wait"].map jumpingForm) :=
    .cons hwait (.cons hlog (.cons hwait .nil))
  constructor
  · obtain ⟨made, made', h, h', -, hturned⟩ := collections_compare_as_multisets htriple
      (.cons hlog (.cons hwait (.cons hwait .nil)))
    exact ⟨made, made', h, h', hturned (.swap _ _ _)⟩
  · obtain ⟨made, made', h, h', hiff, -⟩ := collections_compare_as_multisets hpair htriple
    refine ⟨made, made', h, h', ?_⟩
    intro htext
    have hcard := congrArg Multiset.card (hiff.mp htext)
    simp at hcard

end BlockFlow
