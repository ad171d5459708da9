import Mathlib
import BlockFlow.Proofs.Canonical.Completeness
import BlockFlow.Proofs.Canonical.UnlinkedForms
import BlockFlow.Proofs.Graph.Order
import BlockFlow.Proofs.Json.Faithful

/-! Graphs of one canonical text come from trees that differ only in ways that carry no meaning. -/

namespace BlockFlow

open Canonicalizing Linking

/-- How the arguments of an operation are given. -/
def ArgsKind.ofType (type : String) : ArgsKind :=
  if type = Operation.waitForMonitor.tag then .monitor
  else if type = Operation.callService.tag then .call
  else .list

/-- The type of a block tells how its arguments are given. -/
def Block.Kinded (b : Block) : Prop := b.args.kind = .ofType b.type

theorem Block.Lowered.kinded {b : Block} (h : b.Lowered) : b.Kinded := by
  have hs := h.shape
  unfold Block.Kinded
  generalize b.contents = contents at hs
  generalize b.args = args at hs ⊢
  generalize b.type = type at hs ⊢
  cases hs with
  | plain hp args =>
    have hm : type ≠ Operation.waitForMonitor.tag := fun he => hp.1 (he ▸ Operation.ofTag?_tag _)
    have hc : type ≠ Operation.callService.tag := fun he => hp.2.1 (he ▸ Operation.ofTag?_tag _)
    simp [ArgsKind.ofType, hm, hc, Args.kind]
  | _ => rfl

/-! ### JSON forms with their keys in order -/

namespace Json

theorem sorted_toJson_block (id : Json) (type : String) (args : Args) (contents : List Content) :
    (Block.mk id type args contents).toJson.sorted =
      .obj (("args", args.toJson.sorted) ::
        ("contents", .arr (contents.map fun c => c.toJson.sorted)) ::
          ((idFields id).map sortedField ++ [("type", .str type)])) := by
  have hid : idFields id = [] ∨ idFields id = [("id", id)] := by
    cases id <;> simp [idFields]
  rw [Block.toJson, sorted_obj, Content.listToJson_eq]
  rcases hid with h | h <;>
    simp [h, sortFields, List.mergeSort, List.MergeSort.Internal.splitInTwo, sortedField,
      sorted_arr, sorted_str]

theorem sorted_toJson_group (contents : List Content) :
    (Content.group contents).toJson.sorted =
      .obj [("contents", .arr (contents.map fun c => c.toJson.sorted))] := by
  rw [Content.toJson, sorted_obj, Content.listToJson_eq]
  simp [sortFields, sortedField, sorted_arr]

theorem sorted_toJson_constant (value : String) :
    (Arg.constant value).toJson.sorted =
      .obj [("type", .str "constant"), ("value", .str value)] := by
  rw [Arg.toJson, sorted_obj]
  simp [sortFields, List.mergeSort, List.MergeSort.Internal.splitInTwo, sortedField, sorted_str]

theorem sorted_toJson_nested (value : List Block) :
    (Arg.block value).toJson.sorted =
      .obj [("type", .str "block"), ("value", .arr (value.map fun b => b.toJson.sorted))] := by
  rw [Arg.toJson, sorted_obj, Block.listToJson_eq]
  simp [sortFields, List.mergeSort, List.MergeSort.Internal.splitInTwo, sortedField, sorted_arr,
    sorted_str]

theorem sorted_toJson_call (serviceId serviceAction : Json) (values : List Arg) :
    (Args.call serviceId serviceAction values).toJson.sorted =
      .obj [("service_action", serviceAction.sorted),
        ("service_call_values", .arr (values.map fun a => a.toJson.sorted)),
        ("service_id", serviceId.sorted)] := by
  rw [Args.toJson, sorted_obj, Arg.listToJson_eq]
  simp [sortFields, List.mergeSort, List.MergeSort.Internal.splitInTwo, sortedField, sorted_arr]

end Json

/-- The ordered JSON form of a block tells its type, and the forms of its parts. -/
theorem sorted_toJson_inj {id id' : Json} {type type' : String} {args args' : Args}
    {contents contents' : List Content}
    (h : (Block.mk id type args contents).toJson.sorted =
      (Block.mk id' type' args' contents').toJson.sorted) :
    type = type' ∧ args.toJson.sorted = args'.toJson.sorted ∧
      contents.map (fun c => c.toJson.sorted) = contents'.map fun c => c.toJson.sorted := by
  rw [Json.sorted_toJson_block, Json.sorted_toJson_block] at h
  simp only [Json.obj.injEq, List.cons.injEq, Prod.mk.injEq, Json.arr.injEq, true_and] at h
  obtain ⟨ha, hc, ht⟩ := h
  have hlast := (List.append_inj' ht rfl).2
  simp only [List.cons.injEq, Prod.mk.injEq, Json.str.injEq, and_true, true_and] at hlast
  exact ⟨hlast, ha, hc⟩

theorem not_sorted_block_group {b : Block} {contents : List Content}
    (h : (Content.block b).toJson.sorted = (Content.group contents).toJson.sorted) : False := by
  obtain ⟨id, type, args, inside⟩ := b
  rw [Content.toJson, Json.sorted_toJson_block, Json.sorted_toJson_group] at h
  simp at h

theorem isFork_of_sorted {b b' : Block} (h : b.toJson.sorted = b'.toJson.sorted) :
    b.isFork = b'.isFork := by
  obtain ⟨id, type, args, contents⟩ := b
  obtain ⟨id', type', args', contents'⟩ := b'
  obtain ⟨rfl, _⟩ := sorted_toJson_inj h
  rfl

theorem kind_unlinked (args : Args) : args.unlinked.kind = args.kind := by
  cases args <;> rfl

open Json (SameData)

mutual

/-- Blocks of one ordered JSON form are similar, once what linking adds is taken back. -/
theorem Block.unlinked_similar : ∀ (b b' : Block), (∀ x ∈ b.unlinked.blocks, x.Kinded) →
    (∀ x ∈ b'.unlinked.blocks, x.Kinded) → b.toJson.sorted = b'.toJson.sorted →
      Content.Similar SameData (.block b.unlinked) (.block b'.unlinked)
  | .mk id type args contents, .mk id' type' args' contents', hk, hk', h => by
    obtain ⟨rfl, ha, hc⟩ := sorted_toJson_inj h
    obtain ⟨hb, hka, hkc⟩ := Block.forall_blocks.mp hk
    obtain ⟨hb', hka', hkc'⟩ := Block.forall_blocks.mp hk'
    have hkind : args.kind = args'.kind := by
      rw [← kind_unlinked args, ← kind_unlinked args']
      exact hb.trans hb'.symm
    have hargs := Args.unlinked_similar args args' hka hka' hkind ha
    by_cases hf : type = Operation.forkExecution.tag
    · rw [if_pos hf] at hkc hkc'
      simp only [Block.unlinked, if_pos hf]
      exact (hargs _ _ _).trans
        (.contents (Content.unlinkedPaths_similar contents contents' hkc hkc' hc) _ _ _)
    · rw [if_neg hf] at hkc hkc'
      simp only [Block.unlinked, if_neg hf]
      exact (hargs _ _ _).trans
        (.contents (Content.unlinkedSequence_similar contents contents' _ _ hkc hkc' hc) _ _ _)

theorem Args.unlinked_similar : ∀ (args args' : Args), (∀ x ∈ args.unlinked.blocks, x.Kinded) →
    (∀ x ∈ args'.unlinked.blocks, x.Kinded) → args.kind = args'.kind →
      args.toJson.sorted = args'.toJson.sorted →
        ∀ (id : Json) (type : String) (contents : List Content),
          Content.Similar SameData (.block (.mk id type args.unlinked contents))
            (.block (.mk id type args'.unlinked contents))
  | .list args, .list args', hk, hk', _, h, id, type, contents => by
    simp only [Args.toJson, Json.sorted_arr, Arg.listToJson_eq, List.map_map, Json.arr.injEq] at h
    exact .arguments (Arg.unlinkedList_similar args args' hk hk' h) id type contents
  | .monitor fields, .monitor fields', _, _, _, h, id, type, contents =>
    .of_change (.descriptor (Json.sameData_of_sorted h))
  | .call serviceId serviceAction values, .call serviceId' serviceAction' values', hk, hk', _, h,
      id, type, contents => by
    rw [Json.sorted_toJson_call, Json.sorted_toJson_call] at h
    simp only [Json.obj.injEq, List.cons.injEq, Prod.mk.injEq, Json.arr.injEq, true_and,
      and_true] at h
    obtain ⟨ha, hv, hi⟩ := h
    have hvalues := Arg.unlinkedList_similar values values' hk hk' hv
    exact (Content.Similar.callValues hvalues _ _ _ _ _).trans
      (.of_change (.service (Json.sameData_of_sorted hi) (Json.sameData_of_sorted ha)))
  | .list _, .monitor _, _, _, hn, _, _, _, _ => by cases hn
  | .list _, .call _ _ _, _, _, hn, _, _, _, _ => by cases hn
  | .monitor _, .list _, _, _, hn, _, _, _, _ => by cases hn
  | .monitor _, .call _ _ _, _, _, hn, _, _, _, _ => by cases hn
  | .call _ _ _, .list _, _, _, hn, _, _, _, _ => by cases hn
  | .call _ _ _, .monitor _, _, _, hn, _, _, _, _ => by cases hn

theorem Arg.unlinkedList_similar : ∀ (as bs : List Arg),
    (∀ x ∈ Arg.listBlocks (Arg.unlinkedList as), x.Kinded) →
      (∀ x ∈ Arg.listBlocks (Arg.unlinkedList bs), x.Kinded) →
        as.map (fun a => a.toJson.sorted) = bs.map (fun a => a.toJson.sorted) →
          List.Forall₂ (Arg.Similar SameData) (Arg.unlinkedList as) (Arg.unlinkedList bs)
  | [], [], _, _, _ => .nil
  | [], _ :: _, _, _, h => by cases h
  | _ :: _, [], _, _, h => by cases h
  | .constant value :: rest, .constant value' :: rest', hk, hk', h => by
    simp only [List.map_cons, Json.sorted_toJson_constant, List.cons.injEq] at h
    obtain ⟨hv, hr⟩ := h
    cases hv
    exact .cons (.constant _) (Arg.unlinkedList_similar rest rest' hk hk' hr)
  | .block value :: rest, .block value' :: rest', hk, hk', h => by
    simp only [Arg.unlinkedList, Arg.listBlocks, List.mem_append, or_imp, forall_and] at hk hk'
    simp only [List.map_cons, Json.sorted_toJson_nested, List.cons.injEq, Json.obj.injEq,
      Prod.mk.injEq, Json.arr.injEq, true_and, and_true] at h
    exact .cons (.block (Block.unlinkedSequence_similar value value' false hk.1 hk'.1 h.1))
      (Arg.unlinkedList_similar rest rest' hk.2 hk'.2 h.2)
  | .constant value :: _, .block value' :: _, _, _, h => by
    simp [Json.sorted_toJson_constant, Json.sorted_toJson_nested] at h
  | .block value :: _, .constant value' :: _, _, _, h => by
    simp [Json.sorted_toJson_constant, Json.sorted_toJson_nested] at h

theorem Content.unlinkedPaths_similar : ∀ (cs ds : List Content),
    (∀ x ∈ Content.listBlocks (Content.unlinkedPaths cs), x.Kinded) →
      (∀ x ∈ Content.listBlocks (Content.unlinkedPaths ds), x.Kinded) →
        cs.map (fun c => c.toJson.sorted) = ds.map (fun c => c.toJson.sorted) →
          List.Forall₂ (Content.Similar SameData) (Content.unlinkedPaths cs)
            (Content.unlinkedPaths ds)
  | [], [], _, _, _ => .nil
  | [], _ :: _, _, _, h => by cases h
  | _ :: _, [], _, _, h => by cases h
  | .block b :: rest, .block b' :: rest', hk, hk', h => by
    simp only [Content.unlinkedPaths, Content.listBlocks, List.mem_append, or_imp,
      forall_and] at hk hk'
    obtain ⟨hb, hr⟩ := List.cons.inj h
    exact .cons (Block.unlinked_similar b b' hk.1 hk'.1 hb)
      (Content.unlinkedPaths_similar rest rest' hk.2 hk'.2 hr)
  | .group cs :: rest, .group ds :: rest', hk, hk', h => by
    simp only [Content.unlinkedPaths, Content.listBlocks, List.mem_append, or_imp,
      forall_and] at hk hk'
    simp only [List.map_cons, Json.sorted_toJson_group, List.cons.injEq, Json.obj.injEq,
      Prod.mk.injEq, Json.arr.injEq, true_and, and_true] at h
    exact .cons (.members (Content.unlinkedSequence_similar cs ds _ _ hk.1 hk'.1 h.1))
      (Content.unlinkedPaths_similar rest rest' hk.2 hk'.2 h.2)
  | .block b :: _, .group ds :: _, _, _, h => (not_sorted_block_group (List.cons.inj h).1).elim
  | .group cs :: _, .block b' :: _, _, _, h =>
    (not_sorted_block_group (List.cons.inj h).1.symm).elim

theorem Content.unlinkedSequence_similar : ∀ (cs ds : List Content) (isPath behindFork : Bool),
    (∀ x ∈ Content.listBlocks (Content.unlinkedSequence isPath behindFork cs), x.Kinded) →
      (∀ x ∈ Content.listBlocks (Content.unlinkedSequence isPath behindFork ds), x.Kinded) →
        cs.map (fun c => c.toJson.sorted) = ds.map (fun c => c.toJson.sorted) →
          List.Forall₂ (Content.Similar SameData)
            (Content.unlinkedSequence isPath behindFork cs)
            (Content.unlinkedSequence isPath behindFork ds)
  | [], [], _, _, _, _, _ => .nil
  | [], _ :: _, _, _, _, _, h => by cases h
  | _ :: _, [], _, _, _, _, h => by cases h
  | .block b :: rest, .block b' :: rest', isPath, behindFork, hk, hk', h => by
    obtain ⟨hb, hr⟩ := List.cons.inj h
    have hf : b.isFork = b'.isFork := isFork_of_sorted hb
    have he : rest.isEmpty = rest'.isEmpty := by
      have hl := congrArg List.isEmpty hr
      simpa using hl
    simp only [Content.unlinkedSequence, hf, he] at hk hk' ⊢
    split
    · next hd =>
      rw [if_pos hd] at hk hk'
      exact Content.unlinkedSequence_similar rest rest' _ _ hk hk' hr
    · next hd =>
      rw [if_neg hd] at hk hk'
      simp only [Content.listBlocks, List.mem_append, or_imp, forall_and] at hk hk'
      exact .cons (Block.unlinked_similar b b' hk.1 hk'.1 hb)
        (Content.unlinkedSequence_similar rest rest' _ _ hk.2 hk'.2 hr)
  | .group cs :: rest, .group ds :: rest', isPath, behindFork, hk, hk', h => by
    simp only [Content.unlinkedSequence, Content.listBlocks, List.mem_append, or_imp,
      forall_and] at hk hk'
    simp only [List.map_cons, Json.sorted_toJson_group, List.cons.injEq, Json.obj.injEq,
      Prod.mk.injEq, Json.arr.injEq, true_and, and_true] at h
    exact .cons (.members (Content.unlinkedSequence_similar cs ds _ _ hk.1 hk'.1 h.1))
      (Content.unlinkedSequence_similar rest rest' _ _ hk.2 hk'.2 h.2)
  | .block b :: _, .group ds :: _, _, _, _, _, h =>
    (not_sorted_block_group (List.cons.inj h).1).elim
  | .group cs :: _, .block b' :: _, _, _, _, _, h =>
    (not_sorted_block_group (List.cons.inj h).1.symm).elim

theorem Block.unlinkedSequence_similar : ∀ (xs ys : List Block) (behindFork : Bool),
    (∀ x ∈ Block.listBlocks (Block.unlinkedSequence behindFork xs), x.Kinded) →
      (∀ x ∈ Block.listBlocks (Block.unlinkedSequence behindFork ys), x.Kinded) →
        xs.map (fun b => b.toJson.sorted) = ys.map (fun b => b.toJson.sorted) →
          List.Forall₂ (fun x y => Content.Similar SameData (.block x) (.block y))
            (Block.unlinkedSequence behindFork xs) (Block.unlinkedSequence behindFork ys)
  | [], [], _, _, _, _ => .nil
  | [], _ :: _, _, _, _, h => by cases h
  | _ :: _, [], _, _, _, h => by cases h
  | b :: rest, b' :: rest', behindFork, hk, hk', h => by
    obtain ⟨hb, hr⟩ := List.cons.inj h
    have hf : b.isFork = b'.isFork := isFork_of_sorted hb
    simp only [Block.unlinkedSequence, hf] at hk hk' ⊢
    split
    · next hd =>
      rw [if_pos hd] at hk hk'
      exact Block.unlinkedSequence_similar rest rest' _ hk hk' hr
    · next hd =>
      rw [if_neg hd] at hk hk'
      simp only [Block.listBlocks, List.mem_append, or_imp, forall_and] at hk hk'
      exact .cons (Block.unlinked_similar b b' hk.1 hk'.1 hb)
        (Block.unlinkedSequence_similar rest rest' _ hk.2 hk'.2 hr)

end

section

variable {program : Json} {tree g : Graph} {idAt : Nat → String} {n k : Nat}

theorem similar_body {xs ys : List Block}
    (h : List.Forall₂ (fun x y => Content.Similar SameData (.block x) (.block y)) xs ys) :
    Content.Similar SameData (Graph.body xs) (Graph.body ys) := by
  refine .members ?_
  rw [List.forall₂_map_left_iff, List.forall₂_map_right_iff]
  exact h

/-- A linked tree has a canonical form, which differs from it only in ways that carry no meaning
once what linking adds is taken back. -/
theorem canonical_linkGraph_similar (ht : tree.IsTree)
    (hp : ∀ b ∈ tree.blocks, isLinkPrimitive b.type = false)
    (h : (linkGraph idAt tree).Yields n g k) :
    ∃ c, (g.canonical false).outcome = .ok c ∧
      Content.Similar SameData (Graph.body c.unlinked) (Graph.body tree) := by
  obtain ⟨hy, hv⟩ := linkGraph_yields.mp h
  refine ⟨_, canonical_of_verify hv, similar_body ?_⟩
  have hu : Block.unlinkedSequence false g = tree := hy.isUndone ht
  have hs : List.Forall₂ (fun x y => Content.Similar SameData (.block x) (.block y))
      (Block.unlinkedSequence false (Block.forms g.typeAt g)) (Block.unlinkedSequence false g) :=
    Block.unlinkedSequence_forms g false (hu.symm ▸ hp)
  rw [hu] at hs
  exact hs

theorem kinded_of_similar {c : Graph} (ht : tree.IsTree)
    (h : Content.Similar SameData (Graph.body c.unlinked) (Graph.body tree)) :
    ∀ x ∈ c.unlinked.blocks, x.Kinded := by
  have hk := (h.forall_signature_iff fun s => s.2 = .ofType s.1).mpr
  simp only [Graph.body, Content.blocks_group, Content.listBlocks_map_block] at hk
  exact hk fun x hx => (ht x hx).kinded

end

/-- Trees whose linked graphs have one canonical text differ only in ways that carry no meaning.
So the statements of both correspond one by one, with all that has an order in the same order. -/
theorem similar_of_canonical_text_eq {least₁ least₂ : Int} {path₁ path₂ : Path}
    {program₁ program₂ : Json} {tree₁ tree₂ g₁ g₂ : Graph} {ids₁ ids₂ : Nat → String}
    {n₁ n₂ k₁ k₂ : Nat}
    (ht₁ : (lowerProgram least₁ path₁ program₁).outcome = .ok tree₁)
    (ht₂ : (lowerProgram least₂ path₂ program₂).outcome = .ok tree₂)
    (hp₁ : ∀ b ∈ tree₁.blocks, isLinkPrimitive b.type = false)
    (hp₂ : ∀ b ∈ tree₂.blocks, isLinkPrimitive b.type = false)
    (hg₁ : (linkGraph ids₁ tree₁).Yields n₁ g₁ k₁)
    (hg₂ : (linkGraph ids₂ tree₂).Yields n₂ g₂ k₂) :
    ∃ c₁ c₂, (g₁.canonical false).outcome = .ok c₁ ∧ (g₂.canonical false).outcome = .ok c₂ ∧
      ((Graph.toJson c₁).stableText = (Graph.toJson c₂).stableText →
        Content.Similar SameData (Graph.body tree₁) (Graph.body tree₂) ∧
          List.Forall₂ (Block.SameOrder SameData) tree₁ tree₂) := by
  have hl₁ := isTree_of_lowerProgram ht₁
  have hl₂ := isTree_of_lowerProgram ht₂
  obtain ⟨c₁, hc₁, hs₁⟩ := canonical_linkGraph_similar hl₁ hp₁ hg₁
  obtain ⟨c₂, hc₂, hs₂⟩ := canonical_linkGraph_similar hl₂ hp₂ hg₂
  refine ⟨c₁, c₂, hc₁, hc₂, fun htext => ?_⟩
  have hforms := Json.sorted_eq_of_stableText htext
  simp only [Graph.toJson, Json.sorted_arr, Block.listToJson_eq, List.map_map,
    Json.arr.injEq] at hforms
  have hunlinked : Content.Similar SameData (Graph.body c₁.unlinked) (Graph.body c₂.unlinked) :=
    similar_body (Block.unlinkedSequence_similar c₁ c₂ false (kinded_of_similar hl₁ hs₁)
      (kinded_of_similar hl₂ hs₂) hforms)
  have hsimilar := hs₁.symm.trans (hunlinked.trans hs₂)
  exact ⟨hsimilar, Graph.statements_of_similar hsimilar⟩

/-- A program that waits for a monitor with this descriptor. -/
def monitorProgram (descriptor : List (String × Json)) : Json :=
  .arr [.arr [.str "wait_for_monitor", .obj descriptor]]

def monitorGraph (id : Json) (descriptor : List (String × Json)) : Graph :=
  [.mk id "wait_for_monitor" (.monitor descriptor) []]

def placeFirst : List (String × Json) := [("place", .str "hall"), ("limit", .int 3)]

def limitFirst : List (String × Json) := [("limit", .int 3), ("place", .str "hall")]

theorem stableText_placeFirst :
    (Json.obj placeFirst).stableText = (Json.obj limitFirst).stableText := by
  simp [Json.stableText_obj, placeFirst, limitFirst, Json.sortFields, List.mergeSort,
    List.MergeSort.Internal.splitInTwo]

theorem text_monitor (id : Json) (type : String) :
    (Content.block (.mk id type (.monitor placeFirst) [])).text =
      (Content.block (.mk id type (.monitor limitFirst) [])).text :=
  text_block stableText_placeFirst rfl

/-- A fork with a program on each path. -/
def forkProgram (paths : List Json) : Json :=
  .arr [.arr [.str "op_fork_execution", .arr [], .arr paths]]

def conjunctionProgram (left right : String) : Json :=
  .arr [.arr [.str "operator_and", .str left, .str right]]

/-- A fork with a graph on each path. -/
def forkTree (paths : List Graph) : Graph :=
  [.mk .null "op_fork_execution" (.list []) (paths.map Graph.body)]

def conjunctionTree (operands : Args) : Graph := [.mk .null "operator_and" operands []]

def operandPair (left right : String) : Args := .list [.constant left, .constant right]

/-- A conjunction on the first path and a monitor on the second. -/
def watchedFork : Graph :=
  forkTree [conjunctionTree (operandPair "p" "q"), monitorGraph .null placeFirst]

/-- The paths, the operands and the fields of the monitor are the other way round. -/
def reversedWatchedFork : Graph :=
  forkTree [monitorGraph .null limitFirst, conjunctionTree (operandPair "q" "p")]

/-- A path after linking and canonicalization. -/
def pathForm (path : Graph) : Content :=
  .group (path.map .block ++ [.block (jumpForm Operation.triggerWhenAllCompleted.tag)])

/-- A fork after linking and canonicalization. -/
def forkForms (paths : List Content) : Graph :=
  [.mk .null "op_fork_execution" (.list []) (sortByText Content.toJson paths),
    joinForm Operation.triggerWhenAllCompleted.tag]

theorem text_forkForms {paths paths' : List Content}
    (h : (paths.map Content.text).Perm (paths'.map Content.text)) :
    (Graph.toJson (forkForms paths)).stableText = (Graph.toJson (forkForms paths')).stableText := by
  have hsorted : (sortByText Content.toJson paths).map Content.text =
      (sortByText Content.toJson paths').map Content.text := sortByText_texts_eq Content.toJson h
  have hfork (type : String) :
      (Content.block (.mk .null type (.list []) (sortByText Content.toJson paths))).text =
        (Content.block (.mk .null type (.list []) (sortByText Content.toJson paths'))).text :=
    text_block rfl hsorted
  exact text_graph (congrArg (· :: _) (hfork _))

theorem watchedFork_text_eq :
    (Graph.toJson (Block.listLinkedForms watchedFork)).stableText =
      (Graph.toJson (Block.listLinkedForms reversedWatchedFork)).stableText := by
  have hmonitor : (pathForm (monitorGraph .null placeFirst)).text =
      (pathForm (monitorGraph .null limitFirst)).text :=
    text_group (congrArg (· :: _) (text_monitor _ _))
  have hconjunction : (pathForm (conjunctionTree (sortArgs (operandPair "p" "q")))).text =
      (pathForm (conjunctionTree (sortArgs (operandPair "q" "p")))).text := by
    have hsorted : (sortArgs (operandPair "p" "q")).text = (sortArgs (operandPair "q" "p")).text :=
      text_list (sortByText_texts_eq Arg.toJson (List.Perm.swap _ _ _))
    exact text_group (congrArg (· :: _) (text_block hsorted rfl))
  have hforms : Block.listLinkedForms watchedFork =
      forkForms [pathForm (conjunctionTree (sortArgs (operandPair "p" "q"))),
        pathForm (monitorGraph .null placeFirst)] := rfl
  have hreversed : Block.listLinkedForms reversedWatchedFork =
      forkForms [pathForm (monitorGraph .null limitFirst),
        pathForm (conjunctionTree (sortArgs (operandPair "q" "p")))] := rfl
  rw [hforms, hreversed]
  refine text_forkForms ?_
  rw [List.map_cons, List.map_singleton, List.map_cons, List.map_singleton, hmonitor, hconjunction]
  exact List.Perm.swap _ _ _

/-- In the second part the paths of a fork, the operands of a conjunction and the fields of a
monitor change their order at once. -/
theorem monitorGraph_similar :
    ((Graph.toJson (monitorGraph .null placeFirst)).stableText =
        (Graph.toJson (monitorGraph .null limitFirst)).stableText ∧
      Content.Similar SameData (Graph.body (monitorGraph .null placeFirst))
        (Graph.body (monitorGraph .null limitFirst))) ∧
    (Graph.toJson (Block.listLinkedForms watchedFork)).stableText =
        (Graph.toJson (Block.listLinkedForms reversedWatchedFork)).stableText ∧
      Content.Similar SameData (Graph.body watchedFork) (Graph.body reversedWatchedFork) ∧
      List.Forall₂ (Block.SameOrder SameData) watchedFork reversedWatchedFork := by
  refine ⟨?_, watchedFork_text_eq, ?_⟩
  · have htext : (Graph.toJson (monitorGraph .null placeFirst)).stableText =
        (Graph.toJson (monitorGraph .null limitFirst)).stableText :=
      text_graph (congrArg (· :: _) (text_monitor _ _))
    have hlower (d : List (String × Json)) :
        (lowerProgram 1 .top (monitorProgram d)).outcome = .ok (monitorGraph .null d) := rfl
    have hlink₁ : (linkGraph ("b" ++ toString ·) (monitorGraph .null placeFirst)).Yields 0
        (monitorGraph (.str "b0") placeFirst) 1 := rfl
    have hlink₂ : (linkGraph ("x" ++ toString ·) (monitorGraph .null limitFirst)).Yields 0
        (monitorGraph (.str "x0") limitFirst) 1 := rfl
    have hcanonical₁ : ((monitorGraph (.str "b0") placeFirst).canonical false).outcome =
        .ok (monitorGraph .null placeFirst) := rfl
    have hcanonical₂ : ((monitorGraph (.str "x0") limitFirst).canonical false).outcome =
        .ok (monitorGraph .null limitFirst) := rfl
    obtain ⟨c₁, c₂, h₁, h₂, h⟩ := similar_of_canonical_text_eq (hlower placeFirst)
      (hlower limitFirst) (by decide) (by decide) hlink₁ hlink₂
    cases hcanonical₁.symm.trans h₁
    cases hcanonical₂.symm.trans h₂
    exact ⟨htext, (h htext).1⟩
  · have hlower₁ : (lowerProgram 1 .top (forkProgram [conjunctionProgram "p" "q",
        monitorProgram placeFirst])).outcome = .ok watchedFork := rfl
    have hlower₂ : (lowerProgram 1 .top (forkProgram [monitorProgram limitFirst,
        conjunctionProgram "q" "p"])).outcome = .ok reversedWatchedFork := rfl
    obtain ⟨g₁, k₁, hlink₁⟩ :
        ∃ g k, (linkGraph ("b" ++ toString ·) watchedFork).Yields 0 g k := ⟨_, _, rfl⟩
    obtain ⟨g₂, k₂, hlink₂⟩ :
        ∃ g k, (linkGraph ("x" ++ toString ·) reversedWatchedFork).Yields 0 g k := ⟨_, _, rfl⟩
    have hopen₁ : ∀ b ∈ watchedFork.blocks, b.Open := fun b hb =>
      ⟨isTree_of_lowerProgram hlower₁ b hb, by revert b; decide, by revert b; decide⟩
    have hopen₂ : ∀ b ∈ reversedWatchedFork.blocks, b.Open := fun b hb =>
      ⟨isTree_of_lowerProgram hlower₂ b hb, by revert b; decide, by revert b; decide⟩
    obtain ⟨c₁, c₂, h₁, h₂, h⟩ := similar_of_canonical_text_eq hlower₁ hlower₂ (by decide)
      (by decide) hlink₁ hlink₂
    cases (canonical_linkGraph hopen₁ hlink₁).symm.trans h₁
    cases (canonical_linkGraph hopen₂ hlink₂).symm.trans h₂
    exact h watchedFork_text_eq

end BlockFlow
