import Mathlib
import BlockFlow.Proofs.Canonical.LinkedForms
import BlockFlow.Proofs.Compilation
import BlockFlow.Proofs.Json.StableTexts
import BlockFlow.Proofs.Lowering.Changes

/-! Programs that differ only in ways that carry no meaning have the same canonical text. -/

namespace BlockFlow

open Canonicalizing Linking

/-- The canonical text of a member of a sequence. -/
def Content.text (c : Content) : String := c.toJson.stableText

def Arg.text (a : Arg) : String := a.toJson.stableText

def Args.text (args : Args) : String := args.toJson.stableText

theorem text_group {xs ys : List Content} (h : xs.map Content.text = ys.map Content.text) :
    (Content.group xs).text = (Content.group ys).text := by
  have hc := Json.stableText_arr_congr h
  simp only [Content.text, Content.toJson, Content.listToJson_eq, Json.stableText_obj,
    List.map_cons, List.map_nil, hc]

theorem text_block {id : Json} {type : String} {args args' : Args} {xs ys : List Content}
    (ha : args.text = args'.text) (h : xs.map Content.text = ys.map Content.text) :
    (Content.block (.mk id type args xs)).text = (Content.block (.mk id type args' ys)).text := by
  have hc := Json.stableText_arr_congr h
  simp only [Args.text] at ha
  simp only [Content.text, Content.toJson, Block.toJson, Content.listToJson_eq,
    Json.stableText_obj, List.map_append, List.map_cons, List.map_nil, ha, hc]

theorem text_list {xs ys : List Arg} (h : xs.map Arg.text = ys.map Arg.text) :
    (Args.list xs).text = (Args.list ys).text := by
  simpa only [Args.text, Args.toJson, Arg.listToJson_eq] using Json.stableText_arr_congr h

theorem text_call (serviceId serviceAction : Json) {xs ys : List Arg}
    (h : xs.map Arg.text = ys.map Arg.text) :
    (Args.call serviceId serviceAction xs).text = (Args.call serviceId serviceAction ys).text := by
  have ha := Json.stableText_arr_congr h
  simp only [Args.text, Args.toJson, Arg.listToJson_eq, Json.stableText_obj, List.map_cons,
    List.map_nil, ha]

theorem text_argument {xs ys : List Block}
    (h : xs.map (fun b => (Content.block b).text) = ys.map fun b => (Content.block b).text) :
    (Arg.block xs).text = (Arg.block ys).text := by
  have ha := Json.stableText_arr_congr h
  simp only [Content.toJson] at ha
  simp only [Arg.text, Arg.toJson, Block.listToJson_eq, Json.stableText_obj, List.map_cons,
    List.map_nil, ha]

theorem text_graph {g g' : Graph}
    (h : g.map (fun b => (Content.block b).text) = g'.map fun b => (Content.block b).text) :
    (Graph.toJson g).stableText = (Graph.toJson g').stableText := by
  have hg := Json.stableText_arr_congr h
  simp only [Content.toJson] at hg
  simpa only [Graph.toJson, Block.listToJson_eq] using hg

/-- What an argument becomes in a linked form. -/
def Arg.linkedForm : Arg → Arg
  | .constant value => .constant value
  | .block value => .block (Block.listLinkedForms value)

theorem Arg.linkedForms_eq (args : List Arg) : Arg.linkedForms args = args.map Arg.linkedForm := by
  induction args with
  | nil => rfl
  | cons a rest ih => cases a <;> simp [Arg.linkedForms, Arg.linkedForm, ih]

theorem Block.listLinkedForms_eq (blocks : List Block) :
    Block.listLinkedForms blocks = blocks.flatMap Block.linkedForms := by
  induction blocks with
  | nil => rfl
  | cons b rest ih => simp [Block.listLinkedForms, ih]

/-- What stands in the linked form for a block, or inside a body. -/
def Content.linkedBody : Content → List Content
  | .block b => (Block.linkedForms b).map .block
  | .group contents => Content.linkedForms contents

theorem Content.linkedForms_append (xs ys : List Content) :
    Content.linkedForms (xs ++ ys) = Content.linkedForms xs ++ Content.linkedForms ys := by
  induction xs with
  | nil => rfl
  | cons x xs ih => cases x <;> simp [Content.linkedForms, ih]

theorem Content.linkedForms_map_block (blocks : List Block) :
    Content.linkedForms (blocks.map .block) = (Block.listLinkedForms blocks).map .block := by
  induction blocks with
  | nil => rfl
  | cons b rest ih => simp [Content.linkedForms, Block.listLinkedForms, ih]

theorem Content.linkedPaths_eq (join : String) (contents : List Content) :
    Content.linkedPaths join contents =
      contents.map fun c => .group (c.linkedBody ++ [.block (jumpForm join)]) := by
  induction contents with
  | nil => rfl
  | cons c rest ih => cases c <;> simp [Content.linkedPaths, Content.linkedBody, ih]

/-- Two blocks, or two bodies, with the same texts in their linked forms. -/
structure Content.SameTexts (c c' : Content) : Prop where
  kind : (∃ b b', c = .block b ∧ c' = .block b') ∨ ∃ xs ys, c = .group xs ∧ c' = .group ys
  body : c.linkedBody.map Content.text = c'.linkedBody.map Content.text

theorem Content.SameTexts.refl (c : Content) : c.SameTexts c :=
  ⟨by cases c <;> simp, rfl⟩

theorem Content.SameTexts.forms {c c' : Content} (h : c.SameTexts c')
    (before after : List Content) :
    (Content.linkedForms (before ++ c :: after)).map Content.text =
      (Content.linkedForms (before ++ c' :: after)).map Content.text := by
  have hc := h.body
  rcases h.kind with ⟨b, b', rfl, rfl⟩ | ⟨xs, ys, rfl, rfl⟩
  · simp only [Content.linkedBody] at hc
    simp [Content.linkedForms_append, Content.linkedForms, hc]
  · simp only [Content.linkedBody] at hc
    simp [Content.linkedForms_append, Content.linkedForms, text_group hc]

theorem Content.SameTexts.paths {c c' : Content} (h : c.SameTexts c') (join : String)
    (before after : List Content) :
    (Content.linkedPaths join (before ++ c :: after)).map Content.text =
      (Content.linkedPaths join (before ++ c' :: after)).map Content.text := by
  have hg : (Content.group (c.linkedBody ++ [.block (jumpForm join)])).text =
      (Content.group (c'.linkedBody ++ [.block (jumpForm join)])).text :=
    text_group (by simp [h.body])
  simp [Content.linkedPaths_eq, hg]

/-- The linked forms of two blocks of one type agree in their texts if their parts do, each part
as far as the treatment of the type goes. -/
theorem linkedBody_texts {id : Json} {type : String} {args args' : Args} {xs ys : List Content}
    (hs : (Block.mk id type args xs).isSealed = false)
    (plain : Treatment.ofTag type = .ordered ∨ Treatment.ofTag type = .serviceCall →
      args.linkedForm.text = args'.linkedForm.text)
    (sorted : Treatment.ofTag type = .commutative →
      (sortArgs args.linkedForm).text = (sortArgs args'.linkedForm).text)
    (fork : Treatment.ofTag type = .fork →
      (dropDefaultExit args.linkedForm).text = (dropDefaultExit args'.linkedForm).text ∧
        joinType args.listed = joinType args'.listed ∧ ∀ join,
          ((Content.linkedPaths join xs).map Content.text).Perm
            ((Content.linkedPaths join ys).map Content.text))
    (contents : Treatment.ofTag type ≠ .fork →
      (Content.linkedForms xs).map Content.text = (Content.linkedForms ys).map Content.text) :
    (Content.block (.mk id type args xs)).SameTexts (.block (.mk id type args' ys)) := by
  refine ⟨.inl ⟨_, _, rfl, rfl⟩, ?_⟩
  simp only [Content.linkedBody, Block.linkedForms]
  cases ht : Treatment.ofTag type with
  | stripped => simp [Block.isSealed, Block.type, ht] at hs
  | unknown => simp [Block.isSealed, Block.type, ht] at hs
  | ordered => simp [text_block (plain (.inl ht)) (contents (by simp [ht]))]
  | serviceCall => simp [text_block (plain (.inr ht)) (contents (by simp [ht]))]
  | commutative => simp [text_block (sorted ht) (contents (by simp [ht]))]
  | fork =>
    obtain ⟨ha, hj, hp⟩ := fork ht
    have hpaths := sortByText_texts_eq Content.toJson (hp (joinType args'.listed).tag)
    simp [hj, text_block ha hpaths]

/-- A block that canonicalization enters, or whose arguments are literals. -/
def Block.Transparent (b : Block) : Prop :=
  b.isSealed = true → (∀ value, Arg.block value ∉ b.args.listed) ∧ b.contents = []

theorem Block.transparent_of_open {id : Json} {type : String} {args : Args}
    {contents : List Content}
    (h : Treatment.ofTag type ≠ .stripped ∧ Treatment.ofTag type ≠ .unknown) :
    (Block.mk id type args contents).Transparent := by
  intro hs
  simp [Block.isSealed, Block.type, h] at hs

/-- A block that holds others is transparent only if it is entered. -/
theorem Block.transparent_iff {b : Block}
    (h : (∃ value, Arg.block value ∈ b.args.listed) ∨ b.contents ≠ []) :
    b.Transparent ↔ b.isSealed = false := by
  rw [← Bool.not_eq_true]
  refine ⟨fun ht hs => ?_, fun hs ht => (hs ht).elim⟩
  obtain ⟨ha, hc⟩ := ht hs
  rcases h with ⟨value, hv⟩ | hn
  · exact ha value hv
  · exact hn hc

theorem treatment_operators {type : String}
    (h : type = Operation.operatorAnd.tag ∨ type = Operation.operatorEquals.tag) :
    Treatment.ofTag type = .commutative := by
  rcases h with rfl | rfl <;> decide

/-- Changes neither bring about nor remove an operation whose inside counts but is not entered. -/
theorem Content.Change.transparent_iff {c c' : Content} (h : Content.Change Eq c c') :
    (∀ x ∈ c.blocks, x.Transparent) ↔ ∀ x ∈ c'.blocks, x.Transparent := by
  have hfork : Treatment.ofTag Operation.forkExecution.tag = .fork := by decide
  induction h with
  | operands ht h =>
    have hc := treatment_operators ht
    have hp (x : Block) := (Arg.listBlocks_perm h).mem_iff (a := x)
    simp only [Content.blocks_block, Block.forall_blocks, Args.blocks, hp]
    simp [Block.transparent_of_open, hc]
  | paths h =>
    have hp (x : Block) := (Content.listBlocks_perm h).mem_iff (a := x)
    simp only [Content.blocks_block, Block.forall_blocks, hp]
    simp [Block.transparent_of_open, hfork]
  | defaultExit =>
    simp only [Content.blocks_block, Block.forall_blocks, Args.blocks, Arg.listBlocks_eq]
    simp [Block.transparent_of_open, hfork, Arg.blocks]
  | descriptor h =>
    cases h
    rfl
  | service hi ha => rw [hi, ha]
  | argument h ih =>
    rename_i id type before after first last b b' contents
    have hb (x : Block) : (Block.mk id type (.list (before ++ .block (first ++ x :: last) :: after))
        contents).Transparent ↔ (Block.mk id type (.list []) []).isSealed = false :=
      Block.transparent_iff (.inl ⟨first ++ x :: last, by simp [Block.args, Args.listed]⟩)
    simp only [Content.blocks_block, Block.forall_blocks, hb, Args.blocks, Arg.listBlocks_eq,
      List.flatMap_append, List.flatMap_cons, Arg.blocks, Block.listBlocks_eq, List.mem_append,
      or_imp, forall_and] at ih ⊢
    simp only [ih]
  | callValue h ih =>
    rename_i id serviceId serviceAction type before after first last b b' contents
    have hb (x : Block) : (Block.mk id type (.call serviceId serviceAction
        (before ++ .block (first ++ x :: last) :: after)) contents).Transparent ↔
          (Block.mk id type (.list []) []).isSealed = false :=
      Block.transparent_iff (.inl ⟨first ++ x :: last, by simp [Block.args, Args.listed]⟩)
    simp only [Content.blocks_block, Block.forall_blocks, hb, Args.blocks, Arg.listBlocks_eq,
      List.flatMap_append, List.flatMap_cons, Arg.blocks, Block.listBlocks_eq, List.mem_append,
      or_imp, forall_and] at ih ⊢
    simp only [ih]
  | content h ih =>
    rename_i id type args before after c c'
    have hb (x : Content) : (Block.mk id type args (before ++ x :: after)).Transparent ↔
        (Block.mk id type args []).isSealed = false :=
      Block.transparent_iff (.inr (by simp [Block.contents]))
    simp only [Content.blocks_block, Block.forall_blocks, hb, Content.listBlocks_eq,
      List.flatMap_append, List.flatMap_cons, List.mem_append, or_imp, forall_and] at ih ⊢
    simp only [ih]
  | group h ih =>
    simp only [Content.blocks_group, Content.listBlocks_eq, List.flatMap_append, List.flatMap_cons,
      List.mem_append, or_imp, forall_and] at ih ⊢
    simp only [ih]

/-- Arguments that differ in one nested value of the same texts. -/
theorem linkedForms_argument (before after : List Arg) {xs ys : List Block}
    (h : (Arg.block (Block.listLinkedForms xs)).text =
      (Arg.block (Block.listLinkedForms ys)).text) :
    (Arg.linkedForms (before ++ .block xs :: after)).map Arg.text =
      (Arg.linkedForms (before ++ .block ys :: after)).map Arg.text := by
  simp [Arg.linkedForms_eq, Arg.linkedForm, h]

theorem Content.SameTexts.value {b b' : Block} (h : (Content.block b).SameTexts (.block b'))
    (first last : List Block) :
    (Arg.block (Block.listLinkedForms (first ++ b :: last))).text =
      (Arg.block (Block.listLinkedForms (first ++ b' :: last))).text := by
  have hb := h.body
  simp only [Content.linkedBody, List.map_map, Function.comp_def] at hb
  refine text_argument ?_
  simp [Block.listLinkedForms_eq, hb]

/-- One change leaves the texts of the linked form as they are. -/
theorem Content.Change.sameTexts {c c' : Content} (h : Content.Change Eq c c')
    (ht : ∀ x ∈ c.blocks, x.Transparent) : c.SameTexts c' := by
  have hfork : Treatment.ofTag Operation.forkExecution.tag = .fork := by decide
  induction h with
  | operands hop h =>
    have hc := treatment_operators hop
    refine linkedBody_texts (by simp [Block.isSealed, Block.type, hc]) (by simp [hc]) ?_
      (by simp [hc]) (fun _ => rfl)
    intro _
    refine text_list (sortByText_texts_eq Arg.toJson ?_)
    rw [Arg.linkedForms_eq, Arg.linkedForms_eq]
    exact (h.map _).map _
  | paths h =>
    refine linkedBody_texts (by simp [Block.isSealed, Block.type, hfork]) (by simp [hfork])
      (by simp [hfork]) ?_ (fun hn => (hn hfork).elim)
    refine fun _ => ⟨rfl, rfl, fun join => ?_⟩
    rw [Content.linkedPaths_eq, Content.linkedPaths_eq]
    exact (h.map _).map _
  | defaultExit =>
    refine linkedBody_texts (by simp [Block.isSealed, Block.type, hfork]) (by simp [hfork])
      (by simp [hfork]) ?_ (fun _ => rfl)
    refine fun _ => ⟨?_, ?_, fun join => .refl _⟩
    · simp [Args.linkedForm, Arg.linkedForms_eq, Arg.linkedForm, dropDefaultExit]
    · have hne : exitWhenFirstCompleted ≠ exitWhenAllCompleted := by decide
      simp [joinType, Args.listed, Arg.constants, hne]
  | descriptor h =>
    cases h
    exact .refl _
  | service hi ha =>
    rw [hi, ha]
    exact .refl _
  | argument h ih =>
    rename_i id type before after first last b b' contents
    simp only [Content.blocks_block, Block.forall_blocks, Args.blocks, Arg.listBlocks_eq,
      List.flatMap_append, List.flatMap_cons, Arg.blocks, Block.listBlocks_eq, List.mem_append,
      or_imp, forall_and] at ht
    have hv := (ih ht.2.1.2.1.2.1).value first last
    have hs := (Block.transparent_iff
      (.inl ⟨first ++ b :: last, by simp [Block.args, Args.listed]⟩)).mp ht.1
    refine linkedBody_texts hs ?_ ?_ ?_ (fun _ => rfl)
    · exact fun _ => text_list (linkedForms_argument before after hv)
    · exact fun _ => text_list
        (sortByText_texts_eq Arg.toJson (.of_eq (linkedForms_argument before after hv)))
    · refine fun _ => ⟨?_, ?_, fun join => .refl _⟩
      · refine text_list ?_
        simp [Arg.linkedForms_eq, Arg.linkedForm, hv]
      · simp [joinType, Args.listed, constants_append_block]
  | callValue h ih =>
    rename_i id serviceId serviceAction type before after first last b b' contents
    simp only [Content.blocks_block, Block.forall_blocks, Args.blocks, Arg.listBlocks_eq,
      List.flatMap_append, List.flatMap_cons, Arg.blocks, Block.listBlocks_eq, List.mem_append,
      or_imp, forall_and] at ht
    have hv := (ih ht.2.1.2.1.2.1).value first last
    have hs := (Block.transparent_iff
      (.inl ⟨first ++ b :: last, by simp [Block.args, Args.listed]⟩)).mp ht.1
    have hc := text_call serviceId serviceAction (linkedForms_argument before after hv)
    refine linkedBody_texts hs (fun _ => hc) (fun _ => hc) ?_ (fun _ => rfl)
    refine fun _ => ⟨hc, ?_, fun join => .refl _⟩
    simp [joinType, Args.listed, constants_append_block]
  | content h ih =>
    rename_i id type args before after c c'
    simp only [Content.blocks_block, Block.forall_blocks, Content.listBlocks_eq,
      List.flatMap_append, List.flatMap_cons, List.mem_append, or_imp, forall_and] at ht
    have hc := ih ht.2.2.2.1
    have hs := (Block.transparent_iff (.inr (by simp [Block.contents]))).mp ht.1
    refine linkedBody_texts hs (fun _ => rfl) (fun _ => rfl) ?_ fun _ => hc.forms before after
    exact fun _ => ⟨rfl, rfl, fun join => .of_eq (hc.paths join before after)⟩
  | group h ih =>
    rename_i before after c c'
    simp only [Content.blocks_group, Content.listBlocks_eq, List.flatMap_append, List.flatMap_cons,
      List.mem_append, or_imp, forall_and] at ht
    exact ⟨.inr ⟨_, _, rfl, rfl⟩, (ih ht.2.1).forms before after⟩

theorem Content.Similar.transparent_iff {c c' : Content} (h : Content.Similar Eq c c') :
    (∀ x ∈ c.blocks, x.Transparent) ↔ ∀ x ∈ c'.blocks, x.Transparent := by
  induction h with
  | rel c c' h => exact h.transparent_iff
  | refl c => rfl
  | symm c c' _ ih => exact ih.symm
  | trans c d e _ _ ih ih' => exact ih.trans ih'

/-- Any number of changes leave the texts of the linked form as they are. -/
theorem Content.Similar.texts {c c' : Content} (h : Content.Similar Eq c c')
    (ht : ∀ x ∈ c.blocks, x.Transparent) :
    c.linkedBody.map Content.text = c'.linkedBody.map Content.text := by
  induction h with
  | rel c c' h => exact (h.sameTexts ht).body
  | refl c => rfl
  | symm c c' h ih => exact (ih ((Content.Similar.transparent_iff h).mpr ht)).symm
  | trans c d e h _ ih ih' =>
    exact (ih ht).trans (ih' ((Content.Similar.transparent_iff h).mp ht))

/-- An operation that canonicalization does not enter has only literal arguments. -/
def Block.TakesLiterals (b : Block) : Prop :=
  b.type = Operation.flowLastValue.tag ∨ b.type = Operation.jumpToPosition.tag ∨
      TagKind.ofTag b.type = .unknown →
    ∀ arg ∈ b.args.listed, ∃ text, arg = .constant text

instance (arg : Arg) : Decidable (∃ text, arg = .constant text) :=
  match arg with
  | .constant text => isTrue ⟨text, rfl⟩
  | .block _ => isFalse nofun

instance (b : Block) : Decidable b.TakesLiterals :=
  inferInstanceAs (Decidable (_ → ∀ arg ∈ b.args.listed, ∃ text, arg = .constant text))

/-- The operations that canonicalization does not enter, linking primitives apart. -/
theorem isSealed_cases {b : Block} (hs : b.isSealed = true)
    (hp : isLinkPrimitive b.type = false) :
    b.type = Operation.waitForMonitor.tag ∨ b.type = Operation.flowLastValue.tag ∨
      b.type = Operation.jumpToPosition.tag ∨ TagKind.ofTag b.type = .unknown := by
  simp only [Block.isSealed, Bool.or_eq_true, beq_iff_eq] at hs
  generalize b.type = type at hs hp ⊢
  cases hk : TagKind.ofTag type with
  | custom => simp [Treatment.ofTag, hk] at hs
  | unknown => exact .inr (.inr (.inr rfl))
  | known o =>
    have ho : type = o.tag := by
      unfold TagKind.ofTag at hk
      split at hk
      · next h =>
        cases hk
        exact Operation.ofTag?_eq_some.mp h
      · split at hk <;> cases hk
    subst ho
    cases o <;> first
      | exact .inl rfl
      | exact .inr (.inl rfl)
      | exact .inr (.inr (.inl rfl))
      | exact absurd hs (by decide)
      | exact absurd hp (by decide)

theorem Block.Lowered.transparent {b : Block} (h : b.Lowered)
    (hp : isLinkPrimitive b.type = false) (hl : b.TakesLiterals) : b.Transparent := by
  intro hs
  have hc : b.contents = [] := by
    refine h.contents_eq_nil ?_ ?_ <;> intro he <;>
      exact absurd hs (by rw [Block.isSealed, he]; decide)
  refine ⟨fun value hv => ?_, hc⟩
  rcases isSealed_cases hs hp with hm | hr
  · obtain ⟨descriptor, hd⟩ := h.monitor_args hm
    simp [hd, Args.listed] at hv
  · obtain ⟨text, ht⟩ := hl hr _ hv
    cases ht

theorem Block.Transparent.isOpen {b : Block} (h : b.Transparent) (hl : b.Lowered)
    (hp : isLinkPrimitive b.type = false) : b.Open := by
  refine ⟨hl, hp, fun hs x hx => ?_⟩
  obtain ⟨ha, hc⟩ := h hs
  obtain ⟨id, type, args, contents⟩ := b
  rcases Block.mem_blocks.mp hx with rfl | hx | hx
  · rw [← Bool.not_eq_true, Block.isFork_iff]
    intro hf
    exact absurd hs (by rw [Block.isSealed, hf]; decide)
  · rw [Args.blocks_eq] at hx
    obtain ⟨value, hv, _⟩ := Arg.mem_listBlocks.mp hx
    exact (ha value hv).elim
  · obtain rfl : contents = [] := hc
    cases hx

/-- The canonical text of a compiled program is that of the linked form of its tree. -/
theorem compile_linkedForms {w : Workspace} {program : Json} {g : Graph}
    (h : (Work.compile .current true program).Returns w g)
    (hp : ∀ o ∈ program.operations, isLinkPrimitive o.type = false)
    (hl : ∀ o ∈ program.operations, o.TakesLiterals) :
    ∃ tree, program.tree? = some tree ∧ (∀ b ∈ tree.blocks, b.Transparent) ∧
      (g.canonical false).outcome = .ok (Block.listLinkedForms tree) := by
  obtain ⟨tree, k, ht, hy⟩ := compile_returns h
  have hops : program.operations = tree.blocks := by simp [Json.operations, ht]
  rw [hops] at hp hl
  have hlow := isTree_of_tree? ht
  have htr : ∀ b ∈ tree.blocks, b.Transparent := fun b hb =>
    (hlow b hb).transparent (hp b hb) (hl b hb)
  exact ⟨tree, ht, htr, canonical_linkGraph
    (fun b hb => (htr b hb).isOpen (hlow b hb) (hp b hb)) hy⟩

/-- Equivalent programs have one canonical text, whatever ids they are compiled with. -/
theorem canonical_text_eq_of_equivalent {left right : Json} {w₁ w₂ : Workspace} {g₁ g₂ : Graph}
    (he : Json.Equivalent left right)
    (h₁ : (Work.compile .current true left).Returns w₁ g₁)
    (h₂ : (Work.compile .current true right).Returns w₂ g₂)
    (hp₁ : ∀ o ∈ left.operations, isLinkPrimitive o.type = false)
    (hp₂ : ∀ o ∈ right.operations, isLinkPrimitive o.type = false)
    (hl₁ : ∀ o ∈ left.operations, o.TakesLiterals)
    (hl₂ : ∀ o ∈ right.operations, o.TakesLiterals) :
    ∃ c₁ c₂, (g₁.canonical false).outcome = .ok c₁ ∧ (g₂.canonical false).outcome = .ok c₂ ∧
      (Graph.toJson c₁).stableText = (Graph.toJson c₂).stableText := by
  obtain ⟨t₁, ht₁, htr, hc₁⟩ := compile_linkedForms h₁ hp₁ hl₁
  obtain ⟨t₂, ht₂, _, hc₂⟩ := compile_linkedForms h₂ hp₂ hl₂
  refine ⟨_, _, hc₁, hc₂, ?_⟩
  have hs : Content.Similar Eq (Graph.body t₁) (Graph.body t₂) := by
    have hr := he.similar
    rw [ht₁, ht₂] at hr
    cases hr with
    | some hs => exact hs
  have htexts := hs.texts (by simpa [Graph.body, Content.blocks_group, Graph.blocks] using htr)
  simp only [Graph.body, Content.linkedBody, Content.linkedForms_map_block, List.map_map] at htexts
  exact text_graph htexts

/-- A fork with a conjunction on one path and a pause on the other. -/
def conjunctionFork : Json :=
  .arr [.arr [.str "op_fork_execution", .arr [], .arr
    [.arr [.arr [.str "operator_and", .str "p", .str "q"]],
      .arr [.arr [.str "control_wait", .int 1]]]]]

/-- The same fork with its default stated, the paths and the operands the other way round. -/
def reversedConjunctionFork : Json :=
  .arr [.arr [.str "op_fork_execution", .arr [.str "exit-when-all-completed"], .arr
    [.arr [.arr [.str "control_wait", .int 1]],
      .arr [.arr [.str "operator_and", .str "q", .str "p"]]]]]

theorem conjunctionFork_equivalent : Json.Equivalent conjunctionFork reversedConjunctionFork := by
  have hpaths : Json.ProgramChange conjunctionFork (.arr [.arr [.str "op_fork_execution", .arr [],
      .arr [.arr [.arr [.str "control_wait", .int 1]],
        .arr [.arr [.str "operator_and", .str "p", .str "q"]]]]]) :=
    ⟨[], [], _, _, .paths (List.Perm.swap _ _ _), rfl, rfl⟩
  have hoperands : Json.ProgramChange (.arr [.arr [.str "op_fork_execution", .arr [],
        .arr [.arr [.arr [.str "control_wait", .int 1]],
          .arr [.arr [.str "operator_and", .str "p", .str "q"]]]]])
      (.arr [.arr [.str "op_fork_execution", .arr [],
        .arr [.arr [.arr [.str "control_wait", .int 1]],
          .arr [.arr [.str "operator_and", .str "q", .str "p"]]]]]) :=
    ⟨[], [], _, _, @Json.OperationChange.path _ [_] [] [] [] [] _ _
      (.operands (.inl rfl) (List.Perm.swap _ _ _)), rfl, rfl⟩
  have hexit : Json.ProgramChange reversedConjunctionFork (.arr [.arr [.str "op_fork_execution",
      .arr [], .arr [.arr [.arr [.str "control_wait", .int 1]],
        .arr [.arr [.str "operator_and", .str "q", .str "p"]]]]]) :=
    ⟨[], [], _, _, @Json.OperationChange.defaultExit [] [] _, rfl, rfl⟩
  exact .trans _ _ _ (.rel _ _ hpaths)
    (.trans _ _ _ (.rel _ _ hoperands) (.symm _ _ (.rel _ _ hexit)))

theorem conjunctionFork_text_eq :
    ∃ g₁ g₂, (Work.compile .current true conjunctionFork).Returns (labelledWorkspace "b") g₁ ∧
      (Work.compile .current true reversedConjunctionFork).Returns (labelledWorkspace "x") g₂ ∧
      ∃ c₁ c₂, (g₁.canonical false).outcome = .ok c₁ ∧ (g₂.canonical false).outcome = .ok c₂ ∧
        (Graph.toJson c₁).stableText = (Graph.toJson c₂).stableText := by
  obtain ⟨g₁, h₁⟩ : ∃ g, (Work.compile .current true conjunctionFork).Returns
      (labelledWorkspace "b") g := ⟨_, _, rfl⟩
  obtain ⟨g₂, h₂⟩ : ∃ g, (Work.compile .current true reversedConjunctionFork).Returns
      (labelledWorkspace "x") g := ⟨_, _, rfl⟩
  exact ⟨g₁, g₂, h₁, h₂, canonical_text_eq_of_equivalent conjunctionFork_equivalent h₁ h₂
    (by decide) (by decide) (by decide) (by decide)⟩

end BlockFlow
