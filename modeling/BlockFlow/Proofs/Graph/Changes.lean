import Mathlib
import BlockFlow.Linking
import BlockFlow.Proofs.Graph.Blocks
import BlockFlow.Proofs.Json.Reordering

/-! Changes of a graph that carry no meaning. -/

namespace BlockFlow

/-- One change, at any depth: the operands of a commutative operator or the paths of a fork in
another order, a fork argument that states the default left out, or data of a monitor or a service
call replaced by data that count as the same. -/
inductive Content.Change (same : Json → Json → Prop) : Content → Content → Prop
  | operands {id : Json} {type : String} {args args' : List Arg} {contents : List Content}
      (ht : type = Operation.operatorAnd.tag ∨ type = Operation.operatorEquals.tag)
      (h : args.Perm args') :
      Change same (.block (.mk id type (.list args) contents))
        (.block (.mk id type (.list args') contents))
  | paths {id : Json} {args : Args} {paths paths' : List Content} (h : paths.Perm paths') :
      Change same (.block (.mk id Operation.forkExecution.tag args paths))
        (.block (.mk id Operation.forkExecution.tag args paths'))
  | defaultExit {id : Json} {before after : List Arg} {paths : List Content} :
      Change same
        (.block (.mk id Operation.forkExecution.tag
          (.list (before ++ .constant exitWhenAllCompleted :: after)) paths))
        (.block (.mk id Operation.forkExecution.tag (.list (before ++ after)) paths))
  | descriptor {id : Json} {type : String} {fields fields' : List (String × Json)}
      {contents : List Content} (h : same (.obj fields) (.obj fields')) :
      Change same (.block (.mk id type (.monitor fields) contents))
        (.block (.mk id type (.monitor fields') contents))
  | service {id serviceId serviceId' serviceAction serviceAction' : Json} {type : String}
      {values : List Arg} {contents : List Content} (hi : same serviceId serviceId')
      (ha : same serviceAction serviceAction') :
      Change same (.block (.mk id type (.call serviceId serviceAction values) contents))
        (.block (.mk id type (.call serviceId' serviceAction' values) contents))
  | argument {id : Json} {type : String} {before after : List Arg} {first last : List Block}
      {b b' : Block} {contents : List Content} (h : Change same (.block b) (.block b')) :
      Change same
        (.block (.mk id type (.list (before ++ .block (first ++ b :: last) :: after)) contents))
        (.block (.mk id type (.list (before ++ .block (first ++ b' :: last) :: after)) contents))
  | callValue {id serviceId serviceAction : Json} {type : String} {before after : List Arg}
      {first last : List Block} {b b' : Block} {contents : List Content}
      (h : Change same (.block b) (.block b')) :
      Change same
        (.block (.mk id type
          (.call serviceId serviceAction (before ++ .block (first ++ b :: last) :: after))
          contents))
        (.block (.mk id type
          (.call serviceId serviceAction (before ++ .block (first ++ b' :: last) :: after))
          contents))
  | content {id : Json} {type : String} {args : Args} {before after : List Content}
      {c c' : Content} (h : Change same c c') :
      Change same (.block (.mk id type args (before ++ c :: after)))
        (.block (.mk id type args (before ++ c' :: after)))
  | group {before after : List Content} {c c' : Content} (h : Change same c c') :
      Change same (.group (before ++ c :: after)) (.group (before ++ c' :: after))

/-- Equal up to changes. -/
def Content.Similar (same : Json → Json → Prop) : Content → Content → Prop :=
  Relation.EqvGen (Content.Change same)

namespace Content

variable {same : Json → Json → Prop}

/-- The content with a block put into a context. A body stays as it is. -/
def mapBlock (f : Block → Block) : Content → Content
  | .block b => .block (f b)
  | .group contents => .group contents

/-- A change turns a block into a block and a body into a body. -/
theorem Change.kind {c c' : Content} (h : Change same c c') :
    (∃ b b', c = .block b ∧ c' = .block b') ∨ ∃ xs ys, c = .group xs ∧ c' = .group ys := by
  cases h with
  | group h => exact .inr ⟨_, _, rfl, rfl⟩
  | _ => exact .inl ⟨_, _, rfl, rfl⟩

namespace Similar

theorem refl (c : Content) : Similar same c c := Relation.EqvGen.refl c

theorem of_change {c c' : Content} (h : Change same c c') : Similar same c c' := .rel _ _ h

theorem symm {c c' : Content} (h : Similar same c c') : Similar same c' c :=
  Relation.EqvGen.symm _ _ h

theorem trans {c d e : Content} (h : Similar same c d) (h' : Similar same d e) :
    Similar same c e := Relation.EqvGen.trans _ _ _ h h'

theorem lift {f : Content → Content} (hf : ∀ c c', Change same c c' → Similar same (f c) (f c'))
    {c c' : Content} (h : Similar same c c') : Similar same (f c) (f c') :=
  eqvGen_lift hf h

theorem group {c c' : Content} (h : Similar same c c') (before after : List Content) :
    Similar same (.group (before ++ c :: after)) (.group (before ++ c' :: after)) :=
  h.lift fun _ _ hc => .of_change (.group hc)

theorem content {c c' : Content} (h : Similar same c c') (id : Json) (type : String) (args : Args)
    (before after : List Content) :
    Similar same (.block (.mk id type args (before ++ c :: after)))
      (.block (.mk id type args (before ++ c' :: after))) :=
  h.lift fun _ _ hc => .of_change (.content hc)

/-- A context in which a block can stand, and a body cannot. -/
theorem inBlock {f : Block → Block}
    (hf : ∀ b b', Change same (.block b) (.block b') → Change same (.block (f b)) (.block (f b')))
    {b b' : Block} (h : Similar same (.block b) (.block b')) :
    Similar same (.block (f b)) (.block (f b')) := by
  refine h.lift (f := Content.mapBlock f) ?_
  intro c c' hc
  rcases hc.kind with ⟨b, b', rfl, rfl⟩ | ⟨xs, ys, rfl, rfl⟩
  · exact .of_change (hf b b' hc)
  · exact .of_change hc

theorem argument {b b' : Block} (h : Similar same (.block b) (.block b')) (id : Json)
    (type : String) (before after : List Arg) (first last : List Block)
    (contents : List Content) :
    Similar same
      (.block (.mk id type (.list (before ++ .block (first ++ b :: last) :: after)) contents))
      (.block (.mk id type (.list (before ++ .block (first ++ b' :: last) :: after)) contents)) :=
  h.inBlock (f := fun x =>
    .mk id type (.list (before ++ .block (first ++ x :: last) :: after)) contents)
    fun _ _ hc => .argument hc

theorem callValue {b b' : Block} (h : Similar same (.block b) (.block b'))
    (id serviceId serviceAction : Json) (type : String) (before after : List Arg)
    (first last : List Block) (contents : List Content) :
    Similar same
      (.block (.mk id type
        (.call serviceId serviceAction (before ++ .block (first ++ b :: last) :: after)) contents))
      (.block (.mk id type
        (.call serviceId serviceAction (before ++ .block (first ++ b' :: last) :: after))
        contents)) :=
  h.inBlock (f := fun x => .mk id type
    (.call serviceId serviceAction (before ++ .block (first ++ x :: last) :: after)) contents)
    fun _ _ hc => .callValue hc

/-! Members of lists may each be changed. -/

theorem members {cs ds : List Content} (h : List.Forall₂ (Similar same) cs ds) :
    Similar same (.group cs) (.group ds) :=
  rel_of_forall₂ refl trans (fun before after _ _ hc => hc.group before after) h

theorem contents {cs ds : List Content} (h : List.Forall₂ (Similar same) cs ds) (id : Json)
    (type : String) (args : Args) :
    Similar same (.block (.mk id type args cs)) (.block (.mk id type args ds)) := by
  refine rel_of_forall₂ (f := fun cs => .block (.mk id type args cs)) refl trans ?_ h
  exact fun before after c d hc => hc.content id type args before after

end Similar

end Content

/-- Two literals that are equal, or nested blocks that are similar one by one. -/
inductive Arg.Similar (same : Json → Json → Prop) : Arg → Arg → Prop
  | constant (value : String) : Arg.Similar same (.constant value) (.constant value)
  | block {xs ys : List Block}
      (h : List.Forall₂ (fun x y => Content.Similar same (.block x) (.block y)) xs ys) :
      Arg.Similar same (.block xs) (.block ys)

section

variable {same : Json → Json → Prop} {as bs : List Arg}

/-- A context for arguments, in which a nested block can be changed. -/
theorem Content.Similar.inArgs {f : List Arg → Content}
    (hf : ∀ {b b'}, Content.Similar same (.block b) (.block b') → ∀ before after first last,
      Content.Similar same (f (before ++ .block (first ++ b :: last) :: after))
        (f (before ++ .block (first ++ b' :: last) :: after)))
    (h : List.Forall₂ (Arg.Similar same) as bs) : Content.Similar same (f as) (f bs) := by
  refine rel_of_forall₂ .refl .trans (fun before after a b hab => ?_) h
  cases hab with
  | constant value => exact .refl _
  | block hxy =>
    refine rel_of_forall₂ (f := fun xs => f (before ++ .block xs :: after)) .refl .trans ?_ hxy
    exact fun first last x y hxy => hf hxy before after first last

theorem Content.Similar.arguments (h : List.Forall₂ (Arg.Similar same) as bs) (id : Json)
    (type : String) (contents : List Content) :
    Content.Similar same (.block (.mk id type (.list as) contents))
      (.block (.mk id type (.list bs) contents)) :=
  .inArgs (f := fun xs => .block (.mk id type (.list xs) contents))
    (fun hb before after first last => hb.argument id type before after first last contents) h

theorem Content.Similar.callValues (h : List.Forall₂ (Arg.Similar same) as bs)
    (id serviceId serviceAction : Json) (type : String) (contents : List Content) :
    Content.Similar same (.block (.mk id type (.call serviceId serviceAction as) contents))
      (.block (.mk id type (.call serviceId serviceAction bs) contents)) :=
  .inArgs (f := fun xs => .block (.mk id type (.call serviceId serviceAction xs) contents))
    (fun hb before after first last =>
      hb.callValue id serviceId serviceAction type before after first last contents) h

end

theorem constants_append_block (before after : List Arg) (value : List Block) :
    Arg.constants (before ++ .block value :: after) =
      Arg.constants before ++ Arg.constants after := by
  simp [Arg.constants]

/-- How the arguments of a block are given. -/
inductive ArgsKind
  | list
  | monitor
  | call
deriving DecidableEq

def Args.kind : Args → ArgsKind
  | .list _ => .list
  | .monitor _ => .monitor
  | .call _ _ _ => .call

/-- What no change alters in a block. -/
def Block.signature (b : Block) : String × ArgsKind := (b.type, b.args.kind)

/-- Changes keep the types of all blocks and the ways their arguments are given. -/
theorem Content.Change.forall_signature_iff {same : Json → Json → Prop} {c c' : Content}
    (h : Content.Change same c c') (P : String × ArgsKind → Prop) :
    (∀ x ∈ c.blocks, P x.signature) ↔ ∀ x ∈ c'.blocks, P x.signature := by
  induction h with
  | operands ht h =>
    have hp (x : Block) := (Arg.listBlocks_perm h).mem_iff (a := x)
    simp only [Content.blocks_block, Block.forall_blocks, Args.blocks, hp]
    rfl
  | paths h =>
    have hp (x : Block) := (Content.listBlocks_perm h).mem_iff (a := x)
    simp only [Content.blocks_block, Block.forall_blocks, hp]
    rfl
  | defaultExit =>
    simp only [Content.blocks_block, Block.forall_blocks, Args.blocks, Arg.listBlocks_eq,
      List.flatMap_append, List.flatMap_cons, Arg.blocks, List.nil_append]
    rfl
  | descriptor h =>
    simp only [Content.blocks_block, Block.forall_blocks, Args.blocks]
    rfl
  | service hi ha =>
    simp only [Content.blocks_block, Block.forall_blocks, Args.blocks]
    rfl
  | argument h ih =>
    simp only [Content.blocks_block, Block.forall_blocks, Args.blocks, Arg.listBlocks_eq,
      List.flatMap_append, List.flatMap_cons, Arg.blocks, Block.listBlocks_eq, List.mem_append,
      or_imp, forall_and] at ih ⊢
    simp only [ih]
    rfl
  | callValue h ih =>
    simp only [Content.blocks_block, Block.forall_blocks, Args.blocks, Arg.listBlocks_eq,
      List.flatMap_append, List.flatMap_cons, Arg.blocks, Block.listBlocks_eq, List.mem_append,
      or_imp, forall_and] at ih ⊢
    simp only [ih]
    rfl
  | content h ih =>
    simp only [Content.blocks_block, Block.forall_blocks, Content.listBlocks_eq,
      List.flatMap_append, List.flatMap_cons, List.mem_append, or_imp, forall_and] at ih ⊢
    simp only [ih]
    rfl
  | group h ih =>
    simp only [Content.blocks_group, Content.listBlocks_eq, List.flatMap_append, List.flatMap_cons,
      List.mem_append, or_imp, forall_and] at ih ⊢
    simp only [ih]

theorem Content.Similar.forall_signature_iff {same : Json → Json → Prop} {c c' : Content}
    (h : Content.Similar same c c') (P : String × ArgsKind → Prop) :
    (∀ x ∈ c.blocks, P x.signature) ↔ ∀ x ∈ c'.blocks, P x.signature := by
  induction h with
  | rel c c' h => exact h.forall_signature_iff P
  | refl c => rfl
  | symm c c' _ ih => exact ih.symm
  | trans c d e _ _ ih ih' => exact ih.trans ih'

/-- A graph as a body. -/
def Graph.body (g : Graph) : Content := .group (g.map .block)

end BlockFlow
