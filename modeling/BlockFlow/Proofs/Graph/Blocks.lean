import Mathlib
import BlockFlow.Graph.Basic

/-! The blocks of a graph, member by member. -/

namespace BlockFlow

theorem Block.listBlocks_eq (blocks : List Block) :
    Block.listBlocks blocks = blocks.flatMap Block.blocks := by
  induction blocks with
  | nil => rfl
  | cons b rest ih => simp [Block.listBlocks, ih]

/-- The blocks of one member of a sequence. -/
def Content.blocks : Content → List Block
  | .block b => b.blocks
  | .group contents => Content.listBlocks contents

theorem Content.blocks_block (b : Block) : (Content.block b).blocks = b.blocks := rfl

theorem Content.blocks_group (contents : List Content) :
    (Content.group contents).blocks = Content.listBlocks contents := rfl

theorem Content.listBlocks_eq (contents : List Content) :
    Content.listBlocks contents = contents.flatMap Content.blocks := by
  induction contents with
  | nil => rfl
  | cons c rest ih => cases c <;> simp [Content.listBlocks, Content.blocks, ih]

/-- The blocks of one argument. -/
def Arg.blocks : Arg → List Block
  | .constant _ => []
  | .block value => Block.listBlocks value

theorem Arg.listBlocks_eq (args : List Arg) : Arg.listBlocks args = args.flatMap Arg.blocks := by
  induction args with
  | nil => rfl
  | cons a rest ih => cases a <;> simp [Arg.listBlocks, Arg.blocks, ih]

/-- The arguments in a list or in a service call. -/
def Args.listed : Args → List Arg
  | .list args => args
  | .monitor _ => []
  | .call _ _ values => values

theorem Args.blocks_eq (args : Args) : args.blocks = Arg.listBlocks args.listed := by
  cases args <;> rfl

@[simp] theorem Block.listBlocks_append (xs ys : List Block) :
    Block.listBlocks (xs ++ ys) = Block.listBlocks xs ++ Block.listBlocks ys := by
  simp [Block.listBlocks_eq]

@[simp] theorem Content.listBlocks_append (xs ys : List Content) :
    Content.listBlocks (xs ++ ys) = Content.listBlocks xs ++ Content.listBlocks ys := by
  simp [Content.listBlocks_eq]

@[simp] theorem Content.listBlocks_map_block (blocks : List Block) :
    Content.listBlocks (blocks.map .block) = Block.listBlocks blocks := by
  induction blocks with
  | nil => rfl
  | cons b rest ih => simp [Content.listBlocks, Block.listBlocks, ih]

theorem Block.mem_blocks_self (b : Block) : b ∈ b.blocks := by
  cases b
  simp [Block.blocks]

theorem Block.mem_listBlocks {x : Block} {blocks : List Block} :
    x ∈ Block.listBlocks blocks ↔ ∃ b ∈ blocks, x ∈ b.blocks := by
  simp [Block.listBlocks_eq]

theorem Arg.mem_listBlocks {x : Block} {args : List Arg} :
    x ∈ Arg.listBlocks args ↔ ∃ value, .block value ∈ args ∧ x ∈ Block.listBlocks value := by
  rw [Arg.listBlocks_eq, List.mem_flatMap]
  constructor
  · rintro ⟨_ | value, ha, hx⟩
    · simp [Arg.blocks] at hx
    · exact ⟨value, ha, hx⟩
  · rintro ⟨value, ha, hx⟩
    exact ⟨_, ha, hx⟩

theorem Content.mem_listBlocks {x : Block} {contents : List Content} :
    x ∈ Content.listBlocks contents ↔ ∃ c ∈ contents, x ∈ c.blocks := by
  simp [Content.listBlocks_eq]

theorem Block.mem_blocks {x : Block} {id : Json} {type : String} {args : Args}
    {contents : List Content} :
    x ∈ (Block.mk id type args contents).blocks ↔
      x = .mk id type args contents ∨ x ∈ args.blocks ∨ x ∈ Content.listBlocks contents := by
  simp [Block.blocks]

/-- What holds of all blocks of a block holds of it, of those in its arguments and of those in its
contents. -/
theorem Block.forall_blocks {P : Block → Prop} {id : Json} {type : String} {args : Args}
    {contents : List Content} :
    (∀ x ∈ (Block.mk id type args contents).blocks, P x) ↔
      P (.mk id type args contents) ∧ (∀ x ∈ args.blocks, P x) ∧
        ∀ x ∈ Content.listBlocks contents, P x := by
  simp [Block.blocks, or_imp, forall_and]

/-- The same for a block whose parts are not given. -/
theorem Block.forall_blocks_iff {P : Block → Prop} (b : Block) :
    (∀ x ∈ b.blocks, P x) ↔
      P b ∧ (∀ x ∈ b.args.blocks, P x) ∧ ∀ x ∈ Content.listBlocks b.contents, P x := by
  rcases b with ⟨id, type, args, contents⟩
  exact Block.forall_blocks

mutual

/-- The blocks of a block of a block are blocks of it. -/
theorem Block.mem_blocks_trans : ∀ (b : Block) {y x : Block}, y ∈ b.blocks → x ∈ y.blocks →
    x ∈ b.blocks
  | .mk id type args contents, y, x, hy, hx => by
    rcases Block.mem_blocks.mp hy with rfl | hy | hy
    · exact hx
    · exact Block.mem_blocks.mpr (.inr (.inl (Args.mem_blocks_trans args hy hx)))
    · exact Block.mem_blocks.mpr (.inr (.inr (Content.mem_listBlocks_trans contents hy hx)))

theorem Args.mem_blocks_trans : ∀ (args : Args) {y x : Block}, y ∈ args.blocks → x ∈ y.blocks →
    x ∈ args.blocks
  | .list args, _, _, hy, hx => Arg.mem_listBlocks_trans args hy hx
  | .monitor _, _, _, hy, _ => by simp [Args.blocks] at hy
  | .call _ _ values, _, _, hy, hx => Arg.mem_listBlocks_trans values hy hx

theorem Arg.mem_listBlocks_trans : ∀ (args : List Arg) {y x : Block}, y ∈ Arg.listBlocks args →
    x ∈ y.blocks → x ∈ Arg.listBlocks args
  | [], _, _, hy, _ => by simp [Arg.listBlocks] at hy
  | .constant _ :: rest, _, _, hy, hx => Arg.mem_listBlocks_trans rest hy hx
  | .block value :: rest, y, x, hy, hx => by
    simp only [Arg.listBlocks, List.mem_append] at hy ⊢
    exact hy.imp (Block.mem_listBlocks_trans value · hx) (Arg.mem_listBlocks_trans rest · hx)

theorem Content.mem_listBlocks_trans : ∀ (contents : List Content) {y x : Block},
    y ∈ Content.listBlocks contents → x ∈ y.blocks → x ∈ Content.listBlocks contents
  | [], _, _, hy, _ => by simp [Content.listBlocks] at hy
  | .block b :: rest, y, x, hy, hx => by
    simp only [Content.listBlocks, List.mem_append] at hy ⊢
    exact hy.imp (Block.mem_blocks_trans b · hx) (Content.mem_listBlocks_trans rest · hx)
  | .group contents :: rest, y, x, hy, hx => by
    simp only [Content.listBlocks, List.mem_append] at hy ⊢
    exact hy.imp (Content.mem_listBlocks_trans contents · hx)
      (Content.mem_listBlocks_trans rest · hx)

theorem Block.mem_listBlocks_trans : ∀ (blocks : List Block) {y x : Block},
    y ∈ Block.listBlocks blocks → x ∈ y.blocks → x ∈ Block.listBlocks blocks
  | [], _, _, hy, _ => by simp [Block.listBlocks] at hy
  | b :: rest, y, x, hy, hx => by
    simp only [Block.listBlocks, List.mem_append] at hy ⊢
    exact hy.imp (Block.mem_blocks_trans b · hx) (Block.mem_listBlocks_trans rest · hx)

end

/-- Reordering arguments does not change which blocks they hold. -/
theorem Arg.listBlocks_perm {xs ys : List Arg} (h : xs.Perm ys) :
    (Arg.listBlocks xs).Perm (Arg.listBlocks ys) := by
  simpa [Arg.listBlocks_eq] using h.flatMap_right Arg.blocks

theorem Content.listBlocks_perm {xs ys : List Content} (h : xs.Perm ys) :
    (Content.listBlocks xs).Perm (Content.listBlocks ys) := by
  simpa [Content.listBlocks_eq] using h.flatMap_right Content.blocks

/-- How many bodies a sequence has that consists of bodies only. -/
def Content.bodyCount? : List Content → Option Nat
  | [] => some 0
  | .group _ :: rest => (Content.bodyCount? rest).map (· + 1)
  | .block _ :: _ => none

theorem Content.bodyCount?_eq_some {contents : List Content} {n : Nat} :
    Content.bodyCount? contents = some n ↔
      ∃ bodies : List (List Content), bodies.length = n ∧ contents = bodies.map .group := by
  induction contents generalizing n with
  | nil =>
    constructor
    · rintro ⟨⟩
      exact ⟨[], rfl, rfl⟩
    · rintro ⟨_ | ⟨body, bodies⟩, rfl, he⟩
      · rfl
      · simp at he
  | cons c rest ih =>
    cases c with
    | block b =>
      simp only [Content.bodyCount?, reduceCtorEq, false_iff]
      rintro ⟨_ | ⟨body, bodies⟩, _, he⟩ <;> simp at he
    | group contents =>
      simp only [Content.bodyCount?, Option.map_eq_some_iff, ih]
      constructor
      · rintro ⟨_, ⟨bodies, rfl, rfl⟩, rfl⟩
        exact ⟨contents :: bodies, rfl, rfl⟩
      · rintro ⟨_ | ⟨body, bodies⟩, rfl, he⟩
        · simp at he
        · obtain ⟨_, rfl⟩ := List.cons.inj he
          exact ⟨_, ⟨bodies, rfl, rfl⟩, rfl⟩

theorem Operation.ofTag?_tag (o : Operation) : Operation.ofTag? o.tag = some o := by
  cases o <;> decide

theorem Operation.ofTag?_eq_some {tag : String} {o : Operation} :
    Operation.ofTag? tag = some o ↔ tag = o.tag := by
  constructor
  · intro h
    have := List.find?_some h
    exact (by simpa using this : o.tag = tag).symm
  · rintro rfl
    exact Operation.ofTag?_tag o

theorem Block.isFork_mk (id : Json) (type : String) (args : Args) (contents : List Content) :
    (Block.mk id type args contents).isFork = (type == Operation.forkExecution.tag) := rfl

theorem Block.isFork_iff {b : Block} : b.isFork = true ↔ b.type = Operation.forkExecution.tag := by
  simp [Block.isFork]

end BlockFlow
