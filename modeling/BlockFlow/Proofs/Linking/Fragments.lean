import Mathlib
import BlockFlow.Linking
import BlockFlow.Proofs.Graph.Blocks

/-! The parts of a tree that linking takes up. Its functions call each other, one for each kind of
part, and what holds of all of them is shown by one induction. -/

namespace BlockFlow

/-- A path of a fork as a sequence. A block can be a path on its own. -/
def Content.asPath : Content → List Content
  | .block b => [.block b]
  | .group contents => contents

/-- A part of a tree. The paths of a fork come with the id of its join. -/
inductive Fragment
  | block (b : Block)
  | arguments (args : Args)
  | argList (args : List Arg)
  | paths (joinId : String) (contents : List Content)
  | sequence (contents : List Content)
  | blockList (blocks : List Block)

/-- What a part is linked to. -/
abbrev Fragment.Linked : Fragment → Type
  | .block _ | .blockList _ => List Block
  | .arguments _ => Args
  | .argList _ => List Arg
  | .paths _ _ | .sequence _ => List Content

/-- Links the part at a path, from the position `i` on if it is a list. -/
def Fragment.link (idAt : Nat → String) (path : Path) (i : Nat) :
    (p : Fragment) → Linking p.Linked
  | .block b => linkBlock idAt path b
  | .arguments args => linkArgs idAt path args
  | .argList args => linkArgList idAt path i args
  | .paths joinId contents => linkPaths idAt path joinId i contents
  | .sequence contents => linkContents idAt path i contents
  | .blockList blocks => linkBlocks idAt path i blocks

/-- The blocks of a part, in the order of traversal. -/
def Fragment.before : Fragment → List Block
  | .block b => b.blocks
  | .arguments args => args.blocks
  | .argList args => Arg.listBlocks args
  | .paths _ contents | .sequence contents => Content.listBlocks contents
  | .blockList blocks => Block.listBlocks blocks

/-- The blocks of what a part is linked to. -/
def Fragment.after : (p : Fragment) → p.Linked → List Block
  | .block _, linked | .blockList _, linked => Block.listBlocks linked
  | .arguments _, linked => linked.blocks
  | .argList _, linked => Arg.listBlocks linked
  | .paths _ _, linked | .sequence _, linked => Content.listBlocks linked

theorem Fragment.before_pathsCons (joinId : String) (c : Content) (rest : List Content) :
    (Fragment.paths joinId (c :: rest)).before =
      (Fragment.sequence c.asPath).before ++ (Fragment.paths joinId rest).before := by
  cases c <;> simp [Fragment.before, Content.asPath, Content.listBlocks]

theorem Fragment.after_contentsBlock {contents : List Content} (linked : List Block)
    (rest : List Content) : (Fragment.sequence contents).after (linked.map .block ++ rest) =
      Block.listBlocks linked ++ Content.listBlocks rest := by
  simp [Fragment.after]

theorem Fragment.after_blocksCons {blocks : List Block} (linked rest : List Block) :
    (Fragment.blockList blocks).after (linked ++ rest) =
      Block.listBlocks linked ++ Block.listBlocks rest := by
  simp [Fragment.after]

/-- A measure for the induction; the id of a join does not count. -/
noncomputable def Fragment.size : Fragment → Nat
  | .block b => sizeOf b
  | .arguments args => sizeOf args
  | .argList args => sizeOf args
  | .paths _ contents | .sequence contents => sizeOf contents
  | .blockList blocks => sizeOf blocks

section

variable {P : Fragment → Prop}
  (block : ∀ id type args contents, P (.arguments args) → (∀ joinId, P (.paths joinId contents)) →
    P (.sequence contents) → P (.block (.mk id type args contents)))
  (list : ∀ args, P (.argList args) → P (.arguments (.list args)))
  (monitor : ∀ descriptor, P (.arguments (.monitor descriptor)))
  (call : ∀ serviceId serviceAction values, P (.argList values) →
    P (.arguments (.call serviceId serviceAction values)))
  (argsNil : P (.argList []))
  (argsConstant : ∀ value rest, P (.argList rest) → P (.argList (.constant value :: rest)))
  (argsBlock : ∀ value rest, P (.blockList value) → P (.argList rest) →
    P (.argList (.block value :: rest)))
  (pathsNil : ∀ joinId, P (.paths joinId []))
  (pathsCons : ∀ joinId c rest, P (.sequence c.asPath) → P (.paths joinId rest) →
    P (.paths joinId (c :: rest)))
  (contentsNil : P (.sequence []))
  (contentsGroup : ∀ contents rest, P (.sequence contents) → P (.sequence rest) →
    P (.sequence (.group contents :: rest)))
  (contentsBlock : ∀ b rest, P (.block b) → P (.sequence rest) → P (.sequence (.block b :: rest)))
  (blocksNil : P (.blockList []))
  (blocksCons : ∀ b rest, P (.block b) → P (.blockList rest) → P (.blockList (b :: rest)))

include block list monitor call argsNil argsConstant argsBlock pathsNil pathsCons contentsNil
  contentsGroup contentsBlock blocksNil blocksCons in
/-- What passes on to a part from the parts in it holds of every part. -/
@[elab_as_elim]
theorem Fragment.induction : ∀ p : Fragment, P p
  | .block (.mk id type args contents) =>
    block id type args contents (induction (.arguments args))
      (fun joinId => induction (.paths joinId contents)) (induction (.sequence contents))
  | .arguments (.list args) => list args (induction (.argList args))
  | .arguments (.monitor descriptor) => monitor descriptor
  | .arguments (.call serviceId serviceAction values) =>
    call serviceId serviceAction values (induction (.argList values))
  | .argList [] => argsNil
  | .argList (.constant value :: rest) => argsConstant value rest (induction (.argList rest))
  | .argList (.block value :: rest) =>
    argsBlock value rest (induction (.blockList value)) (induction (.argList rest))
  | .paths joinId [] => pathsNil joinId
  | .paths joinId (.block b :: rest) =>
    pathsCons joinId (.block b) rest (contentsBlock b [] (induction (.block b)) contentsNil)
      (induction (.paths joinId rest))
  | .paths joinId (.group contents :: rest) =>
    pathsCons joinId (.group contents) rest (induction (.sequence contents))
      (induction (.paths joinId rest))
  | .sequence [] => contentsNil
  | .sequence (.block b :: rest) =>
    contentsBlock b rest (induction (.block b)) (induction (.sequence rest))
  | .sequence (.group contents :: rest) =>
    contentsGroup contents rest (induction (.sequence contents)) (induction (.sequence rest))
  | .blockList [] => blocksNil
  | .blockList (b :: rest) => blocksCons b rest (induction (.block b)) (induction (.blockList rest))
termination_by p => p.size
decreasing_by all_goals simp [Fragment.size] <;> omega

end

end BlockFlow
