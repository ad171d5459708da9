import BlockFlow.Ids
import BlockFlow.Report
import BlockFlow.Verification

/-! Linking: every block gets an id, and forks get joins. Behind a fork stands a block that waits for
its paths, and each path ends in a jump to that block. -/

namespace BlockFlow

/-- Why a tree cannot be linked. -/
inductive LinkError
  | forkInArgument (path : Path)
  | forkArguments (args : Args)
  | broken (problems : List Problem)
  | badKey (e : BadKey)

def forkInArgumentText : String := "Fork (op_fork_execution) cannot be used as an argument value"

namespace LinkError

def message : LinkError → String
  | forkInArgument path => forkInArgumentText ++ " at " ++ path.text
  | forkArguments (.call _ _ _) => "'CallServiceArgs' object is not iterable"
  | forkArguments _ => "'MonitorArgs' object is not iterable"
  | broken problems => "; ".intercalate (problems.map Problem.message)
  | badKey e => e.message

/-- What goes into the report. -/
def diagnostics : LinkError → List Diagnostic
  | forkInArgument path =>
    [⟨"FORK_IN_ARGUMENT", path.text, forkInArgumentText, .str "Move the fork into a block sequence"⟩]
  | broken problems => problems.map fun p => ⟨"LINK_INVARIANT", "", p.message, .null⟩
  | forkArguments _ | badKey _ => []

end LinkError

/-- Linking counts the ids it has taken, also those taken before a failure. -/
abbrev Linking := ExceptT LinkError (StateM Nat)

namespace Linking

/-- Takes the next id. -/
def takeId (idAt : Nat → String) : Linking String := do
  let n ← getModify (· + 1)
  return idAt n

def constant (id : String) : Args := .list [.constant id]

/-- The join of a fork with these arguments. -/
def joinType (args : List Arg) : Operation :=
  if exitWhenFirstCompleted ∈ Arg.constants args then .triggerWhenFirstCompleted
  else .triggerWhenAllCompleted

end Linking

open Linking

variable (idAt : Nat → String)

mutual

/-- A linked block, and its join if it is a fork. -/
def linkBlock (path : Path) : Block → Linking (List Block)
  | .mk _ type args contents => do
    let id ← takeId idAt
    let args ← linkArgs path args
    if type = Operation.forkExecution.tag then
      match args with
      | .list listed =>
        let join := joinType listed
        let joinId ← takeId idAt
        let paths ← linkPaths path.contents joinId 0 contents
        return [.mk (.str id) type args paths, .mk (.str joinId) join.tag (constant id) []]
      | args => throw (.forkArguments args)
    else
      return [.mk (.str id) type args (← linkContents path.contents 0 contents)]

def linkArgs (path : Path) : Args → Linking Args
  | .list args => do return .list (← linkArgList path.args 0 args)
  | .monitor descriptor => return .monitor descriptor
  | .call serviceId serviceAction values => do
    return .call serviceId serviceAction (← linkArgList path.callValues 0 values)

/-- Arguments from the position `i` on. An argument leaves no place for a join. -/
def linkArgList (path : Path) (i : Nat) : List Arg → Linking (List Arg)
  | [] => return []
  | .constant value :: rest => return .constant value :: (← linkArgList path (i + 1) rest)
  | .block blocks :: rest => do
    if blocks.any Block.isFork then throw (.forkInArgument (path.index i))
    let linked ← linkBlocks (path.index i).value 0 blocks
    return .block linked :: (← linkArgList path (i + 1) rest)

/-- The paths of a fork from the position `i` on, each with its jump. -/
def linkPaths (path : Path) (joinId : String) (i : Nat) : List Content → Linking (List Content)
  | [] => return []
  | .group contents :: rest => do
    let body ← linkContents (path.index i).contents 0 contents
    let jump := .mk (.str (← takeId idAt)) Operation.jumpToBlock.tag (constant joinId) []
    return .group (body ++ [.block jump]) :: (← linkPaths path joinId (i + 1) rest)
  | .block b :: rest => do
    let body ← linkBlock ((path.index i).index 0) b
    let jump := .mk (.str (← takeId idAt)) Operation.jumpToBlock.tag (constant joinId) []
    return .group ((body ++ [jump]).map .block) :: (← linkPaths path joinId (i + 1) rest)

/-- A sequence from the position `i` on. -/
def linkContents (path : Path) (i : Nat) : List Content → Linking (List Content)
  | [] => return []
  | .group contents :: rest => do
    let body ← linkContents (path.index i).contents 0 contents
    return .group body :: (← linkContents path (i + 1) rest)
  | .block b :: rest => do
    let linked ← linkBlock (path.index i) b
    return linked.map .block ++ (← linkContents path (i + 1) rest)

/-- A sequence of blocks from the position `i` on. -/
def linkBlocks (path : Path) (i : Nat) : List Block → Linking (List Block)
  | [] => return []
  | b :: rest => do
    let linked ← linkBlock (path.index i) b
    return linked ++ (← linkBlocks path (i + 1) rest)

end

/-- Links a tree and checks the result. -/
def linkGraph (tree : Graph) : Linking Graph := do
  let linked ← linkBlocks idAt .top 0 tree
  match Graph.verify linked with
  | .ok [] => return linked
  | .ok problems => throw (.broken problems)
  | .error e => throw (.badKey e)

/-- Links a tree with ids from a supply. The ids taken are gone also where linking fails. -/
def IdSupply.link (s : IdSupply) (tree : Graph) : Except LinkError Graph × IdSupply :=
  let (result, taken) := (linkGraph s.idAt tree).run.run 0
  (result, s.advance taken)

end BlockFlow
