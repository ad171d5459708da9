import BlockFlow.Graph.Basic
import BlockFlow.Json.Printer
import BlockFlow.Report
import BlockFlow.Traced

/-! Lowering: a source program becomes a tree of blocks without ids. In the source an operation is an
array with its tag in front. -/

namespace BlockFlow

/-- Why a source is no program. -/
inductive LowerError
  | notASequence (found : Json)
  | emptyOperation (path : Path)
  | tagNotText (operation : List Json) (found : Json)
  | noDescriptor (operation : List Json) (path : Path)
  | noCall (operation : List Json) (path : Path)
  | noCondition (operation : List Json) (path : Path)
  | tooManyBranches (operation : List Json) (count : Nat) (path : Path)

namespace LowerError

/-- The part of the source that is at fault. -/
def culprit : LowerError → Json
  | notASequence found => found
  | emptyOperation _ => .arr []
  | tagNotText operation _ | noDescriptor operation _ | noCall operation _ | noCondition operation _
  | tooManyBranches operation _ _ => .arr operation

def message (e : LowerError) : String :=
  "ASTCompilationError: " ++
    match e with
    | notASequence found =>
      "Expected argument array, found: " ++ found.text .line ++
        ". Check for errors on argument nesting"
    | emptyOperation path => "Empty operation at " ++ path.text
    | tagNotText _ found => "Operation discriminant must be a string, found: " ++ found.text .line
    | noDescriptor _ path => "wait_for_monitor expects a monitor descriptor at " ++ path.text
    | noCall _ path => "command_call_service expects a service call object at " ++ path.text
    | noCondition _ path => "control_if_else is missing its condition at " ++ path.text
    | tooManyBranches _ count path =>
      "control_if_else takes at most two branches, found " ++ toString count ++ " at " ++ path.text

end LowerError

/-- The text of an integer in an argument slot: all its digits below `1e21`, as a double beyond. -/
def slotInteger (n : Int) : String :=
  if n.natAbs < Nat.pow 10 21 then toString n else (Double.ofInt n).text .slot

abbrev Lowering := Traced Warning LowerError

namespace Lowering

/-- The branches of a conditional: a second, empty one where fewer than two are given. -/
def withElse (branches : List Content) : List Content :=
  if branches.length < 2 then branches ++ [.group []] else branches

/-- Warns of a fork with fewer than `least` paths. -/
def checkPaths (least : Int) (path : Path) (paths : List Content) : Lowering Unit :=
  if (paths.length : Int) < least then Traced.emit (.degenerateFork path least) else pure ()

/-- A wait for a monitor keeps the descriptor as it is. -/
def lowerMonitor (path : Path) (tag : String) : List Json → Lowering Block
  | .obj descriptor :: _ => pure (.mk .null tag (.monitor descriptor) [])
  | fields => .fail (.noDescriptor (.str tag :: fields) path)

end Lowering

open Lowering

mutual

/-- A literal becomes a constant and a nested operation a block. -/
def lowerArgument (least : Int) (path : Path) : Json → Lowering Arg
  | .str text => pure (.constant text)
  | .bool b => pure (.constant (if b then "true" else "false"))
  | .int n => pure (.constant (slotInteger n))
  | .float x => pure (.constant (x.text .slot))
  | .arr items => do return .block [← lowerItems least path items]
  | .null => .fail (.notASequence .null)
  | .obj fields => .fail (.notASequence (.obj fields))

def lowerOperation (least : Int) (path : Path) : Json → Lowering Block
  | .arr items => lowerItems least path items
  | v => .fail (.notASequence v)

/-- An operation, given by the items of its array. -/
def lowerItems (least : Int) (path : Path) : List Json → Lowering Block
  | [] => .fail (.emptyOperation path)
  | .str tag :: fields =>
    match Operation.ofTag? tag with
    | some .waitForMonitor => lowerMonitor path tag fields
    | some .callService => lowerCall least path tag fields
    | some .ifElse => lowerConditional least path tag fields
    | some .forkExecution => lowerFork least path tag fields
    | _ => do return .mk .null tag (.list (← lowerArguments least path.args 0 fields)) []
  | tag :: fields => .fail (.tagNotText (tag :: fields) tag)

def lowerCall (least : Int) (path : Path) (tag : String) : List Json → Lowering Block
  | .obj call :: _ => do
    let values ← lowerCallValues least path call
    return .mk .null tag
      (.call (Json.fieldOrNull call "service_id") (Json.fieldOrNull call "service_action") values) []
  | fields => .fail (.noCall (.str tag :: fields) path)

/-- A conditional. Its branches are lowered before its condition. -/
def lowerConditional (least : Int) (path : Path) (tag : String) : List Json → Lowering Block
  | [] => .fail (.noCondition [.str tag] path)
  | condition :: branches =>
    if 2 < branches.length then
      .fail (.tooManyBranches (.str tag :: condition :: branches) branches.length path)
    else do
      let contents ← lowerBodies least path 0 branches
      let argument ← lowerArgument least (path.args.index 0) condition
      return .mk .null tag (.list [argument]) (withElse contents)

/-- A fork. Its paths are lowered, and counted, before its arguments. -/
def lowerFork (least : Int) (path : Path) (tag : String) : List Json → Lowering Block
  | [] => do
    checkPaths least path []
    return .mk .null tag (.list []) []
  | [.arr args] => do
    checkPaths least path []
    return .mk .null tag (.list (← lowerArguments least path.args 0 args)) []
  | .arr args :: .arr paths :: _ => do
    let contents ← lowerBodies least path 0 paths
    checkPaths least path contents
    return .mk .null tag (.list (← lowerArguments least path.args 0 args)) contents
  | .arr _ :: paths :: _ => .fail (.notASequence paths)
  | args :: _ => .fail (.notASequence args)

/-- Arguments from the position `i` on. -/
def lowerArguments (least : Int) (path : Path) (i : Nat) : List Json → Lowering (List Arg)
  | [] => pure []
  | item :: rest => do
    let arg ← lowerArgument least (path.index i) item
    return arg :: (← lowerArguments least path (i + 1) rest)

/-- The values among the fields of a service call. -/
def lowerCallValues (least : Int) (path : Path) : List (String × Json) → Lowering (List Arg)
  | [] => pure []
  | (name, v) :: rest =>
    if name = "service_call_values" then
      match v with
      | .arr items => lowerArguments least path.callValues 0 items
      | v => if v.truthy then .fail (.notASequence v) else pure []
    else lowerCallValues least path rest

/-- Bodies of branches or paths from the position `i` on. -/
def lowerBodies (least : Int) (path : Path) (i : Nat) : List Json → Lowering (List Content)
  | [] => pure []
  | .arr operations :: rest => do
    let body ← lowerSequence least (path.contents.index i) 0 operations
    return .group (body.map .block) :: (← lowerBodies least path (i + 1) rest)
  | v :: _ => .fail (.notASequence v)

/-- Operations from the position `i` on. -/
def lowerSequence (least : Int) (path : Path) (i : Nat) : List Json → Lowering (List Block)
  | [] => pure []
  | operation :: rest => do
    let block ← lowerOperation least (path.index i) operation
    return block :: (← lowerSequence least path (i + 1) rest)

end

/-- A whole program, or an operation list at `path`. -/
def lowerProgram (least : Int) (path : Path) : Json → Lowering Graph
  | .arr operations => lowerSequence least path 0 operations
  | v => .fail (.notASequence v)

end BlockFlow
