import BlockFlow.Graph.Basic
import BlockFlow.Json.Display

/-! The invariants of linked graphs: every block has an id of its own, and references lead to
blocks. -/

namespace BlockFlow

/-- A violation. -/
inductive Problem
  | noId (type : String)
  | duplicateId (id : Json)
  | noTarget (id : Json) (type : String)
  | unknownTarget (id : Json) (target : String)

def Problem.message : Problem → String
  | noId type => "Block of type '" ++ type ++ "' has no id"
  | duplicateId id => "Duplicate block id '" ++ id.plainText ++ "'"
  | noTarget id type =>
    "Block '" ++ id.plainText ++ "' of type '" ++ type ++ "' has no target"
  | unknownTarget id target =>
    "Block '" ++ id.plainText ++ "' targets unknown id '" ++ target ++ "'"

/-- An id that cannot be a key. -/
structure BadKey where
  id : Json

def BadKey.message (e : BadKey) : String := "unhashable type: '" ++ e.id.kindWord ++ "'"

def Json.key (id : Json) : Except BadKey Key :=
  match id.key? with
  | some key => .ok key
  | none => .error ⟨id⟩

def Block.hasId (b : Block) : Bool := b.id.truthy

/-- The ids of blocks, those that are present. -/
def Graph.ids (g : Graph) : List Json :=
  g.blocks.filterMap fun b =>
    match b.id with
    | .null => none
    | id => some id

/-- The keys of the ids that blocks have. -/
def blockKeys : List Block → Except BadKey (List Key)
  | [] => .ok []
  | b :: rest =>
    if b.hasId then do return (← b.id.key) :: (← blockKeys rest) else blockKeys rest

/-- Missing and repeated ids, with the keys seen before. -/
def idProblems (seen : List Key) : List Block → List Problem
  | [] => []
  | b :: rest =>
    if b.hasId then
      match b.id.key? with
      | some key =>
        if key ∈ seen then .duplicateId b.id :: idProblems seen rest
        else idProblems (key :: seen) rest
      | none => idProblems seen rest
    else .noId b.type :: idProblems seen rest

def isLinkPrimitive (type : String) : Bool :=
  match Operation.ofTag? type with
  | some operation => operation.linkPrimitive
  | none => false

/-- The id that a block refers to: the first literal among listed arguments. -/
def Args.target? : Args → Option String
  | .list args => (Arg.constants args).head?
  | _ => none

def targetProblem? (keys : List Key) (b : Block) : Option Problem :=
  if isLinkPrimitive b.type then
    match b.args.target? with
    | none => some (.noTarget b.id b.type)
    | some target =>
      if Key.str target ∈ keys then none else some (.unknownTarget b.id target)
  else none

/-- Every violation in a graph. -/
def Graph.verify (g : Graph) : Except BadKey (List Problem) := do
  let keys ← blockKeys g.blocks
  return idProblems [] g.blocks ++ g.blocks.filterMap (targetProblem? keys)

end BlockFlow
