import BlockFlow.Graph.Printer
import BlockFlow.Json.Printer
import BlockFlow.Report
import BlockFlow.Traced
import BlockFlow.Verification

/-! Canonical forms: graphs without ids, in which the order of commutative arguments and of
concurrent paths is settled, so that equal programs have equal forms. -/

namespace BlockFlow

/-- One text for each value, up to the order of keys. -/
def Json.stableText (v : Json) : String := v.text .stable

/-- The order of values by their stable texts. -/
def Json.compare (a b : Json) : Ordering := compareOfLessAndEq a.stableText b.stableText

/-- Sorts by the stable text of the JSON form; equal texts stay in place. -/
def sortByText {α : Type} (toJson : α → Json) (items : List α) : List α :=
  let keyed := items.map fun a => ((toJson a).stableText, a)
  (keyed.mergeSort fun a b => decide (a.1 ≤ b.1)).map Prod.snd

mutual

def Block.withoutIds : Block → Block
  | .mk _ type args contents => .mk .null type (Args.withoutIds args) (Content.dropIds contents)

def Content.withoutIds : Content → Content
  | .block b => .block (Block.withoutIds b)
  | .group contents => .group (Content.dropIds contents)

def Arg.withoutIds : Arg → Arg
  | .constant value => .constant value
  | .block value => .block (Block.dropIds value)

def Args.withoutIds : Args → Args
  | .list args => .list (Arg.dropIds args)
  | .monitor descriptor => .monitor descriptor
  | .call serviceId serviceAction values => .call serviceId serviceAction (Arg.dropIds values)

def Block.dropIds : List Block → List Block
  | [] => []
  | b :: rest => Block.withoutIds b :: Block.dropIds rest

def Content.dropIds : List Content → List Content
  | [] => []
  | c :: rest => Content.withoutIds c :: Content.dropIds rest

def Arg.dropIds : List Arg → List Arg
  | [] => []
  | a :: rest => Arg.withoutIds a :: Arg.dropIds rest

end

/-- Why a graph has no canonical form. -/
inductive CanonicalError
  | unknownOperation (tag : String)
  | badKey (e : BadKey)

def CanonicalError.message : CanonicalError → String
  | unknownOperation tag => "Unknown operation: " ++ tag
  | badKey e => e.message

abbrev Canonicalizing := Traced Warning CanonicalError

namespace Canonicalizing

/-- How a block is treated. -/
inductive Treatment
  | stripped
  | ordered
  | serviceCall
  | commutative
  | fork
  | unknown
deriving DecidableEq

def Treatment.ofTag (tag : String) : Treatment :=
  match TagKind.ofTag tag with
  | .custom => .ordered
  | .unknown => .unknown
  | .known operation =>
    if operation.stateless then .stripped
    else if operation.orderSensitive then .ordered
    else if operation.commutative then .commutative
    else if operation = .callService then .serviceCall
    else .fork

/-- In a linking primitive, an id gives way to the type of the block that has it. -/
def resolveReferences (typeOf : String → Option String) (tag : String) : Args → Args
  | .list args =>
    if isLinkPrimitive tag then
      .list (args.map fun
        | .constant value => .constant ((typeOf value).elim value ("@" ++ ·))
        | arg => arg)
    else .list args
  | args => args

/-- Arguments in canonical order. -/
def sortArgs : Args → Args
  | .list args => .list (sortByText Arg.toJson args)
  | args => args

/-- Fork arguments without the one that states the default. -/
def dropDefaultExit : Args → Args
  | .list args => .list (args.filter fun
    | .constant value => value != exitWhenAllCompleted
    | .block _ => true)
  | args => args

end Canonicalizing

open Canonicalizing

variable (strict : Bool) (typeOf : String → Option String)

mutual

def canonicalBlock (path : Path) : Block → Canonicalizing Block
  | .mk _ type args contents =>
    match Treatment.ofTag type with
    | .stripped =>
      pure (.mk .null type (resolveReferences typeOf type (Args.withoutIds args))
        (Content.dropIds contents))
    | .ordered => do
      let args ← canonicalArgs path args
      let contents ← canonicalContents path.contents 0 contents
      return .mk .null type (resolveReferences typeOf type args) contents
    | .serviceCall => do
      let args ← canonicalCall path args
      return .mk .null type args (Content.dropIds contents)
    | .commutative => do
      let args ← canonicalArgs path args
      return .mk .null type (sortArgs args) (Content.dropIds contents)
    | .fork => do
      let args ← canonicalArgs path args
      let paths ← canonicalContents path.contents 0 contents
      return .mk .null type (dropDefaultExit args) (sortByText Content.toJson paths)
    | .unknown =>
      if strict then .fail (.unknownOperation type)
      else do
        Traced.emit (.unknownOperation path type)
        return .mk .null type (Args.withoutIds args) (Content.dropIds contents)

/-- Listed arguments are made canonical; others only lose their ids. -/
def canonicalArgs (path : Path) : Args → Canonicalizing Args
  | .list args => do return .list (← canonicalArgList path.args 0 args)
  | args => pure (Args.withoutIds args)

/-- The values of a service call are made canonical; other arguments only lose their ids. -/
def canonicalCall (path : Path) : Args → Canonicalizing Args
  | .call serviceId serviceAction values => do
    return .call serviceId serviceAction (← canonicalArgList path.callValues 0 values)
  | args => pure (Args.withoutIds args)

/-- Arguments from the position `i` on. -/
def canonicalArgList (path : Path) (i : Nat) : List Arg → Canonicalizing (List Arg)
  | [] => pure []
  | .constant value :: rest => do
    return .constant value :: (← canonicalArgList path (i + 1) rest)
  | .block blocks :: rest => do
    let blocks ← canonicalBlocks (path.index i).value 0 blocks
    return .block blocks :: (← canonicalArgList path (i + 1) rest)

/-- Contents from the position `i` on. -/
def canonicalContents (path : Path) (i : Nat) : List Content → Canonicalizing (List Content)
  | [] => pure []
  | .block b :: rest => do
    let b ← canonicalBlock (path.index i) b
    return .block b :: (← canonicalContents path (i + 1) rest)
  | .group contents :: rest => do
    let contents ← canonicalContents (path.index i).contents 0 contents
    return .group contents :: (← canonicalContents path (i + 1) rest)

/-- Blocks from the position `i` on. -/
def canonicalBlocks (path : Path) (i : Nat) : List Block → Canonicalizing (List Block)
  | [] => pure []
  | b :: rest => do
    let b ← canonicalBlock (path.index i) b
    return b :: (← canonicalBlocks path (i + 1) rest)

end

/-- The type of the last block that has a key. -/
def typeOfKey (key : Key) : List Block → Option String
  | [] => none
  | b :: rest =>
    (typeOfKey key rest).or
      (if b.hasId && b.id.key? == some key then some b.type else none)

/-- The canonical form of a graph. With `strict`, unknown operations have none. -/
def Graph.canonical (strict : Bool) (g : Graph) : Canonicalizing Graph :=
  match blockKeys g.blocks with
  | .error e => .fail (.badKey e)
  | .ok _ => canonicalBlocks strict (fun id => typeOfKey (.str id) g.blocks) .top 0 g

/-- The canonical forms of graphs, as a collection without order. -/
def canonicalList (strict : Bool) (graphs : List Graph) : Canonicalizing (List Graph) := do
  return sortByText Graph.toJson (← graphs.mapM (Graph.canonical strict))

end BlockFlow
