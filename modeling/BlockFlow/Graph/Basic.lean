import BlockFlow.Json.Basic
import BlockFlow.Operation

/-! Compiled flow graphs: trees of blocks. -/

namespace BlockFlow

mutual

/-- One operation. An id may be any value, and `null` means that the block has none. -/
inductive Block
  | mk (id : Json) (type : String) (args : Args) (contents : List Content)

/-- A member of a sequence: a block, or an anonymous body. -/
inductive Content
  | block (block : Block)
  | group (contents : List Content)

/-- An argument: a literal, always a text, or nested blocks. -/
inductive Arg
  | constant (value : String)
  | block (value : List Block)

/-- The arguments of a block: a list, the descriptor of a monitor as it came, or a service call. -/
inductive Args
  | list (args : List Arg)
  | monitor (descriptor : List (String × Json))
  | call (serviceId serviceAction : Json) (values : List Arg)

end

abbrev Graph := List Block

namespace Block

def id : Block → Json
  | mk id _ _ _ => id

def type : Block → String
  | mk _ type _ _ => type

def args : Block → Args
  | mk _ _ args _ => args

def contents : Block → List Content
  | mk _ _ _ contents => contents

def isFork (b : Block) : Bool := b.type == Operation.forkExecution.tag

end Block

/-- The literals among arguments. -/
def Arg.constants (args : List Arg) : List String :=
  args.filterMap fun
    | .constant value => some value
    | .block _ => none

mutual

/-- A block, the blocks in its arguments, and those in its contents: parents before children. -/
def Block.blocks : Block → List Block
  | .mk id type args contents =>
    .mk id type args contents :: (Args.blocks args ++ Content.listBlocks contents)

def Args.blocks : Args → List Block
  | .list args => Arg.listBlocks args
  | .monitor _ => []
  | .call _ _ values => Arg.listBlocks values

def Arg.listBlocks : List Arg → List Block
  | [] => []
  | .constant _ :: rest => Arg.listBlocks rest
  | .block value :: rest => Block.listBlocks value ++ Arg.listBlocks rest

def Content.listBlocks : List Content → List Block
  | [] => []
  | .block b :: rest => Block.blocks b ++ Content.listBlocks rest
  | .group contents :: rest => Content.listBlocks contents ++ Content.listBlocks rest

def Block.listBlocks : List Block → List Block
  | [] => []
  | b :: rest => Block.blocks b ++ Block.listBlocks rest

end

/-- Every block of a graph. -/
def Graph.blocks (g : Graph) : List Block := Block.listBlocks g

end BlockFlow
