/-! Places in a tree of blocks, as diagnostics name them. -/

namespace BlockFlow

/-- One step down: a part of a block, or a position in a list. -/
inductive Step
  | args
  | callValues
  | value
  | contents
  | index (i : Nat)
deriving DecidableEq

def Step.text : Step → String
  | args => ".args"
  | callValues => ".service_call_values"
  | value => ".value"
  | contents => ".contents"
  | index i => "[" ++ toString i ++ "]"

/-- The steps from a named place. -/
structure Path where
  base : String
  steps : List Step
deriving DecidableEq

namespace Path

def ofBase (base : String) : Path := ⟨base, []⟩

/-- Where the top level of a graph lies. -/
def top : Path := ofBase ""

def push (p : Path) (step : Step) : Path := { p with steps := p.steps ++ [step] }

def index (p : Path) (i : Nat) : Path := p.push (.index i)

def args (p : Path) : Path := p.push .args

def callValues (p : Path) : Path := p.args.push .callValues

def value (p : Path) : Path := p.push .value

def contents (p : Path) : Path := p.push .contents

def text (p : Path) : String := p.base ++ String.join (p.steps.map Step.text)

end Path

end BlockFlow
