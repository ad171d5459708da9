/-! Where block ids come from. -/

namespace BlockFlow

/-- A way to make ids: a label with a running number, or ids drawn at random. -/
inductive IdStrategy
  | sequential (label : String)
  | uuid
deriving DecidableEq

/-- A supply of ids: `counter` have been made since the strategy was chosen, and `drawn` were drawn
at random since the beginning. -/
structure IdSupply where
  strategy : IdStrategy
  counter : Nat
  random : Nat → String
  drawn : Nat

namespace IdSupply

/-- The id that follows after `n` others. -/
def idAt (s : IdSupply) (n : Nat) : String :=
  match s.strategy with
  | .sequential label => label ++ toString (s.counter + n + 1)
  | .uuid => s.random (s.drawn + n)

/-- The supply after `n` ids. -/
def advance (s : IdSupply) (n : Nat) : IdSupply :=
  match s.strategy with
  | .sequential _ => { s with counter := s.counter + n }
  | .uuid => { s with counter := s.counter + n, drawn := s.drawn + n }

/-- A new strategy counts from the start. What was drawn stays drawn. -/
def switch (s : IdSupply) (strategy : IdStrategy) : IdSupply := { s with strategy, counter := 0 }

def start (random : Nat → String) (strategy : IdStrategy) : IdSupply := ⟨strategy, 0, random, 0⟩

end IdSupply

/-- No strategy has this name. -/
structure UnknownStrategy where
  name : String
deriving DecidableEq

def UnknownStrategy.message (e : UnknownStrategy) : String :=
  "Unknown block id strategy '" ++ e.name ++ "', expected one of: sequential, uuid"

/-- The strategy of a name, `label` being for a sequential one. -/
def IdStrategy.named (name label : String) : Except UnknownStrategy IdStrategy :=
  if name = "sequential" then .ok (.sequential label)
  else if name = "uuid" then .ok .uuid
  else .error ⟨name⟩

end BlockFlow
