import BlockFlow.Graph.Parser

/-! Graphs given as values of unknown form. Only an array that starts with an object is read as a
graph; an empty value is an empty graph, and the rest is refused. -/

namespace BlockFlow

/-- Why a value cannot be taken for a graph. -/
inductive FormError
  | malformed (e : GraphError)
  | notABlock (found : Json)
  | noFirstBlock
  | notASequence (found : Json)
  | nothing (found : Json)

def FormError.message : FormError → String
  | malformed e => e.message
  | notABlock found => "'" ++ found.kindWord ++ "' object has no attribute 'contents'"
  | noFirstBlock => "0"
  | notASequence found => "'" ++ found.kindWord ++ "' object is not subscriptable"
  | nothing found => "'" ++ found.kindWord ++ "' object is not iterable"

/-- The graph that a value gives. -/
def Graph.ofForm : Json → Except FormError Graph
  | .arr (.obj fields :: rest) => (Graph.ofJson (.arr (.obj fields :: rest))).mapError .malformed
  | .arr (item :: _) => .error (.notABlock item)
  | .arr [] | .obj [] => .ok []
  | .obj (_ :: _) => .error .noFirstBlock
  | .str text => if text = "" then .ok [] else .error (.notABlock (.str text))
  | v => .error (if v.truthy then .notASequence v else .nothing v)

end BlockFlow
