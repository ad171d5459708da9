/-! The operations of the block language, and what a tag names. -/

namespace BlockFlow

/-- The operations that have a meaning of their own. -/
inductive Operation
  | operatorAnd
  | operatorEquals
  | callService
  | waitForMonitor
  | flowLastValue
  | ifElse
  | forkExecution
  | jumpToPosition
  | jumpToBlock
  | triggerWhenAllCompleted
  | triggerWhenFirstCompleted
  | controlWait
  | flowModulo
  | flowSetValue
  | flowGetThreadId
  | operatorAdd
  | operatorLt
  | operatorGt
  | logValue
  | preloadGetter
  | setVariableTo
  | readVariable
  | lengthOfList
  | deleteOfList
  | addToList
deriving DecidableEq

namespace Operation

def tag : Operation → String
  | operatorAnd => "operator_and"
  | operatorEquals => "operator_equals"
  | callService => "command_call_service"
  | waitForMonitor => "wait_for_monitor"
  | flowLastValue => "flow_last_value"
  | ifElse => "control_if_else"
  | forkExecution => "op_fork_execution"
  | jumpToPosition => "jump_to_position"
  | jumpToBlock => "jump_to_block"
  | triggerWhenAllCompleted => "trigger_when_all_completed"
  | triggerWhenFirstCompleted => "trigger_when_first_completed"
  | controlWait => "control_wait"
  | flowModulo => "flow_modulo"
  | flowSetValue => "flow_set_value"
  | flowGetThreadId => "flow_get_thread_id"
  | operatorAdd => "operator_add"
  | operatorLt => "operator_lt"
  | operatorGt => "operator_gt"
  | logValue => "op_log_value"
  | preloadGetter => "op_preload_getter"
  | setVariableTo => "data_setvariableto"
  | readVariable => "data_variable"
  | lengthOfList => "data_lengthoflist"
  | deleteOfList => "data_deleteoflist"
  | addToList => "data_addtolist"

def all : List Operation :=
  [operatorAnd, operatorEquals, callService, waitForMonitor, flowLastValue, ifElse, forkExecution,
    jumpToPosition, jumpToBlock, triggerWhenAllCompleted, triggerWhenFirstCompleted, controlWait,
    flowModulo, flowSetValue, flowGetThreadId, operatorAdd, operatorLt, operatorGt, logValue,
    preloadGetter, setVariableTo, readVariable, lengthOfList, deleteOfList, addToList]

/-- The operation that a tag names. -/
def ofTag? (tag : String) : Option Operation := all.find? fun operation => operation.tag == tag

/-- No nested state to normalize. -/
def stateless : Operation → Bool
  | waitForMonitor | flowLastValue | jumpToPosition | jumpToBlock | triggerWhenFirstCompleted =>
    true
  | _ => false

/-- Arguments and contents count by their position. -/
def orderSensitive : Operation → Bool
  | controlWait | ifElse | triggerWhenAllCompleted | flowModulo | flowSetValue | flowGetThreadId
  | operatorAdd | operatorLt | operatorGt | logValue | preloadGetter | setVariableTo | readVariable
  | lengthOfList | deleteOfList | addToList => true
  | _ => false

/-- The order of the arguments carries no meaning. -/
def commutative : Operation → Bool
  | operatorAnd | operatorEquals => true
  | _ => false

/-- Generated by linking, with the id of another block as argument. -/
def linkPrimitive : Operation → Bool
  | jumpToBlock | triggerWhenAllCompleted | triggerWhenFirstCompleted => true
  | _ => false

end Operation

/-- Custom operations have their tags in one namespace. -/
def isCustomTag (tag : String) : Bool := "services.".toList.isPrefixOf tag.toList

/-- What a tag names. -/
inductive TagKind
  | known (operation : Operation)
  | custom
  | unknown
deriving DecidableEq

def TagKind.ofTag (tag : String) : TagKind :=
  match Operation.ofTag? tag with
  | some operation => .known operation
  | none => if isCustomTag tag then .custom else .unknown

/-- The fork argument that asks for a join of all paths, which is the default. -/
def exitWhenAllCompleted : String := "exit-when-all-completed"

/-- The fork argument that asks for a join with the first path to end. -/
def exitWhenFirstCompleted : String := "exit-when-first-completed"

end BlockFlow
