import Mathlib.Data.List.AList

/-!
# Messages of the workflow service

The part of `protos/workflow` that the servers, the controller and the worker exchange, and the gRPC errors the two
servers return.  A state is an open enumeration: a request may carry a number that no constant of the enum has, which
the generated table `State_name` maps to the empty string.
-/

namespace Tink

/-- A Go `map[string]string`; the order of the entries stands for the order in which a `range` meets them. -/
abbrev StringMap := AList (fun _ : String => String)

-- by the entries, so that it reduces
instance : DecidableEq StringMap := fun x y => decidable_of_iff (x.entries = y.entries) AList.ext_iff.symm

/-- `pb.State`, a 32-bit number of which five are declared. -/
inductive State where
  | pending
  | running
  | failed
  | timeout
  | success
  | unrecognized (n : Int) (h : n < 0 ∨ 4 < n)
deriving DecidableEq

namespace State

/-- The number on the wire. -/
def value : State → Int
  | pending => 0
  | running => 1
  | failed => 2
  | timeout => 3
  | success => 4
  | unrecognized n _ => n

/-- The state is one of the five constants of the enum. -/
def Declared : State → Prop
  | unrecognized _ _ => False
  | _ => True

instance : DecidablePred Declared
  | pending | running | failed | timeout | success => isTrue trivial
  | unrecognized _ _ => isFalse id

end State

/-- `v1alpha1.WorkflowState`: the empty string or the name of a declared state. -/
inductive WorkflowState where
  | unset
  | pending
  | running
  | failed
  | timeout
  | success
deriving DecidableEq, Repr

/-- `State_name`: a missing key reads as the empty string. -/
def stateName : State → WorkflowState
  | .pending => .pending
  | .running => .running
  | .failed => .failed
  | .timeout => .timeout
  | .success => .success
  | .unrecognized _ _ => .unset

/-- `State_value`: a missing key reads as 0. -/
def stateValue : WorkflowState → State
  | .unset => .pending
  | .pending => .pending
  | .running => .running
  | .failed => .failed
  | .timeout => .timeout
  | .success => .success

/-- `pb.WorkflowContext`. -/
structure WorkflowContext where
  workflowId : String := ""
  currentWorker : String := ""
  currentTask : String := ""
  currentAction : String := ""
  currentActionIndex : Int := 0
  currentActionState : State := .pending
  totalNumberOfActions : Int := 0
deriving DecidableEq

/-- `pb.WorkflowAction`. -/
structure WorkflowAction where
  taskName : String
  name : String
  image : String := ""
  timeout : Int := 0
  command : List String := []
  onTimeout : List String := []
  onFailure : List String := []
  workerId : String
  volumes : List String := []
  environment : List String := []
  pid : String := ""
deriving DecidableEq

/-- `isLastAction`, which the server and the worker define alike. -/
def isLastAction (c : WorkflowContext) (actions : List WorkflowAction) : Bool :=
  decide (c.currentActionIndex = (actions.length : Int) - 1)

/-- `pb.WorkflowActionStatus`, the report of a worker. -/
structure WorkflowActionStatus where
  workflowId : String
  taskName : String
  actionName : String
  actionStatus : State
  seconds : Int := 0
  message : String := ""
  workerId : String := ""
deriving DecidableEq

/-- The gRPC codes the two servers answer with. -/
inductive Code where
  | invalidArgument
  | failedPrecondition
  | aborted
deriving DecidableEq, Repr

/-- A gRPC error. -/
structure GrpcStatus where
  code : Code
  message : String
deriving DecidableEq, Repr

def errInvalidWorkerID : String := "invalid worker id"
def errInvalidWorkflowID : String := "invalid workflow id"
def errInvalidTaskName : String := "invalid task name"
def errInvalidActionName : String := "invalid action name"
def errInvalidTaskReported : String := "reported task name does not match the current action details"
def errInvalidActionReported : String := "reported action name does not match the current action details"
def errInvalidActionIndex : String := "invalid action index for workflow"

end Tink
