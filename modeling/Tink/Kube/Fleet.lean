import Tink.Kube.Contexts
import Tink.Worker.Announce
import Tink.Worker.Process

/-!
# A fleet of workers on the Kubernetes backend

The server, the controller and any number of workers, at most one process for each worker id.  A process runs
`ProcessWorkflowActions`: it polls for contexts, which the server computes from one listing of the stored workflows,
takes them from the stream one after the other, reads the action list and works on each.  Processes crash and start
again; reports are answered, or lost on the way there or back; the controller reconciles any workflow at any time;
workflows are created, under names that were not used before, and deleted.

Each of these is one move.  A reconciliation reads the workflow as it is stored and writes its patch with nothing in
between, so no patch is stale; a poll lists the workflows as they are stored, and not an older version from a cache;
and a report is sent, handled and answered, or lost, before anything else happens.
-/

namespace Tink.Kube.Fleet

open Machine Worker

/-- Here a stream is served in one step, so a process is no more than any worker's. -/
abbrev Process := Worker.Process

/-- The workflows there have been, the names of the deleted ones, and the processes. -/
structure System where
  objects : List Workflow := []
  deleted : List String := []
  live : Processes Process := fun _ => none

/-- What the API server holds. -/
def System.stored (x : System) : List Workflow := x.objects.filter fun wf => wf.name ∉ x.deleted

/-- `getWorkflowByName`. -/
def System.getWorkflowByName (x : System) (getErr : Option String) (workflowID : String) : Except String Workflow :=
  match getErr with
  | some e => .error e
  | none =>
    match x.stored.find? fun wf => wf.name = workflowID with
    | none => .error (workflowID ++ " not found")
    | some wf => .ok wf

/-- `KubernetesBackedServer.GetWorkflowActions`. -/
def System.getWorkflowActions (x : System) (getErr : Option String) (wfID : String) :
    Except StreamError (List WorkflowAction) :=
  if wfID = "" then .error (.status ⟨.invalidArgument, errInvalidWorkflowID⟩)
  else
    match x.getWorkflowByName getErr wfID with
    | .error e => .error (.other e)
    | .ok wf => .ok (workflowActionListCRDToProto wf)

/-- An event of the stored workflow of the given name. -/
def System.onWorkflow (r : Template.Renderer TemplateData) (x : System) (name : String) (e : Event) : System :=
  { x with objects := x.objects.map fun wf => if wf.name = name ∧ name ∉ x.deleted then Kube.step r wf e else wf }

/-- The system after a report, and whether the worker has got an answer without an error. -/
def System.deliver (r : Template.Renderer TemplateData) (x : System) (d : Delivery) (env : ReportEnv)
    (req : WorkflowActionStatus) : System × Bool :=
  match d with
  | .answered =>
    (x.onWorkflow r req.workflowId (.report env req),
      match x.stored.find? fun wf => wf.name = req.workflowId with
      | none => false
      | some wf =>
        match reportActionStatus env wf req with
        | .ok _ => true
        | .error _ => false)
  | .lost => (x.onWorkflow r req.workflowId (.report env req), false)
  | .undelivered => (x, false)

namespace Process

/-- `GetWorkflowContexts`, called when the stream before it has ended. -/
def poll (w : String) (x : System) (env : StreamEnv) (p : Process) : Process :=
  match p.current, p.sent with
  | none, [] => { p with sent := (getWorkflowContexts env x.stored w).1 }
  | _, _ => p

/-- The process takes the next context from its stream and reads the action list. -/
def receive (w : String) (x : System) (getErr : Option String) (p : Process) : Option Process :=
  match p.current, p.sent with
  | none, c :: cs =>
    match x.getWorkflowActions getErr c.workflowId with
    | .error _ => none
    | .ok actions => { p with sent := cs }.resume (processContext ⟨w, p.retries⟩ c actions)
  | _, _ => some p

/-- The workflows a process has to do with. -/
def ids (p : Process) : List String :=
  (p.current.toList.map fun j => j.wfContext.workflowId) ++ p.sent.map WorkflowContext.workflowId

end Process

/-- What happens to a report, and what a lap of the loop meets otherwise. -/
structure Input extends Lap where
  delivery : Delivery := .answered
  env : ReportEnv

inductive Move where
  | create (wf : Workflow)
  | delete (name : String)
  | reconcile (name : String) (env : ReconcileEnv)
  | start (w : String) (retries : Nat)
  | crash (w : String)
  | poll (w : String) (env : StreamEnv)
  | cut (w : String) (k : Nat)
  | receive (w : String) (getErr : Option String)
  | work (w : String) (i : Input)

/-- A workflow is created without a status, if its name was not used before. -/
def System.create (x : System) (wf : Workflow) : System :=
  if wf.name ∈ x.objects.map Workflow.name then x else { x with objects := x.objects ++ [{ wf with status := {} }] }

/-- A process starts, if there is none of this worker. -/
def System.start (x : System) (w : String) (retries : Nat) : System :=
  { x with live := x.live.start w { retries := retries } }

def System.onProcess (x : System) (w : String) (f : Process → Option Process) : System :=
  { x with live := x.live.onProcess w f }

/-- A process executes, or sends a report, which is handled and answered, or lost, before anything else happens. -/
def System.work (r : Template.Renderer TemplateData) (x : System) (w : String) (i : Input) : System :=
  match x.live w with
  | none => x
  | some p =>
    match p.current with
    | none => x
    | some j =>
      match sends (.ok (.job j)) with
      | none => { x with live := Function.update x.live w (p.resume (j.step ⟨w, p.retries⟩ { i.toLap with })) }
      | some (_, req) =>
        let y := x.deliver r i.delivery i.env req
        { y.1 with
          live := Function.update x.live w
            (p.resume (j.step ⟨w, p.retries⟩ { i.toLap with acknowledged := y.2 })) }

def step (r : Template.Renderer TemplateData) (x : System) : Move → System
  | .create wf => x.create wf
  | .delete name => { x with deleted := name :: x.deleted }
  | .reconcile name env => x.onWorkflow r name (.reconcile env)
  | .start w retries => x.start w retries
  | .crash w => x.onProcess w fun _ => none
  | .poll w env => x.onProcess w fun p => some (p.poll w x env)
  | .cut w k => x.onProcess w fun p => some (p.cut k)
  | .receive w getErr => x.onProcess w fun p => p.receive w x getErr
  | .work w i => x.work r w i

/-- Worker `w` is executing the action of these names in the workflow `id`. -/
def Executes (x : System) (w id task action : String) : Prop :=
  ∃ p j, x.live w = some p ∧ p.current = some j ∧ j.phase = .execute ∧ j.wfContext.workflowId = id ∧
    j.action.taskName = task ∧ j.action.name = action

end Tink.Kube.Fleet
