import Tink.Kube.Workflow

/-!
# Reporting to the Kubernetes-backed server

`ReportActionStatus` of `server/kubernetes_api_workflow.go`: read the workflow, compare the names in the request with
the current action, modify the status and write it back.  The context handed to `modifyWorkflowState` carries an index
counted over the whole workflow, and the search for the action compares it with the position inside one task.

With distinct names the search can only end at the cursor of the scan (`matchTask_cursor`), so a report is accepted
exactly when it names the current action and the number of successes before it is its position in its own task
(`Cursor.Accepts`), and it then changes this one action and the state of the workflow (`report_eq_ok`).
-/

namespace Tink.Kube

open GoTime

def getWorkflowContext (wf : Workflow) : WorkflowContext where
  workflowId := wf.name
  currentWorker := wf.getCurrentWorker
  currentTask := wf.getCurrentTask
  currentAction := wf.getCurrentAction
  currentActionIndex := wf.getCurrentActionIndex
  currentActionState := stateValue wf.getCurrentActionState
  totalNumberOfActions := wf.getTotalNumberOfActions

/-- The inner loop of the search in `modifyWorkflowState`: the position of the action with the name and the index of
the context. -/
def matchAction (c : WorkflowContext) : Nat → List Action → Option Nat
  | _, [] => none
  | ai, action :: actions =>
    if action.name = c.currentAction ∧ c.currentActionIndex = ai then some ai else matchAction c (ai + 1) actions

/-- The outer loop: `taskIndex` and `actionIndex` at the label `cont`, with `none` for -1. -/
def matchTask (c : WorkflowContext) : Nat → List Task → Option Nat → Option Nat × Option Nat
  | _, [], taskIndex => (taskIndex, none)
  | ti, task :: tasks, taskIndex =>
    if c.currentTask = task.name then
      match matchAction c 0 task.actions with
      | some ai => (some ti, some ai)
      | none => matchTask c (ti + 1) tasks (some ti)
    else matchTask c (ti + 1) tasks taskIndex

/-- An assignment to the fields of `tasks[ti].Actions[ai]`. -/
def modifyAction (tasks : List Task) (ti ai : Nat) (f : Action → Action) : List Task :=
  tasks.modify ti fun task => { task with actions := task.actions.modify ai f }

/-- The running time of an action that has a start time. -/
def setSeconds (now : Time) (action : Action) : Action :=
  match action.startedAt with
  | some t => { action with seconds := wholeSeconds (sub now t.time) }
  | none => action

/-- Modifies a workflow for a given workflow context. -/
def modifyWorkflowState (now : Time) (wf : Workflow) (c : WorkflowContext) : Except String Workflow :=
  match matchTask c 0 wf.status.tasks none with
  | (none, _) => .error "task not found"
  | (some _, none) => .error "action not found"
  | (some ti, some ai) =>
    let name := stateName c.currentActionState
    let write (f : Action → Action) (state : WorkflowState) : Workflow :=
      { wf with status := { wf.status with state := state, tasks := modifyAction wf.status.tasks ti ai f } }
    match c.currentActionState with
    -- nothing reads the start before it is stored
    | .running => .ok (write (fun a => { a with status := name, startedAt := some (.ofTime now) }) name)
    | .failed | .timeout => .ok (write (fun a => setSeconds now { a with status := name }) name)
    | .success =>
      .ok (write (fun a => setSeconds now { a with status := name })
        (if c.currentActionIndex + 1 = c.totalNumberOfActions then name else wf.status.state))
    | .pending => .error "no update requested"
    | .unrecognized _ _ => .ok (write (fun a => { a with status := name }) wf.status.state)

def validateActionStatusRequest (req : WorkflowActionStatus) : Except GrpcStatus Unit :=
  if req.workflowId = "" then .error ⟨.invalidArgument, errInvalidWorkflowID⟩
  else if req.taskName = "" then .error ⟨.invalidArgument, errInvalidTaskName⟩
  else if req.actionName = "" then .error ⟨.invalidArgument, errInvalidActionName⟩
  else .ok ()

def getWorkflowContextForRequest (req : WorkflowActionStatus) (wf : Workflow) : WorkflowContext :=
  { getWorkflowContext wf with
    currentWorker := req.workerId
    currentTask := req.taskName
    currentActionState := req.actionStatus
    currentActionIndex := wf.getCurrentActionIndex }

/-- What `ReportActionStatus` does to the workflow it has read, up to the update. -/
def applyReport (now : Time) (wf : Workflow) (req : WorkflowActionStatus) : Except GrpcStatus Workflow :=
  if req.taskName ≠ wf.getCurrentTask then .error ⟨.invalidArgument, errInvalidTaskReported⟩
  else if req.actionName ≠ wf.getCurrentAction then .error ⟨.invalidArgument, errInvalidActionReported⟩
  else
    match modifyWorkflowState now wf (getWorkflowContextForRequest req wf) with
    | .error _ => .error ⟨.invalidArgument, errInvalidWorkflowID⟩
    | .ok wf' => .ok wf'

/-- The clock and the answers of the API server during one `ReportActionStatus`. -/
structure ReportEnv where
  now : Time
  getErr : Option String := none
  updateErr : Option String := none

/-- `getWorkflowByName` on a store that holds the workflow `wf`. -/
def getWorkflowByName (env : ReportEnv) (wf : Workflow) (workflowID : String) : Except String Workflow :=
  match env.getErr with
  | some e => .error e
  | none => if workflowID = wf.name then .ok wf else .error (workflowID ++ " not found")

/-- `KubernetesBackedServer.ReportActionStatus` on a store that holds the workflow `wf`; the value is the workflow
written back. -/
def reportActionStatus (env : ReportEnv) (wf : Workflow) (req : WorkflowActionStatus) :
    Except GrpcStatus Workflow := do
  validateActionStatusRequest req
  match getWorkflowByName env wf req.workflowId with
  | .error _ => .error ⟨.invalidArgument, errInvalidWorkflowID⟩
  | .ok wf =>
    let wf' ← applyReport env.now wf req
    match env.updateErr with
    | some _ => .error ⟨.invalidArgument, errInvalidWorkflowID⟩
    | none => .ok wf'

/-! ### The search ends at the cursor -/

/-- The names that a validated template keeps apart. -/
structure UniqueNames (tasks : List Task) : Prop where
  taskNodup : (tasks.map Task.name).Nodup
  actionNodup : ∀ t ∈ tasks, (t.actions.map Action.name).Nodup

/-- The task list with the action at the cursor replaced. -/
def Cursor.replace (c : Cursor) (a : Action) : List Task :=
  c.before ++ { c.task with actions := c.done ++ a :: c.rest } :: c.after

/-- The index the scan reports at the cursor. -/
def Cursor.index (c : Cursor) : Nat := successes (actionsOf c.before) + successes c.done

theorem Cursor.replace_self (c : Cursor) : c.replace c.action = c.tasks := by
  simp only [replace, tasks, ← c.actions_eq]

private theorem modify_append_cons {α : Type} (l₁ l₂ : List α) (x : α) (f : α → α) :
    (l₁ ++ x :: l₂).modify l₁.length f = l₁ ++ f x :: l₂ := by
  induction l₁ with
  | nil => rfl
  | cons y l₁ ih => simp [ih]

private theorem Cursor.modifyAction_eq (c : Cursor) (f : Action → Action) :
    modifyAction c.tasks c.before.length c.done.length f = c.replace (f c.action) := by
  unfold modifyAction tasks replace
  rw [modify_append_cons, c.actions_eq, modify_append_cons]

private theorem matchAction_skip {c : WorkflowContext} (ai : Nat) {as : List Action} (bs : List Action)
    (h : ∀ a ∈ as, a.name ≠ c.currentAction) :
    matchAction c ai (as ++ bs) = matchAction c (ai + as.length) bs := by
  induction as generalizing ai with
  | nil => rfl
  | cons a as ih =>
    obtain ⟨ha, has⟩ := List.forall_mem_cons.1 h
    rw [List.cons_append, matchAction, if_neg (fun hc => ha hc.1), ih (ai + 1) has]
    congr 1
    simp; omega

private theorem matchTask_skip {c : WorkflowContext} (ti : Nat) {ts : List Task} (us : List Task) (x : Option Nat)
    (h : ∀ t ∈ ts, t.name ≠ c.currentTask) :
    matchTask c ti (ts ++ us) x = matchTask c (ti + ts.length) us x := by
  induction ts generalizing ti with
  | nil => rfl
  | cons t ts ih =>
    obtain ⟨ht, hts⟩ := List.forall_mem_cons.1 h
    rw [List.cons_append, matchTask, if_neg (fun hc => ht hc.symm), ih (ti + 1) hts]
    congr 1
    simp; omega

/-- An element of a list is told apart from the others by a key without repetitions. -/
private theorem key_ne_of_split {α β : Type} {key : α → β} {l₁ l₂ : List α} {x : α}
    (h : ((l₁ ++ x :: l₂).map key).Nodup) : (∀ y ∈ l₁, key y ≠ key x) ∧ ∀ y ∈ l₂, key y ≠ key x := by
  simp only [List.map_append, List.map_cons, List.nodup_append, List.nodup_cons, List.mem_map] at h
  obtain ⟨-, ⟨hx, -⟩, hdisj⟩ := h
  refine ⟨fun y hy => hdisj _ ⟨y, hy, rfl⟩ _ (by simp), fun y hy he => hx ⟨y, hy, he⟩⟩

theorem matchTask_cursor {c : Cursor} (hu : UniqueNames c.tasks) {ctx : WorkflowContext}
    (ht : ctx.currentTask = c.task.name) (ha : ctx.currentAction = c.action.name) :
    matchTask ctx 0 c.tasks none =
      (some c.before.length, if ctx.currentActionIndex = c.done.length then some c.done.length else none) := by
  obtain ⟨hbefore, hafter⟩ := key_ne_of_split
    (show ((c.before ++ c.task :: c.after).map Task.name).Nodup from hu.taskNodup)
  have hact := hu.actionNodup c.task (by simp [Cursor.tasks])
  rw [c.actions_eq] at hact
  obtain ⟨hdone, hrest⟩ := key_ne_of_split hact
  rw [← ht] at hbefore hafter
  rw [← ha] at hdone hrest
  rw [Cursor.tasks, matchTask_skip 0 _ none hbefore, matchTask, if_pos ht, c.actions_eq, matchAction_skip 0 _ hdone,
    matchAction]
  simp only [Nat.zero_add, ha, true_and]
  by_cases hi : ctx.currentActionIndex = c.done.length
  · simp only [hi, if_true]
  · have h1 := matchAction_skip (c.done.length + 1) [] hrest
    have h2 := matchTask_skip (c.before.length + 1) [] (some c.before.length) hafter
    rw [List.append_nil] at h1 h2
    simp only [hi, if_false, h1, matchAction, h2, matchTask]

/-! ### What a report does -/

/-- The action after a report of state `s`. -/
def reportedAction (now : Time) (s : State) (a : Action) : Action :=
  match s with
  | .running => { a with status := .running, startedAt := some (.ofTime now) }
  | .failed | .timeout | .success => setSeconds now { a with status := stateName s }
  | .pending | .unrecognized _ _ => { a with status := stateName s }

/-- The state of the workflow after a report of state `s`, where `last` says that the action is the last one. -/
def reportedState (s : State) (last : Prop) [Decidable last] (old : WorkflowState) : WorkflowState :=
  match s with
  | .running => .running
  | .failed => .failed
  | .timeout => .timeout
  | .success => if last then .success else old
  | .pending | .unrecognized _ _ => old

@[simp] theorem reportedAction_name (now : Time) (s : State) (a : Action) :
    (reportedAction now s a).name = a.name := by
  cases s <;> simp only [reportedAction, setSeconds] <;> split <;> rfl

@[simp] theorem reportedAction_status (now : Time) (s : State) (a : Action) :
    (reportedAction now s a).status = stateName s := by
  cases s <;> simp only [reportedAction, setSeconds, stateName] <;> split <;> rfl

/-- The workflow after an accepted report at the cursor. -/
def Cursor.reported (c : Cursor) (now : Time) (s : State) (wf : Workflow) : Workflow :=
  { wf with
    status := { wf.status with
      state := reportedState s (c.index + 1 = (actionsOf c.tasks).length) wf.status.state
      tasks := c.replace (reportedAction now s c.action) } }

/-- The request names the workflow and the action at the cursor. -/
structure Cursor.Named (c : Cursor) (wf : Workflow) (req : WorkflowActionStatus) : Prop where
  workflow : req.workflowId = wf.name
  task : req.taskName = c.task.name
  action : req.actionName = c.action.name
  task_ne : req.taskName ≠ ""
  action_ne : req.actionName ≠ ""

/-- The report is accepted at the cursor: the store answers, the request names the action, the action is preceded by
as many successes as there are actions before it in its own task, and the reported state is not `PENDING`. -/
structure Cursor.Accepts (c : Cursor) (wf : Workflow) (env : ReportEnv) (req : WorkflowActionStatus) : Prop where
  get : env.getErr = none
  update : env.updateErr = none
  named : c.Named wf req
  index : c.index = c.done.length
  status : req.actionStatus ≠ .pending

private theorem modifyWorkflowState_cursor {c : Cursor} {wf : Workflow} (hwf : wf.status.tasks = c.tasks)
    (hu : UniqueNames c.tasks) (now : Time) (ctx : WorkflowContext) (ht : ctx.currentTask = c.task.name)
    (ha : ctx.currentAction = c.action.name) (hi : ctx.currentActionIndex = c.index)
    (htot : ctx.totalNumberOfActions = (actionsOf c.tasks).length) :
    modifyWorkflowState now wf ctx =
      if c.index = c.done.length then
        if ctx.currentActionState = .pending then .error "no update requested"
        else .ok (c.reported now ctx.currentActionState wf)
      else .error "action not found" := by
  unfold modifyWorkflowState
  rw [hwf, matchTask_cursor hu ht ha, hi]
  have hlast : ((c.index : Int) + 1 = ((actionsOf c.tasks).length : Int)) ↔
      c.index + 1 = (actionsOf c.tasks).length := by
    omega
  by_cases hidx : c.index = c.done.length
  · simp only [hidx, if_true, c.modifyAction_eq]
    rw [← hidx, htot]
    cases hs : ctx.currentActionState <;>
      simp [Cursor.reported, reportedState, reportedAction, stateName, hlast]
  · have : ¬ (c.index : Int) = c.done.length := by omega
    simp [hidx, this]

private theorem applyReport_cursor {c : Cursor} {wf : Workflow} (hwf : wf.status.tasks = c.tasks)
    (hu : UniqueNames c.tasks) (now : Time) {req : WorkflowActionStatus} {wf' : Workflow} :
    applyReport now wf req = .ok wf' ↔
      req.taskName = c.task.name ∧ req.actionName = c.action.name ∧ c.index = c.done.length ∧
        req.actionStatus ≠ .pending ∧ wf' = c.reported now req.actionStatus wf := by
  have hinfo := c.info hwf
  unfold applyReport
  simp only [Workflow.getCurrentTask, Workflow.getCurrentAction, hinfo]
  by_cases ht : req.taskName = c.task.name
  · by_cases ha : req.actionName = c.action.name
    · have hm := modifyWorkflowState_cursor hwf hu now (getWorkflowContextForRequest req wf) ht
        (by simp [getWorkflowContextForRequest, getWorkflowContext, Workflow.getCurrentAction, hinfo])
        (by simp [getWorkflowContextForRequest, Workflow.getCurrentActionIndex, hinfo, Cursor.index])
        (by simp [getWorkflowContextForRequest, getWorkflowContext, Workflow.getTotalNumberOfActions, hinfo])
      rw [hm]
      have hs : (getWorkflowContextForRequest req wf).currentActionState = req.actionStatus := rfl
      rw [hs]
      by_cases hi : c.index = c.done.length
      · by_cases hp : req.actionStatus = .pending
        · simp [ht, ha, hi, hp]
        · simp [ht, ha, hi, hp, eq_comm]
      · simp [ht, ha, hi]
    · simp [ht, ha]
  · simp [ht]

private theorem reportActionStatus_eq_ok {env : ReportEnv} {wf wf' : Workflow} {req : WorkflowActionStatus} :
    reportActionStatus env wf req = .ok wf' ↔
      req.workflowId = wf.name ∧ req.taskName ≠ "" ∧ req.actionName ≠ "" ∧ env.getErr = none ∧ env.updateErr = none ∧
        applyReport env.now wf req = .ok wf' := by
  have hne := wf.name_ne
  unfold reportActionStatus validateActionStatusRequest getWorkflowByName
  by_cases hid : req.workflowId = wf.name
  · by_cases ht : req.taskName = ""
    · simp [hid, hne, ht, bind, Except.bind]
    · by_cases ha : req.actionName = ""
      · simp [hid, hne, ht, ha, bind, Except.bind]
      · cases hg : env.getErr with
        | some e => simp [hid, hne, ht, ha, bind, Except.bind]
        | none =>
          cases hr : applyReport env.now wf req <;> cases hup : env.updateErr <;>
            simp [hid, hne, ht, ha, hr, bind, Except.bind]
  · by_cases hw : req.workflowId = ""
    · simp [hw, hne.symm, bind, Except.bind]
    · by_cases ht : req.taskName = ""
      · simp [hid, hw, ht, bind, Except.bind]
      · by_cases ha : req.actionName = ""
        · simp [hid, hw, ht, ha, bind, Except.bind]
        · cases hg : env.getErr <;> simp [hid, hw, ht, ha, bind, Except.bind]

/-- What an accepted report is, and what it writes. -/
theorem report_eq_ok {c : Cursor} {wf wf' : Workflow} (hwf : wf.status.tasks = c.tasks) (hu : UniqueNames c.tasks)
    {env : ReportEnv} {req : WorkflowActionStatus} :
    reportActionStatus env wf req = .ok wf' ↔
      c.Accepts wf env req ∧ wf' = c.reported env.now req.actionStatus wf := by
  rw [reportActionStatus_eq_ok, applyReport_cursor hwf hu]
  constructor
  · rintro ⟨hw, ht, ha, hg, hup, hct, hca, hi, hp, he⟩
    exact ⟨⟨hg, hup, ⟨hw, hct, hca, ht, ha⟩, hi, hp⟩, he⟩
  · rintro ⟨h, he⟩
    exact ⟨h.named.workflow, h.named.task_ne, h.named.action_ne, h.get, h.update, h.named.task, h.named.action,
      h.index, h.status, he⟩

/-- Without an open action there is no current task, and every report is rejected. -/
theorem report_closed {wf wf' : Workflow} (h : ∀ a ∈ actionsOf wf.status.tasks, isOpen a.status = false)
    (env : ReportEnv) (req : WorkflowActionStatus) : reportActionStatus env wf req ≠ .ok wf' := by
  intro hr
  obtain ⟨-, ht, -, -, -, ha⟩ := reportActionStatus_eq_ok.1 hr
  simp [applyReport, Workflow.getCurrentTask, info_of_closed h, ht] at ha

end Tink.Kube
