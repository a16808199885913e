import Tink.Db.Store
import Tink.Lib.GoFormat
import Tink.Lib.Outcome
import Tink.Lib.Run

/-!
# The database-backed server

`CreateWorkflow`, `ReportActionStatus`, `GetWorkflowContexts` and `getWorkflowState` of `server/dbserver_workflow.go`
and `server/dbserver_worker_workflow.go`.  A report reads the context and the action list, decides on a new context
(`reportContext`), stores it in one transaction and records an event in another.

`reportUpdate_eq_ok` says once which reports reach the second transaction and what they have done to the row, and
`step_row` what a report can do to the row of any workflow.
-/

namespace Tink.Db

open Pg Machine

/-- The errors the database answers with during one `ReportActionStatus`. -/
structure ReportEnv where
  contextsErr : Option String := none
  actionsErr : Option String := none
  updateErr : Option String := none
  eventErr : Option String := none

/-- The status of a database error, whose text `status.Errorf` takes for a format. -/
def abortedStatus (e : String) : GrpcStatus := ⟨.aborted, GoFormat.sprintf e⟩

/-- A database error passed on to the client. -/
def aborted {α : Type} : Except String α → Outcome GrpcStatus α
  | .ok a => .ok a
  | .error e => .error (abortedStatus e)

def checkRequest (req : WorkflowActionStatus) : Outcome GrpcStatus Unit :=
  if req.workflowId = "" then .error ⟨.invalidArgument, errInvalidWorkflowID⟩
  else if req.taskName = "" then .error ⟨.invalidArgument, errInvalidTaskName⟩
  else if req.actionName = "" then .error ⟨.invalidArgument, errInvalidActionName⟩
  else .ok ()

/-- The position a report is about: a `RUNNING` report is about the next action, unless nothing was reported yet. -/
def reportIndex (c : WorkflowContext) (req : WorkflowActionStatus) : Int :=
  if req.actionStatus = .running ∧ c.currentAction ≠ "" then c.currentActionIndex + 1 else c.currentActionIndex

/-- The context after a report, given the context and the action list before it. -/
def reportContext (c : WorkflowContext) (actions : List WorkflowAction) (req : WorkflowActionStatus) :
    Outcome GrpcStatus WorkflowContext :=
  if c.totalNumberOfActions > 1 ∧ reportIndex c req ≥ c.totalNumberOfActions then
    .error ⟨.failedPrecondition, errInvalidActionIndex⟩
  else do
    let action ← Outcome.index actions (reportIndex c req)
    if action.taskName ≠ req.taskName then .error ⟨.invalidArgument, errInvalidTaskReported⟩
    else if action.name ≠ req.actionName then .error ⟨.invalidArgument, errInvalidActionReported⟩
    else
      pure { c with
        currentWorker := action.workerId
        currentTask := req.taskName
        currentAction := req.actionName
        currentActionState := req.actionStatus
        currentActionIndex := reportIndex c req }

/-- `ReportActionStatus` up to and with the update of the state row. -/
def reportUpdate (env : ReportEnv) (s : Store) (req : WorkflowActionStatus) : Outcome GrpcStatus Store := do
  checkRequest req
  let wfContext ← aborted (getWorkflowContexts env.contextsErr s req.workflowId)
  let wfActions ← aborted (getWorkflowActions env.actionsErr s req.workflowId)
  let wfContext ← reportContext wfContext wfActions req
  aborted (updateWorkflowState env.updateErr s wfContext)

/-- `DBServer.ReportActionStatus`: the store afterwards, and the answer. -/
def reportActionStatus (env : ReportEnv) (s : Store) (req : WorkflowActionStatus) : Store × Outcome GrpcStatus Unit :=
  match reportUpdate env s req with
  | .panic => (s, .panic)
  | .error e => (s, .error e)
  | .ok s' =>
    match insertIntoWorkflowEventTable env.eventErr s' req with
    | .error e => (s', .error ⟨.aborted, e⟩)
    | .ok s'' => (s'', .ok ())

/-! ### Dispatch -/

/-- The decision of `isApplicableToSend`, once the action list has been read. -/
def applicableTo (c : WorkflowContext) (actions : List WorkflowAction) (workerID : String) : Outcome Empty Bool :=
  if c.currentActionState = .success then
    if isLastAction c actions then .ok false
    else if c.currentActionIndex = 0 then do
      let action ← Outcome.index actions (c.currentActionIndex + 1)
      pure (decide (action.workerId = workerID))
    else .ok false
  else do
    let action ← Outcome.index actions c.currentActionIndex
    pure (decide (action.workerId = workerID))

def isApplicableToSend (failure : Option String) (s : Store) (c : WorkflowContext) (workerID : String) :
    Outcome Empty Bool :=
  if c.currentActionState = .failed ∨ c.currentActionState = .timeout then .ok false
  else
    match getWorkflowActions failure s c.workflowId with
    | .error _ => .ok false
    | .ok actions => applicableTo c actions workerID

/-- The errors of the database and of the stream during one `GetWorkflowContexts`, by workflow. -/
structure StreamEnv where
  workflowsErr : Option String := none
  contextsErr : String → Option String := fun _ => none
  actionsErr : String → Option String := fun _ => none
  sendErr : String → Option GrpcStatus := fun _ => none

/-- The loop of `GetWorkflowContexts`: the contexts sent, and the answer. -/
def sendContexts (env : StreamEnv) (s : Store) (workerID : String) :
    List String → List WorkflowContext × Outcome GrpcStatus Unit
  | [] => ([], .ok ())
  | wf :: wfs =>
    match getWorkflowContexts (env.contextsErr wf) s wf with
    | .error e => ([], .error (abortedStatus e))
    | .ok wfContext =>
      match isApplicableToSend (env.actionsErr wf) s wfContext workerID with
      | .panic => ([], .panic)
      | .error e => e.elim
      | .ok false => sendContexts env s workerID wfs
      | .ok true =>
        match env.sendErr wf with
        | some e => ([], .error e)
        | none => ((wfContext :: (sendContexts env s workerID wfs).1), (sendContexts env s workerID wfs).2)

/-- `DBServer.GetWorkflowContexts`. -/
def streamWorkflowContexts (env : StreamEnv) (s : Store) (workerID : String) :
    List WorkflowContext × Outcome GrpcStatus Unit :=
  if workerID = "" then ([], .error ⟨.invalidArgument, errInvalidWorkerID⟩)
  else
    match getWorkflowsForWorker env.workflowsErr s workerID with
    | .error e => ([], .error (abortedStatus e))
    | .ok wfs => sendContexts env s workerID wfs

/-! ### State and creation -/

/-- A context that cannot be read is logged and taken as the zero context. -/
def getWorkflowState (failure : Option String) (s : Store) (id : String) : State :=
  let wfCtx := match getWorkflowContexts failure s id with
    | .ok c => c
    | .error _ => {}
  if wfCtx.currentActionState ≠ .success then wfCtx.currentActionState
  else if wfCtx.currentActionIndex = wfCtx.totalNumberOfActions - 1 then .success
  else .running

/-- What `CreateWorkflow` meets: the fresh id, the answer to `GetTemplate`, and an error of the transaction. -/
structure CreateEnv where
  id : UUID
  template : Except String String
  txErr : Option String := none

/-- `DBServer.CreateWorkflow`. -/
def createWorkflow {H : Type} (r : Template.Renderer H) (reg : Registry) (env : CreateEnv) (s : Store)
    (template hardware : String) : Except String (Store × UUID) :=
  match env.template with
  | .error e => .error ("failed to get template with ID " ++ template ++ ": " ++ e)
  | .ok text => do
    let data ← Template.renderTemplate r template text hardware
    let s ← createWorkflowTx r reg env.txErr s { template := template, devices := hardware } data env.id
    pure (s, env.id)

/-- A request, with the errors the database answers with. -/
abbrev Report := ReportEnv × WorkflowActionStatus

/-- The tables after a report. -/
def step (s : Store) (report : Report) : Store := (reportActionStatus report.1 s report.2).1

/-! ### What a report does -/

variable {env : ReportEnv} {s s' : Store} {req : WorkflowActionStatus} {row row' : StateRow} {id : UUID}

/-- The position a report is about, by the row. -/
def StateRow.reportIndex (row : StateRow) (req : WorkflowActionStatus) : Int :=
  Db.reportIndex (row.context req.workflowId) req

theorem StateRow.reportIndex_eq (row : StateRow) (req : WorkflowActionStatus) :
    row.reportIndex req =
      if req.actionStatus = .running ∧ row.currentActionName ≠ "" then row.currentActionIndex + 1
      else row.currentActionIndex :=
  rfl

/-- The report finds the action it names at its position, and moves the row there. -/
structure Applied (req : WorkflowActionStatus) (row row' : StateRow) : Prop where
  task_ne : req.taskName ≠ ""
  action_ne : req.actionName ≠ ""
  moved : ∃ action task name worker, 0 ≤ row.reportIndex req ∧
    row.actionList[(row.reportIndex req).toNat]? = some action ∧ action.taskName = req.taskName ∧
    action.name = req.actionName ∧ varchar 200 req.taskName = some task ∧ varchar 200 req.actionName = some name ∧
    varchar 200 action.workerId = some worker ∧
    row' = { row with
      currentTaskName := task
      currentActionName := name
      currentActionState := req.actionStatus
      currentWorker := worker
      currentActionIndex := row.reportIndex req }

theorem aborted_eq_ok {α : Type} {x : Except String α} {a : α} : aborted x = .ok a ↔ x = .ok a := by
  cases x <;> simp [aborted]

theorem aborted_ne_panic {α : Type} {x : Except String α} : aborted x ≠ .panic := by
  cases x <;> simp [aborted]

theorem checkRequest_eq_ok :
    checkRequest req = .ok () ↔ req.workflowId ≠ "" ∧ req.taskName ≠ "" ∧ req.actionName ≠ "" := by
  unfold checkRequest
  split
  · simp_all
  · split
    · simp_all
    · split <;> simp_all

theorem reportContext_eq_ok {c c' : WorkflowContext} {actions : List WorkflowAction} :
    reportContext c actions req = .ok c' ↔
      ¬ (c.totalNumberOfActions > 1 ∧ reportIndex c req ≥ c.totalNumberOfActions) ∧
      ∃ action, 0 ≤ reportIndex c req ∧ actions[(reportIndex c req).toNat]? = some action ∧
        action.taskName = req.taskName ∧ action.name = req.actionName ∧
        c' = { c with
          currentWorker := action.workerId
          currentTask := req.taskName
          currentAction := req.actionName
          currentActionState := req.actionStatus
          currentActionIndex := reportIndex c req } := by
  unfold reportContext
  split
  · rename_i hguard
    simp [hguard]
  · rename_i hguard
    rw [Outcome.bind_eq_ok]
    constructor
    · rintro ⟨action, hindex, h⟩
      obtain ⟨hpos, hget⟩ := Outcome.index_eq_ok.1 hindex
      split at h
      · cases h
      · rename_i htask
        split at h
        · cases h
        · rename_i hname
          cases h
          exact ⟨hguard, action, hpos, hget, not_not.1 htask, not_not.1 hname, rfl⟩
    · rintro ⟨-, action, hpos, hget, htask, hname, rfl⟩
      refine ⟨action, Outcome.index_eq_ok.2 ⟨hpos, hget⟩, ?_⟩
      rw [if_neg (not_not.2 htask), if_neg (not_not.2 hname)]
      rfl

theorem ne_empty_of_ofString? {t : String} (hid : UUID.ofString? t = some id) : t ≠ "" := by
  intro h
  have hnone : UUID.ofString? "" = none := by decide
  rw [h, hnone] at hid
  cases hid

/-- What has to hold besides for a report to be stored: the database answers, the guard lets the position pass, and
the columns take the numbers. -/
structure Passes (env : ReportEnv) (req : WorkflowActionStatus) (row : StateRow) : Prop where
  contexts : env.contextsErr = none
  actions : env.actionsErr = none
  update : env.updateErr = none
  guard : ¬ (row.totalNumberOfActions > 1 ∧ row.reportIndex req ≥ row.totalNumberOfActions)
  state : isSmallint req.actionStatus.value = true
  index : isInt (row.reportIndex req) = true

/-- A report that gets as far as the second transaction has moved the row of its workflow, and nothing else. -/
theorem reportUpdate_eq_ok :
    reportUpdate env s req = .ok s' ↔
      ∃ id row row', UUID.ofString? req.workflowId = some id ∧ s.workflowState id = some row ∧ Passes env req row ∧
        Applied req row row' ∧ s' = { s with workflowState := Function.update s.workflowState id (some row') } := by
  unfold reportUpdate
  constructor
  · intro h
    obtain ⟨⟨⟩, hcheck, h⟩ := Outcome.bind_eq_ok.1 h
    obtain ⟨c, hc, h⟩ := Outcome.bind_eq_ok.1 h
    obtain ⟨actions, hactions, h⟩ := Outcome.bind_eq_ok.1 h
    obtain ⟨c', hc', h⟩ := Outcome.bind_eq_ok.1 h
    obtain ⟨-, htask, hname⟩ := checkRequest_eq_ok.1 hcheck
    obtain ⟨hctx, id, row, hid, hrow, rfl⟩ := getWorkflowContexts_eq_ok.1 (aborted_eq_ok.1 hc)
    rw [aborted_eq_ok, getWorkflowActions_eq hid hrow] at hactions
    cases hactions
    obtain ⟨hguard, action, hpos, hget, hat, han, rfl⟩ := reportContext_eq_ok.1 hc'
    obtain ⟨hup, hst, hix, id', task, name, worker, hid', ht, hn, hw, rfl⟩ :=
      updateWorkflowState_eq_ok.1 (aborted_eq_ok.1 h)
    rw [show UUID.ofString? req.workflowId = some id' from hid'] at hid
    cases hid
    -- an action was found, so the list was read
    have hread : env.actionsErr = none := by
      by_contra hne
      simp [hne] at hget
    rw [if_pos hread] at hget
    rw [hrow, Option.map_some]
    exact ⟨_, row, _, hid', hrow, ⟨hctx, hread, hup, hguard, hst, hix⟩,
      ⟨htask, hname, action, task, name, worker, hpos, hget, hat, han, ht, hn, hw, rfl⟩, rfl⟩
  · rintro ⟨id, row, row', hid, hrow, hpass, ⟨htask, hname, hmoved⟩, rfl⟩
    obtain ⟨action, task, name, worker, hpos, hget, hat, han, ht, hn, hw, rfl⟩ := hmoved
    refine Outcome.bind_eq_ok.2 ⟨(), checkRequest_eq_ok.2 ⟨ne_empty_of_ofString? hid, htask, hname⟩, ?_⟩
    refine Outcome.bind_eq_ok.2 ⟨row.context req.workflowId, ?_, ?_⟩
    · exact aborted_eq_ok.2 (getWorkflowContexts_eq_ok.2 ⟨hpass.contexts, id, row, hid, hrow, rfl⟩)
    refine Outcome.bind_eq_ok.2 ⟨row.actionList, ?_, ?_⟩
    · rw [aborted_eq_ok, getWorkflowActions_eq hid hrow, if_pos hpass.actions]
    refine Outcome.bind_eq_ok.2 ⟨_, reportContext_eq_ok.2 ⟨hpass.guard, action, hpos, hget, hat, han, rfl⟩, ?_⟩
    refine aborted_eq_ok.2 (updateWorkflowState_eq_ok.2
      ⟨hpass.update, hpass.state, hpass.index, id, task, name, worker, hid, ht, hn, hw, ?_⟩)
    rw [hrow, Option.map_some]
    rfl

/-- The event of a report can be recorded: the database does not fail and every column accepts its value. -/
def Recordable (env : ReportEnv) (req : WorkflowActionStatus) : Prop :=
  env.eventErr = none ∧ ∃ e, eventColumns req = .ok e

/-- A report that does not get as far as the second transaction leaves the tables as they are. -/
theorem reportActionStatus_of_no_update (h : ¬ ∃ s', reportUpdate env s req = .ok s') :
    (reportActionStatus env s req).1 = s := by
  unfold reportActionStatus
  cases hu : reportUpdate env s req with
  | panic => rfl
  | error e => rfl
  | ok s' => exact absurd ⟨s', hu⟩ h

theorem reportActionStatus_ne_ok (h : ¬ ∃ s', reportUpdate env s req = .ok s') :
    (reportActionStatus env s req).2 ≠ .ok () := by
  unfold reportActionStatus
  cases hu : reportUpdate env s req with
  | panic => simp
  | error e => simp
  | ok s' => exact absurd ⟨s', hu⟩ h

/-- A report that gets as far as the second transaction is answered without an error, and recorded, if its event can
be recorded; if not, it is answered with an error, and its update stays. -/
theorem reportActionStatus_of_update (h : reportUpdate env s req = .ok s') :
    (Recordable env req ∧ ∃ e, eventColumns req = .ok e ∧
      reportActionStatus env s req = ({ s' with workflowEvent := s'.workflowEvent ++ [e] }, .ok ())) ∨
    (¬ Recordable env req ∧ ∃ msg, reportActionStatus env s req = (s', .error ⟨.aborted, msg⟩)) := by
  unfold Recordable reportActionStatus insertIntoWorkflowEventTable
  rw [h]
  cases env.eventErr with
  | some msg => simp
  | none => cases hc : eventColumns req <;> simp

theorem step_of_update (h : reportUpdate env s req = .ok s') :
    (step s (env, req)).workflowState = s'.workflowState := by
  unfold step
  rcases reportActionStatus_of_update h with ⟨-, e, -, hout⟩ | ⟨-, msg, hout⟩ <;> rw [hout]

/-- The tables after a report are those after its first transaction, up to events. -/
theorem step_workflowState (report : Report) :
    (step s report).workflowState = s.workflowState ∨
      ∃ s', reportUpdate report.1 s report.2 = .ok s' ∧ (step s report).workflowState = s'.workflowState := by
  by_cases hu : ∃ s', reportUpdate report.1 s report.2 = .ok s'
  · obtain ⟨s', hu⟩ := hu
    right
    exact ⟨s', hu, step_of_update hu⟩
  · left
    rw [step, reportActionStatus_of_no_update hu]

/-- What a report can do to the row of a workflow. -/
theorem step_row (hrow : s.workflowState id = some row) (report : Report) :
    ∃ row', (step s report).workflowState id = some row' ∧
      (row' = row ∨ (UUID.ofString? report.2.workflowId = some id ∧ Applied report.2 row row' ∧
        ∃ s', reportUpdate report.1 s report.2 = .ok s')) := by
  rcases step_workflowState (s := s) report with h | ⟨s', hu, h⟩
  · exact ⟨row, by rw [h]; exact hrow, Or.inl rfl⟩
  · obtain ⟨id', row₁, row', hid, hrow₁, -, happ, rfl⟩ := reportUpdate_eq_ok.1 hu
    rw [h]
    by_cases he : id = id'
    · subst he
      rw [hrow] at hrow₁
      cases hrow₁
      exact ⟨row', by simp, Or.inr ⟨hid, happ, _, hu⟩⟩
    · exact ⟨row, by simp [he, hrow], Or.inl rfl⟩

/-- Reports add no rows. -/
theorem workflowState_of_step (report : Report) (hrow' : (step s report).workflowState id = some row') :
    ∃ row, s.workflowState id = some row := by
  rcases step_workflowState (s := s) report with h | ⟨s', hu, h⟩
  · exact ⟨row', by rw [← h]; exact hrow'⟩
  · obtain ⟨id', row, row₁, -, hrow, -, -, rfl⟩ := reportUpdate_eq_ok.1 hu
    by_cases he : id = id'
    · exact ⟨row, by rw [he]; exact hrow⟩
    · simp only [h, Function.update_of_ne he] at hrow'
      exact ⟨row', hrow'⟩

/-- A report sets the state of a workflow that has one, and adds an event, or does nothing. -/
theorem reportActionStatus_cases (env : ReportEnv) (s : Store) (req : WorkflowActionStatus) :
    (reportActionStatus env s req).1 = s ∨
      ∃ u row row' events, s.workflowState u = some row ∧ (reportActionStatus env s req).1 =
        { s with workflowState := Function.update s.workflowState u (some row'), workflowEvent := events } := by
  by_cases hu : ∃ s', reportUpdate env s req = .ok s'
  · right
    obtain ⟨s', hu⟩ := hu
    obtain ⟨u, row, row', -, hrow, -, -, rfl⟩ := reportUpdate_eq_ok.1 hu
    rcases reportActionStatus_of_update hu with ⟨-, e, -, h⟩ | ⟨-, msg, h⟩
    · rw [h]
      exact ⟨u, row, row', _, hrow, rfl⟩
    · rw [h]
      exact ⟨u, row, row', _, hrow, rfl⟩
  · left
    rw [reportActionStatus_of_no_update hu]

theorem step_workflowWorkerMap (report : Report) : (step s report).workflowWorkerMap = s.workflowWorkerMap := by
  unfold step
  rcases reportActionStatus_cases report.1 s report.2 with h | ⟨u, row, row', events, -, h⟩
  · rw [h]
  · rw [h]

/-! ### Concrete workflows -/

def machine1 : String := "00000000-0000-0000-0000-000000000001"

def machine2 : String := "00000000-0000-0000-0000-000000000002"

def sampleID : UUID := ⟨List.replicate 32 ⟨10, by decide⟩, by simp⟩

def sampleEnv : CreateEnv where
  id := sampleID
  template := .ok "template"

/-- `CreateWorkflow` with the template of the given tasks, in an empty database where every address is the id of its
worker. -/
def createSample (tasks : List (String × String × List String)) : Except String (Store × UUID) :=
  createWorkflow { Template.Renderer.reading Unit (.ofNames tasks) with unmarshalDevices := fun _ => .ok () }
    { getWorkerID := .ok, parse := uuidColumn } sampleEnv {} "template" "devices"

/-- The row of the sample workflow with the given tasks, at a position of its action list. -/
def sampleRow (tasks : List (String × String × List String)) (index : Nat) (state : State) : StateRow :=
  let actions : List WorkflowAction := tasks.flatMap fun (task, worker, names) => names.map fun name =>
    { taskName := task, name := name, image := "os", timeout := 60, workerId := worker }
  let current := actions[index]?
  { currentTaskName := (current.map WorkflowAction.taskName).getD ""
    currentActionName := (current.map WorkflowAction.name).getD ""
    currentActionState := state
    currentWorker := (current.map WorkflowAction.workerId).getD ""
    actionList := actions
    currentActionIndex := index
    totalNumberOfActions := actions.length }

/-- A report to the sample workflow by the first machine. -/
def reportOf (task action : String) (s : State) : WorkflowActionStatus where
  workflowId := sampleID.toString
  taskName := task
  actionName := action
  actionStatus := s
  workerId := machine1

end Tink.Db
