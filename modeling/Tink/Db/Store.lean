import Tink.Template
import Tink.Lib.Columns

/-!
# The tables of the database backend

The tables `workflow`, `workflow_state`, `workflow_worker_map` and `workflow_event` (`db/migration`), and the
functions of `TinkDB` that the workflow service calls (`db/workflow.go`).  Each of these functions is one query or one
transaction: it fails without a trace, because of the server or because a column rejects a value, or it is applied as
a whole.

`insertActionList` flattens a template into the action list of a workflow.  The lookup of a worker in the hardware
table and the UUID parser it goes through are the fields of a `Registry`, and nothing is assumed of them.
-/

namespace Tink.Db

open Pg

/-- A row of `workflow`. -/
structure WorkflowRow where
  template : String
  devices : String
  deleted : Bool := false

/-- A row of `workflow_state`. -/
structure StateRow where
  currentTaskName : String := ""
  currentActionName : String := ""
  currentActionState : State := .pending
  currentWorker : String := ""
  actionList : List WorkflowAction
  currentActionIndex : Int := 0
  totalNumberOfActions : Int
deriving DecidableEq

/-- A row of `workflow_event`. -/
structure EventRow where
  workflowId : UUID
  workerId : UUID
  taskName : String
  actionName : String
  executionTime : Int
  message : String
  status : State
deriving DecidableEq

/-- The tables. -/
structure Store where
  workflow : UUID → Option WorkflowRow := fun _ => none
  workflowState : UUID → Option StateRow := fun _ => none
  workflowWorkerMap : List (UUID × UUID) := []
  workflowEvent : List EventRow := []

/-! ### Values for columns -/

def uuidColumn (s : String) : Except String UUID :=
  match UUID.ofString? s with
  | some u => .ok u
  | none => .error ("pq: invalid input syntax for type uuid: " ++ s)

def varcharColumn (s : String) : Except String String :=
  match varchar 200 s with
  | some t => .ok t
  | none => .error "pq: value too long for type character varying(200)"

def smallintColumn (s : State) : Except String State :=
  if isSmallint s.value then .ok s else .error "pq: smallint out of range"

def intColumn (n : Int) : Except String Int :=
  if isInt n then .ok n else .error "pq: integer out of range"

/-- The columns of the `UPDATE` of a state row: its key, and what it sets. -/
def stateColumns (c : WorkflowContext) : Except String (UUID × (StateRow → StateRow)) := do
  let id ← uuidColumn c.workflowId
  let task ← varcharColumn c.currentTask
  let action ← varcharColumn c.currentAction
  let state ← smallintColumn c.currentActionState
  let worker ← varcharColumn c.currentWorker
  let index ← intColumn c.currentActionIndex
  pure (id, fun row => { row with
    currentTaskName := task
    currentActionName := action
    currentActionState := state
    currentWorker := worker
    currentActionIndex := index })

/-- The columns of the `INSERT` of an event. -/
def eventColumns (e : WorkflowActionStatus) : Except String EventRow := do
  let workflowId ← uuidColumn e.workflowId
  let workerId ← uuidColumn e.workerId
  let taskName ← varcharColumn e.taskName
  let actionName ← varcharColumn e.actionName
  let executionTime ← intColumn e.seconds
  let message ← varcharColumn e.message
  let status ← smallintColumn e.actionStatus
  pure ⟨workflowId, workerId, taskName, actionName, executionTime, message, status⟩

/-! ### Reading and reporting -/

/-- The context a state row is read as. -/
def StateRow.context (row : StateRow) (wfID : String) : WorkflowContext where
  workflowId := wfID
  currentWorker := row.currentWorker
  currentTask := row.currentTaskName
  currentAction := row.currentActionName
  currentActionIndex := row.currentActionIndex
  currentActionState := row.currentActionState
  totalNumberOfActions := row.totalNumberOfActions

/-- `GetWorkflowContexts`; on an error the caller is also given the zero context. -/
def getWorkflowContexts (failure : Option String) (s : Store) (wfID : String) : Except String WorkflowContext :=
  match failure, uuidColumn wfID with
  | some e, _ => .error ("SELECT from worflow_state: " ++ e)
  | none, .error e => .error ("SELECT from worflow_state: " ++ e)
  | none, .ok id =>
    match s.workflowState id with
    | none => .error ("Workflow with id " ++ wfID ++ " does not exist")
    | some row => .ok (row.context wfID)

/-- `GetWorkflowActions`: an error of the query is logged, and the list is empty then as it is for a missing row. -/
def getWorkflowActions (failure : Option String) (s : Store) (wfID : String) : Except String (List WorkflowAction) :=
  match failure, uuidColumn wfID with
  | none, .ok id => .ok (((s.workflowState id).map StateRow.actionList).getD [])
  | _, _ => .ok []

/-- `GetWorkflowsForWorker`. -/
def getWorkflowsForWorker (failure : Option String) (s : Store) (id : String) : Except String (List String) :=
  match failure with
  | some e => .error e
  | none => do
    let worker ← uuidColumn id
    pure ((s.workflowWorkerMap.filter fun row => row.2 = worker).map fun row => row.1.toString)

/-- `UpdateWorkflowState`. -/
def updateWorkflowState (failure : Option String) (s : Store) (c : WorkflowContext) : Except String Store :=
  match failure, stateColumns c with
  | some e, _ => .error e
  | none, .error e => .error ("INSERT in to workflow_state: " ++ e)
  | none, .ok (id, set) =>
    .ok { s with workflowState := Function.update s.workflowState id ((s.workflowState id).map set) }

/-- `InsertIntoWorkflowEventTable`. -/
def insertIntoWorkflowEventTable (failure : Option String) (s : Store) (e : WorkflowActionStatus) :
    Except String Store :=
  match failure, eventColumns e with
  | some e, _ => .error e
  | none, .error e => .error ("INSERT in to workflow_event: " ++ e)
  | none, .ok row => .ok { s with workflowEvent := s.workflowEvent ++ [row] }

/-! ### Creating a workflow -/

/-- The hardware table, asked for the id of the worker with an address, and the UUID parser. -/
structure Registry where
  getWorkerID : String → Except String String
  parse : String → Except String UUID

/-- A volume split at its first colon. -/
def cutVolume (vol : String) : String × String :=
  (String.ofList (vol.toList.takeWhile (· ≠ ':')), String.ofList ((vol.toList.dropWhile (· ≠ ':')).drop 1))

/-- Adds volumes to a map from host paths. -/
def addVolumes (volumes : StringMap) (vols : List String) : StringMap :=
  vols.foldl (fun m vol => m.insert (cutVolume vol).1 (cutVolume vol).2) volumes

/-- The action as it is stored for the workers: the environment and the volumes of the task, overridden by the
action. -/
def workflowAction (task : Template.Task) (workerUID : UUID) (ac : Template.Action) : WorkflowAction where
  taskName := task.name
  workerId := workerUID.toString
  name := ac.name
  image := ac.image
  timeout := ac.timeout
  command := ac.command
  onTimeout := ac.onTimeout
  onFailure := ac.onFailure
  environment :=
    (ac.environment.foldl (fun m key val => m.insert key val) task.environment).entries.map fun e => e.1 ++ "=" ++ e.2
  volumes := (addVolumes (addVolumes ∅ task.volumes) ac.volumes).entries.map fun e => e.1 ++ ":" ++ e.2
  pid := ac.pid

/-- The loop of `insertActionList` over the tasks: the actions, and the workers inserted into `workflow_worker_map`.
A worker is inserted if it differs from the one before, `uniqueWorkerID`, which is zero at first. -/
def collectTasks (reg : Registry) (uniqueWorkerID : UUID) :
    List Template.Task → Except String (List WorkflowAction × List UUID)
  | [] => .ok ([], [])
  | task :: tasks => do
    let workerID ←
      match reg.getWorkerID task.workerAddr with
      | .error e => .error ("unable to insert into action list: " ++ e)
      | .ok id => .ok id
    let workerUID ← reg.parse workerID
    let (actions, workers) ← collectTasks reg workerUID tasks
    pure (task.actions.map (workflowAction task workerUID) ++ actions,
      if uniqueWorkerID ≠ workerUID then workerUID :: workers else workers)

/-- The texts of an action, all of which end up in the JSON column. -/
def texts (a : WorkflowAction) : List String :=
  [a.taskName, a.name, a.image, a.workerId, a.pid] ++ a.command ++ a.onTimeout ++ a.onFailure ++ a.volumes ++
    a.environment

/-- A JSON column rejects the character 0. -/
def jsonbColumn (actions : List WorkflowAction) : Except String (List WorkflowAction) :=
  if actions.any (fun a => (texts a).any fun t => t.toList.any (· = '\x00')) then
    .error "pq: unsupported Unicode escape sequence"
  else .ok actions

/-- `INSERT … ON CONFLICT DO NOTHING`. -/
def insertIntoWfWorkerTable (wfID : UUID) (rows : List (UUID × UUID)) (workerID : UUID) : List (UUID × UUID) :=
  if (wfID, workerID) ∈ rows then rows else rows ++ [(wfID, workerID)]

section

variable {H : Type} (r : Template.Renderer H) (reg : Registry)

def insertActionList (s : Store) (yamlData : String) (id : UUID) : Except String Store := do
  let wf ← Template.parse r yamlData
  let (actionList, workers) ← collectTasks reg UUID.zero wf.tasks
  match jsonbColumn actionList, intColumn actionList.length with
  | .ok actionData, .ok totalActions =>
    pure { s with
      workflowWorkerMap := workers.foldl (insertIntoWfWorkerTable id) s.workflowWorkerMap
      workflowState := Function.update s.workflowState id
        (some { actionList := actionData, totalNumberOfActions := totalActions }) }
  | .error e, _ => .error ("INSERT in to workflow_state: " ++ e)
  | _, .error e => .error ("INSERT in to workflow_state: " ++ e)

/-- `TinkDB.CreateWorkflow`. -/
def createWorkflowTx (failure : Option String) (s : Store) (wf : WorkflowRow) (data : String) (id : UUID) :
    Except String Store :=
  match failure, insertActionList r reg s data id with
  | some e, _ => .error e
  | none, .error e => .error ("failed to create workflow: " ++ e)
  | none, .ok s => .ok { s with workflow := Function.update s.workflow id (some wf) }

end

/-! ### What the queries return -/

section

variable {failure : Option String} {s s' : Store} {wfID : String} {c : WorkflowContext}

theorem uuidColumn_eq_ok {t : String} {u : UUID} : uuidColumn t = .ok u ↔ UUID.ofString? t = some u := by
  unfold uuidColumn
  cases UUID.ofString? t <;> simp

theorem varcharColumn_eq_ok {t u : String} : varcharColumn t = .ok u ↔ varchar 200 t = some u := by
  unfold varcharColumn
  cases varchar 200 t <;> simp

theorem except_bind_eq_ok {ε α β : Type} {x : Except ε α} {f : α → Except ε β} {b : β} :
    (x >>= f) = .ok b ↔ ∃ a, x = .ok a ∧ f a = .ok b := by
  cases x <;> simp [bind, Except.bind]

/-- The rows of the map after workers have been inserted for a workflow. -/
theorem mem_foldl_insertIntoWfWorkerTable {workers : List UUID} {rows : List (UUID × UUID)} {row : UUID × UUID}
    (id : UUID) :
    row ∈ workers.foldl (insertIntoWfWorkerTable id) rows ↔ row ∈ rows ∨ (row.1 = id ∧ row.2 ∈ workers) := by
  induction workers generalizing rows with
  | nil => simp
  | cons w workers ih =>
    have hone : row ∈ insertIntoWfWorkerTable id rows w ↔ row ∈ rows ∨ row = (id, w) := by
      unfold insertIntoWfWorkerTable
      split
      · rename_i hin
        exact ⟨.inl, fun h => h.elim (fun h => h) fun h => h ▸ hin⟩
      · rw [List.mem_append, List.mem_singleton]
    rw [List.foldl_cons, ih, hone, Prod.ext_iff, List.mem_cons]
    tauto

/-- The workflows found for a worker are those of its rows in the map. -/
theorem getWorkflowsForWorker_eq_ok {worker : String} {wfs : List String} :
    getWorkflowsForWorker failure s worker = .ok wfs ↔
      failure = none ∧ ∃ u, UUID.ofString? worker = some u ∧
        wfs = (s.workflowWorkerMap.filter fun row => row.2 = u).map fun row => row.1.toString := by
  unfold getWorkflowsForWorker
  cases failure with
  | some e => simp
  | none =>
    rw [except_bind_eq_ok]
    simp only [uuidColumn_eq_ok, pure, Except.pure, Except.ok.injEq, true_and]
    exact exists_congr fun u => and_congr_right fun _ => eq_comm

theorem getWorkflowContexts_eq_ok :
    getWorkflowContexts failure s wfID = .ok c ↔
      failure = none ∧ ∃ id row, UUID.ofString? wfID = some id ∧ s.workflowState id = some row ∧
        c = row.context wfID := by
  unfold getWorkflowContexts
  cases failure with
  | some e => simp
  | none =>
    cases hid : uuidColumn wfID with
    | error e =>
      have hnone : UUID.ofString? wfID = none := by
        cases hu : UUID.ofString? wfID with
        | none => rfl
        | some u => rw [uuidColumn_eq_ok.2 hu] at hid; cases hid
      simp [hnone]
    | ok id =>
      rw [uuidColumn_eq_ok] at hid
      cases hrow : s.workflowState id with
      | none => simp [hid, hrow]
      | some row => simp [hid, hrow, eq_comm]

/-- The context read of a workflow is that of its row. -/
theorem getWorkflowContexts_row {id : UUID} {row : StateRow} (hid : UUID.ofString? wfID = some id)
    (hrow : s.workflowState id = some row) (h : getWorkflowContexts failure s wfID = .ok c) :
    failure = none ∧ c = row.context wfID := by
  obtain ⟨hnone, id', row', hid', hrow', hc⟩ := getWorkflowContexts_eq_ok.1 h
  rw [hid] at hid'
  cases hid'
  rw [hrow] at hrow'
  cases hrow'
  exact ⟨hnone, hc⟩

theorem getWorkflowActions_eq {id : UUID} {row : StateRow} (hid : UUID.ofString? wfID = some id)
    (hrow : s.workflowState id = some row) :
    getWorkflowActions failure s wfID = .ok (if failure = none then row.actionList else []) := by
  unfold getWorkflowActions
  rw [uuidColumn_eq_ok.2 hid]
  cases failure <;> simp [hrow]

theorem smallintColumn_eq_ok {x y : State} : smallintColumn x = .ok y ↔ isSmallint x.value = true ∧ x = y := by
  unfold smallintColumn
  split <;> simp_all

theorem intColumn_eq_ok {m n : Int} : intColumn m = .ok n ↔ isInt m = true ∧ m = n := by
  unfold intColumn
  split <;> simp_all

/-- The update sets the columns of one row, if there is one, to what they hold for the context. -/
theorem updateWorkflowState_eq_ok :
    updateWorkflowState failure s c = .ok s' ↔
      failure = none ∧ isSmallint c.currentActionState.value = true ∧ isInt c.currentActionIndex = true ∧
      ∃ id task action worker, UUID.ofString? c.workflowId = some id ∧
        varchar 200 c.currentTask = some task ∧ varchar 200 c.currentAction = some action ∧
        varchar 200 c.currentWorker = some worker ∧
        s' = { s with
          workflowState := Function.update s.workflowState id ((s.workflowState id).map fun row =>
            { row with
              currentTaskName := task
              currentActionName := action
              currentActionState := c.currentActionState
              currentWorker := worker
              currentActionIndex := c.currentActionIndex }) } := by
  have hcols : ∀ p, stateColumns c = .ok p ↔ ∃ id, UUID.ofString? c.workflowId = some id ∧
      ∃ task, varchar 200 c.currentTask = some task ∧ ∃ action, varchar 200 c.currentAction = some action ∧
      ∃ state, (isSmallint c.currentActionState.value = true ∧ c.currentActionState = state) ∧
      ∃ worker, varchar 200 c.currentWorker = some worker ∧
      ∃ index, (isInt c.currentActionIndex = true ∧ c.currentActionIndex = index) ∧
        (id, fun row : StateRow => { row with
          currentTaskName := task
          currentActionName := action
          currentActionState := state
          currentWorker := worker
          currentActionIndex := index }) = p := by
    intro p
    simp only [stateColumns, except_bind_eq_ok, uuidColumn_eq_ok, varcharColumn_eq_ok, smallintColumn_eq_ok,
      intColumn_eq_ok, pure, Except.pure, Except.ok.injEq]
  unfold updateWorkflowState
  cases failure with
  | some e => simp
  | none =>
    constructor
    · intro h
      split at h
      · cases h
      · cases h
      · rename_i id set hp
        obtain ⟨id', hid, task, ht, action, ha, state, ⟨hs, rfl⟩, worker, hw, index, ⟨hi, rfl⟩, hset⟩ :=
          (hcols _).1 hp
        cases hset
        cases h
        exact ⟨rfl, hs, hi, _, task, action, worker, hid, ht, ha, hw, rfl⟩
    · rintro ⟨-, hs, hi, id, task, action, worker, hid, ht, ha, hw, rfl⟩
      rw [(hcols _).2 ⟨id, hid, task, ht, action, ha, _, ⟨hs, rfl⟩, worker, hw, _, ⟨hi, rfl⟩, rfl⟩]

end

end Tink.Db
