import Tink.Worker.Turn
import Tink.Lib.Run

/-!
# Working on one context

The second half of the loop body of `ProcessWorkflowActions` (`cmd/tink-worker/worker/worker.go`): once it is its
turn, a worker goes through the actions from its position on, as long as they are its own.  For every action it
reports `RUNNING`, unless the context it has received says that already, fetches the data of the workflow, executes
the action, reports the result, and sends the data back; a report that fails is sent again, up to a number of times.

The loop is a machine `step` that takes one answer from outside at a time: that of a report, or what the container
ended with.  A report that fails to the end ends the process, and so does an action that does not succeed.  The
process may also end over the data, before an execution or after the report of a success, as `getWorkflowData` and
`updateWorkflowData` call `os.Exit`.  All accesses to the action list are slice expressions that may panic; after the
first one they do not (`run_ne_panic_iff`).
-/

namespace Tink.Worker

open Machine

/-- The settings of a worker that matter here. -/
structure Config where
  workerID : String
  /-- The number of times a report is sent before the worker gives up.  With 0 it is not sent at all, and no error. -/
  retries : Nat

/-- What `execute` returns, and the whole seconds it took. -/
structure Exit where
  st : State := .success
  err : Option String := none
  seconds : Int := 0

/-- The state reported for what `execute` has returned. -/
def Exit.status (e : Exit) : State :=
  if e.err ≠ none ∨ e.st ≠ .success then if e.st = .timeout then .timeout else .failed
  else .success

/-- Where the loop body is: reporting `RUNNING`, fetching data and executing, or reporting the result, with the number
of attempts left. -/
inductive Phase where
  | announce (left : Nat)
  | execute
  | conclude (actionStatus : WorkflowActionStatus) (left : Nat)
deriving DecidableEq

/-- The variables of the loop. -/
structure Job where
  wfContext : WorkflowContext
  actions : List WorkflowAction
  actionIndex : Int
  action : WorkflowAction
  phase : Phase

/-- A worker with a context: at work on it, done with it, or the process has ended. -/
inductive Progress where
  | job (j : Job)
  | next
  | exit

def Job.announcement (job : Job) : WorkflowActionStatus where
  workflowId := job.wfContext.workflowId
  taskName := job.action.taskName
  actionName := job.action.name
  actionStatus := .running
  message := "Started execution"
  workerId := job.action.workerId

def Job.conclusion (job : Job) (e : Exit) : WorkflowActionStatus where
  workflowId := job.wfContext.workflowId
  taskName := job.action.taskName
  actionName := job.action.name
  actionStatus := e.status
  seconds := e.seconds
  message := if e.status = .success then "finished execution successfully" else ""
  workerId := job.action.workerId

/-- The beginning of the loop body, at position `i`. -/
def iteration (cfg : Config) (c : WorkflowContext) (actions : List WorkflowAction) (i : Int) :
    Outcome Empty Progress := do
  let action ← Outcome.index actions i
  pure (.job ⟨c, actions, i, action,
    if c.currentActionState ≠ .running ∧ 0 < cfg.retries then .announce cfg.retries else .execute⟩)

/-- The end of the loop body, after the result was reported; `updated` says that `updateWorkflowData` has returned. -/
def Job.concluded (cfg : Config) (job : Job) (status : State) (updated : Bool) : Outcome Empty Progress :=
  if status ≠ .success then .ok .exit
  else if updated = false then .ok .exit
  else if (job.actions.length : Int) = job.actionIndex + 1 then .ok .next
  else do
    let nextAction ← Outcome.index job.actions (job.actionIndex + 1)
    if nextAction.workerId ≠ cfg.workerID then pure .next
    else iteration cfg job.wfContext job.actions (job.actionIndex + 1)

/-- What one lap of the loop meets besides the answers to its reports: whether `getWorkflowData` and
`updateWorkflowData` return or end the process, and what the container ended with. -/
structure Lap where
  fetched : Bool := true
  exit : Exit := {}
  updated : Bool := true

/-- What comes from outside, with whether a report was acknowledged. -/
structure Input extends Lap where
  acknowledged : Bool := true

def Job.step (cfg : Config) (job : Job) (i : Input) : Outcome Empty Progress :=
  match job.phase with
  | .announce left =>
    if i.acknowledged then .ok (.job { job with phase := .execute })
    else if left ≤ 1 then .ok .exit
    else .ok (.job { job with phase := .announce (left - 1) })
  | .execute =>
    if i.fetched = false then .ok .exit
    else if 0 < cfg.retries then .ok (.job { job with phase := .conclude (job.conclusion i.exit) cfg.retries })
    else job.concluded cfg i.exit.status i.updated
  | .conclude actionStatus left =>
    if i.acknowledged then job.concluded cfg actionStatus.actionStatus i.updated
    else if left ≤ 1 then .ok .exit
    else .ok (.job { job with phase := .conclude actionStatus (left - 1) })

/-- What a worker does with a context and the action list it has read for it. -/
def processContext (cfg : Config) (c : WorkflowContext) (actions : List WorkflowAction) : Outcome Empty Progress := do
  match ← turn cfg.workerID c actions with
  | none => pure .next
  | some i => iteration cfg c actions i

def step (cfg : Config) : Outcome Empty Progress → Input → Outcome Empty Progress
  | .ok (.job j), i => j.step cfg i
  | x, _ => x

/-- The report that is being sent, and the position of its action. -/
def sends : Outcome Empty Progress → Option (Int × WorkflowActionStatus)
  | .ok (.job j) =>
    match j.phase with
    | .announce _ => some (j.actionIndex, j.announcement)
    | .execute => none
    | .conclude actionStatus _ => some (j.actionIndex, actionStatus)
  | _ => none

variable {cfg : Config} {c : WorkflowContext} {actions : List WorkflowAction} {job : Job} {i : Int}

theorem Exit.status_cases (e : Exit) : e.status = .success ∨ e.status = .failed ∨ e.status = .timeout := by
  unfold Exit.status
  split
  · split
    · right; right; rfl
    · right; left; rfl
  · left; rfl

/-! ### The loop -/

/-- The position of a job is that of its action, which is the worker's. -/
structure Job.Placed (cfg : Config) (job : Job) : Prop where
  nonneg : 0 ≤ job.actionIndex
  get : job.actions[job.actionIndex.toNat]? = some job.action
  worker : job.action.workerId = cfg.workerID

/-- What the beginning of the loop body leads to, at a position of the list. -/
private theorem iteration_eq {a : WorkflowAction} (hpos : 0 ≤ i) (hget : actions[i.toNat]? = some a) :
    iteration cfg c actions i = .ok (.job ⟨c, actions, i, a,
      if c.currentActionState ≠ .running ∧ 0 < cfg.retries then .announce cfg.retries else .execute⟩) :=
  Outcome.index_bind_pure_eq_ok.2 ⟨hpos, a, hget, rfl⟩

/-- What a worker does with a context if it is its turn at position `i`. -/
theorem processContext_of_turn (h : turn cfg.workerID c actions = .ok (some i)) :
    ∃ a j, processContext cfg c actions = .ok (.job j) ∧ j.Placed cfg ∧ j = ⟨c, actions, i, a,
      if c.currentActionState ≠ .running ∧ 0 < cfg.retries then .announce cfg.retries else .execute⟩ := by
  obtain ⟨hpos, a, hget, hw⟩ := turn_eq_some h
  refine ⟨a, _, ?_, ⟨hpos, hget, hw⟩, rfl⟩
  rw [processContext, h]
  exact iteration_eq hpos hget

/-- What the end of the loop body leads to: the process ends, the worker is done with the context, or it goes on with
the next action. -/
theorem Job.Placed.concluded_cases (h : job.Placed cfg) (status : State) (updated : Bool) :
    ((status = .success → updated = false) ∧ job.concluded cfg status updated = .ok .exit) ∨
      (status = .success ∧ updated = true ∧ job.concluded cfg status updated = .ok .next ∧
        ¬ ∃ a, job.actions[job.actionIndex.toNat + 1]? = some a ∧ a.workerId = cfg.workerID) ∨
      (status = .success ∧ updated = true ∧ ∃ a j', job.actions[job.actionIndex.toNat + 1]? = some a ∧
        job.concluded cfg status updated = .ok (.job j') ∧ j'.Placed cfg ∧
        j' = ⟨job.wfContext, job.actions, job.actionIndex + 1, a,
          if job.wfContext.currentActionState ≠ .running ∧
            0 < cfg.retries then .announce cfg.retries else .execute⟩) := by
  have hpos := h.nonneg
  have hlt := (List.getElem?_eq_some_iff.1 h.get).1
  have htoNat : (job.actionIndex + 1).toNat = job.actionIndex.toNat + 1 := by omega
  unfold Job.concluded
  by_cases hend : status = .success → updated = false
  · left
    refine ⟨hend, ?_⟩
    split
    · rfl
    · rename_i hs
      rw [if_pos (hend (not_not.1 hs))]
  · right
    obtain ⟨hs, hupdated⟩ := Classical.not_imp.1 hend
    have hupdated : updated = true := by simpa using hupdated
    rw [if_neg (not_not.2 hs), if_neg (by simp [hupdated])]
    by_cases hlast : (job.actions.length : Int) = job.actionIndex + 1
    · left
      refine ⟨hs, hupdated, if_pos hlast, ?_⟩
      rintro ⟨a, hget, -⟩
      have := (List.getElem?_eq_some_iff.1 hget).1
      omega
    · rw [if_neg hlast]
      have hnext : job.actionIndex.toNat + 1 < job.actions.length := by omega
      have hindex : (Outcome.index job.actions (job.actionIndex + 1) : Outcome Empty WorkflowAction) =
          .ok job.actions[job.actionIndex.toNat + 1] :=
        Outcome.index_eq_ok.2 ⟨by omega, by rw [htoNat]; exact List.getElem?_eq_getElem hnext⟩
      rw [hindex, Outcome.ok_bind]
      by_cases hw : job.actions[job.actionIndex.toNat + 1].workerId = cfg.workerID
      · right
        have hget : job.actions[(job.actionIndex + 1).toNat]? = some job.actions[job.actionIndex.toNat + 1] := by
          rw [htoNat]
          exact List.getElem?_eq_getElem hnext
        have hpos' : 0 ≤ job.actionIndex + 1 := by omega
        refine ⟨hs, hupdated, _, _, List.getElem?_eq_getElem hnext, ?_, ⟨hpos', hget, hw⟩, rfl⟩
        rw [if_neg (not_not.2 hw)]
        exact iteration_eq hpos' hget
      · left
        refine ⟨hs, hupdated, by rw [if_pos hw]; rfl, ?_⟩
        rintro ⟨a, hget, ha⟩
        rw [List.getElem?_eq_getElem hnext] at hget
        cases hget
        exact hw ha

/-- A worker at work is at work on an action of its own. -/
def PlacedProgress (cfg : Config) : Outcome Empty Progress → Prop
  | .ok (.job j) => j.Placed cfg
  | .ok .next | .ok .exit => True
  | .error e => e.elim
  | .panic => False

private theorem placed_concluded (h : job.Placed cfg) (status : State) (updated : Bool) :
    PlacedProgress cfg (job.concluded cfg status updated) := by
  rcases h.concluded_cases status updated with ⟨-, he⟩ | ⟨-, -, he, -⟩ | ⟨-, -, a, j', -, he, hj', -⟩
  · rw [he]; trivial
  · rw [he]; trivial
  · rw [he]; exact hj'

private theorem PlacedProgress.step {x : Outcome Empty Progress} (h : PlacedProgress cfg x) (i : Input) :
    PlacedProgress cfg (Worker.step cfg x i) := by
  match x, h with
  | .ok .next, _ => trivial
  | .ok .exit, _ => trivial
  | .ok (.job j), h =>
    show PlacedProgress cfg (j.step cfg i)
    unfold Job.step
    split
    · split
      · exact ⟨h.nonneg, h.get, h.worker⟩
      · split
        · trivial
        · exact ⟨h.nonneg, h.get, h.worker⟩
    · split
      · trivial
      · split
        · exact ⟨h.nonneg, h.get, h.worker⟩
        · exact placed_concluded h _ _
    · split
      · exact placed_concluded h _ _
      · split
        · trivial
        · exact ⟨h.nonneg, h.get, h.worker⟩

end Tink.Worker
