import Tink.Template
import Tink.Lib.GoTime

/-!
# The workflow object of the Kubernetes backend

The custom resource `Workflow` with its status (`pkg/apis/core/v1alpha1`), the status a template starts with
(`pkg/convert`), and the scan `getTaskActionInfo` for the current action.

The scan walks over the tasks and, in each, over the actions; it counts the successful actions it passes, stops at the
first action whose status is pending, running, failed or timeout, and goes on counting the total.  A `Cursor` is the
position it stops at, written as a split of the two nested lists; `Cursor.info` and `info_of_closed` say what the scan
returns with and without one.
-/

namespace Tink.Kube

open GoTime

/-- `metav1.Time` as the API server keeps it: RFC 3339, so in whole seconds since the epoch. -/
structure MetaTime where
  unix : Int
deriving DecidableEq

/-- What is kept of an instant. -/
def MetaTime.ofTime (t : Time) : MetaTime := ⟨t / second⟩

/-- The instant read back. -/
def MetaTime.time (t : MetaTime) : Time := t.unix * second

/-- `v1alpha1.Action`. -/
structure Action where
  name : String
  image : String := ""
  timeout : Int := 0
  command : List String := []
  volumes : List String := []
  pid : String := ""
  environment : StringMap := ∅
  status : WorkflowState := .unset
  startedAt : Option MetaTime := none
  seconds : Int := 0
  message : String := ""
deriving DecidableEq

/-- `v1alpha1.Task`. -/
structure Task where
  name : String
  workerAddr : String
  actions : List Action
  volumes : List String := []
  environment : StringMap := ∅
deriving DecidableEq

/-- `v1alpha1.WorkflowStatus`. -/
structure WorkflowStatus where
  state : WorkflowState := .unset
  globalTimeout : Int := 0
  tasks : List Task := []
deriving DecidableEq

/-- `v1alpha1.WorkflowSpec`. -/
structure WorkflowSpec where
  templateRef : String := ""
  hardwareRef : String := ""
  hardwareMap : StringMap := ∅
deriving DecidableEq

/-- `v1alpha1.Workflow`.  Kubernetes gives every object a name. -/
structure Workflow where
  name : String
  name_ne : name ≠ ""
  ns : String := ""
  deletionTimestamp : Option Time := none
  spec : WorkflowSpec := {}
  status : WorkflowStatus := {}
deriving DecidableEq

/-- `convert.WorkflowYAMLToStatus`. -/
def workflowYAMLToStatus (wf : Template.Workflow) : WorkflowStatus where
  globalTimeout := wf.globalTimeout
  tasks := wf.tasks.map fun task =>
    { name := task.name
      workerAddr := task.workerAddr
      volumes := task.volumes
      environment := task.environment
      actions := task.actions.map fun action =>
        { name := action.name
          image := action.image
          timeout := action.timeout
          command := action.command
          volumes := action.volumes
          status := stateName .pending
          environment := action.environment
          pid := action.pid } }

/-- The start time, for the first action of the first task. -/
def Workflow.getStartTime (w : Workflow) : Option MetaTime :=
  match w.status.tasks with
  | [] => none
  | task :: _ =>
    match task.actions with
    | [] => none
    | action :: _ => action.startedAt

/-! ### The scan for the current action -/

/-- `taskInfo`. -/
structure TaskInfo where
  currentWorker : String := ""
  currentTask : String := ""
  currentTaskIndex : Nat := 0
  currentAction : String := ""
  currentActionIndex : Nat := 0
  currentActionState : WorkflowState := .unset
  totalNumberOfActions : Nat := 0
deriving DecidableEq

/-- The local variables of `getTaskActionInfo`; a task index of -1 is `none`. -/
structure Scan where
  found : Bool := false
  taskIndex : Option Nat := none
  actionIndex : Nat := 0
  actionTaskIndex : Nat := 0
  actionCount : Nat := 0

/-- The loop over the actions of task `ti`, from position `ai` on. -/
def scanActions (ti : Nat) : Nat → List Action → Scan → Scan
  | _, [], s => s
  | ai, action :: actions, s =>
    match action.status with
    | .success => scanActions ti (ai + 1) actions { s with actionIndex := s.actionIndex + 1 }
    | .pending | .running | .failed | .timeout =>
      { s with taskIndex := some ti, actionTaskIndex := ai, found := true }
    | .unset => scanActions ti (ai + 1) actions s

/-- The loop over the tasks, from position `ti` on. -/
def scanTasks : Nat → List Task → Scan → Scan
  | _, [], s => s
  | ti, task :: tasks, s =>
    let s := { s with actionCount := s.actionCount + task.actions.length }
    scanTasks (ti + 1) tasks (if s.found then s else scanActions ti 0 task.actions s)

namespace Workflow

def getTaskActionInfo (w : Workflow) : TaskInfo :=
  let s := scanTasks 0 w.status.tasks {}
  let ti : TaskInfo := { totalNumberOfActions := s.actionCount, currentActionIndex := s.actionIndex }
  match s.taskIndex.bind (w.status.tasks[·]?) with
  | none => ti
  | some task =>
    let ti := { ti with
      currentWorker := task.workerAddr, currentTask := task.name, currentTaskIndex := s.taskIndex.getD 0 }
    match task.actions[s.actionTaskIndex]? with
    | none => ti
    | some action => { ti with currentAction := action.name, currentActionState := action.status }

def getCurrentWorker (w : Workflow) : String := w.getTaskActionInfo.currentWorker
def getCurrentTask (w : Workflow) : String := w.getTaskActionInfo.currentTask
def getCurrentTaskIndex (w : Workflow) : Nat := w.getTaskActionInfo.currentTaskIndex
def getCurrentAction (w : Workflow) : String := w.getTaskActionInfo.currentAction
def getCurrentActionIndex (w : Workflow) : Nat := w.getTaskActionInfo.currentActionIndex
def getCurrentActionState (w : Workflow) : WorkflowState := w.getTaskActionInfo.currentActionState
def getTotalNumberOfActions (w : Workflow) : Nat := w.getTaskActionInfo.totalNumberOfActions

end Workflow

/-! ### What the scan finds -/

/-- The statuses the scan stops at. -/
def isOpen : WorkflowState → Bool
  | .pending | .running | .failed | .timeout => true
  | .success | .unset => false

/-- The actions of all tasks, in order. -/
def actionsOf (tasks : List Task) : List Action := tasks.flatMap Task.actions

/-- The number of successful actions, the count the scan keeps. -/
def successes (actions : List Action) : Nat := actions.countP (fun a => a.status = .success)

/-- The position of the first open action, as a split of the tasks and of the actions of one task. -/
structure Cursor where
  before : List Task
  task : Task
  after : List Task
  done : List Action
  action : Action
  rest : List Action
  actions_eq : task.actions = done ++ action :: rest
  before_closed : ∀ a ∈ actionsOf before, isOpen a.status = false
  done_closed : ∀ a ∈ done, isOpen a.status = false
  action_open : isOpen action.status = true

/-- The task list a cursor splits. -/
def Cursor.tasks (c : Cursor) : List Task := c.before ++ c.task :: c.after

@[simp] theorem actionsOf_nil : actionsOf [] = [] := rfl

@[simp] theorem actionsOf_cons (t : Task) (ts : List Task) : actionsOf (t :: ts) = t.actions ++ actionsOf ts := rfl

@[simp] theorem actionsOf_append (ts ts' : List Task) : actionsOf (ts ++ ts') = actionsOf ts ++ actionsOf ts' :=
  List.flatMap_append

theorem mem_actionsOf {a : Action} {tasks : List Task} : a ∈ actionsOf tasks ↔ ∃ t ∈ tasks, a ∈ t.actions :=
  List.mem_flatMap

@[simp] theorem successes_nil : successes [] = 0 := rfl

@[simp] theorem successes_append (as bs : List Action) : successes (as ++ bs) = successes as + successes bs :=
  List.countP_append

private theorem successes_cons (a : Action) (as : List Action) :
    successes (a :: as) = successes as + if a.status = .success then 1 else 0 := by
  simp [successes, List.countP_cons]

private theorem scanActions_closed (ti ai : Nat) (as : List Action) (s : Scan)
    (h : ∀ a ∈ as, isOpen a.status = false) :
    scanActions ti ai as s = { s with actionIndex := s.actionIndex + successes as } := by
  induction as generalizing ai s with
  | nil => rfl
  | cons a as ih =>
    obtain ⟨ha, has⟩ := List.forall_mem_cons.1 h
    rw [scanActions, successes_cons]
    cases hs : a.status with
    | success => dsimp only; rw [ih _ _ has]; simp; omega
    | unset => dsimp only; rw [ih _ _ has]; simp
    | _ => simp [hs, isOpen] at ha

private theorem scanActions_open (ti ai : Nat) (as rest : List Action) (a : Action) (s : Scan)
    (h : ∀ a ∈ as, isOpen a.status = false) (ha : isOpen a.status = true) :
    scanActions ti ai (as ++ a :: rest) s =
      { s with
        actionIndex := s.actionIndex + successes as, taskIndex := some ti, actionTaskIndex := ai + as.length,
        found := true } := by
  induction as generalizing ai s with
  | nil =>
    rw [List.nil_append, scanActions]
    cases hs : a.status <;> simp [hs, isOpen] at ha ⊢
  | cons b as ih =>
    obtain ⟨hb, has⟩ := List.forall_mem_cons.1 h
    rw [List.cons_append, scanActions, successes_cons]
    cases hs : b.status with
    | success => dsimp only; rw [ih _ _ has]; simp; omega
    | unset => dsimp only; rw [ih _ _ has]; simp; omega
    | _ => simp [hs, isOpen] at hb

private theorem scanTasks_found (ti : Nat) (ts : List Task) (s : Scan) (h : s.found = true) :
    scanTasks ti ts s = { s with actionCount := s.actionCount + (actionsOf ts).length } := by
  induction ts generalizing ti s with
  | nil => rfl
  | cons t ts ih =>
    rw [scanTasks]
    simp only [h, if_true]
    rw [ih _ _ rfl]
    simp; omega

private theorem scanTasks_closed (ti : Nat) (ts ts' : List Task) (s : Scan) (hs : s.found = false)
    (h : ∀ a ∈ actionsOf ts, isOpen a.status = false) :
    scanTasks ti (ts ++ ts') s = scanTasks (ti + ts.length) ts'
      { s with
        actionIndex := s.actionIndex + successes (actionsOf ts),
        actionCount := s.actionCount + (actionsOf ts).length } := by
  induction ts generalizing ti s with
  | nil => rfl
  | cons t ts ih =>
    have ht : ∀ a ∈ t.actions, isOpen a.status = false := fun a ha => h a (by simp [ha])
    have hts : ∀ a ∈ actionsOf ts, isOpen a.status = false := fun a ha => h a (by simp [ha])
    rw [List.cons_append, scanTasks]
    simp only [hs, Bool.false_eq_true, if_false]
    rw [scanActions_closed _ _ _ _ ht, ih _ _ rfl hts]
    simp [Nat.add_assoc, Nat.add_comm 1]

/-- The tasks have an open action or they do not. -/
theorem closed_or_cursor (tasks : List Task) :
    (∀ a ∈ actionsOf tasks, isOpen a.status = false) ∨ ∃ c : Cursor, tasks = c.tasks := by
  induction tasks with
  | nil => left; simp
  | cons t ts ih =>
    by_cases ht : ∀ a ∈ t.actions, isOpen a.status = false
    · rcases ih with h | ⟨c, rfl⟩
      · left
        intro a ha
        rcases List.mem_append.1 ha with ha | ha
        · exact ht a ha
        · exact h a ha
      · right
        refine ⟨{ c with before := t :: c.before, before_closed := ?_ }, rfl⟩
        intro a ha
        rcases List.mem_append.1 ha with ha | ha
        · exact ht a ha
        · exact c.before_closed a ha
    · right
      -- the first open action of `t`
      obtain ⟨a, ha⟩ : ∃ a, t.actions.find? (fun a => isOpen a.status) = some a := by
        rw [← Option.isSome_iff_exists, List.find?_isSome]
        simpa using ht
      obtain ⟨hopen, as, rest, has, hclosed⟩ := List.find?_eq_some_iff_append.1 ha
      refine ⟨⟨[], t, ts, as, a, rest, has, by simp, ?_, by simpa using hopen⟩, rfl⟩
      intro b hb
      simpa using hclosed b hb

theorem info_of_closed {w : Workflow} (h : ∀ a ∈ actionsOf w.status.tasks, isOpen a.status = false) :
    w.getTaskActionInfo =
      { currentActionIndex := successes (actionsOf w.status.tasks),
        totalNumberOfActions := (actionsOf w.status.tasks).length } := by
  have hs := scanTasks_closed 0 w.status.tasks [] {} rfl h
  rw [List.append_nil] at hs
  unfold Workflow.getTaskActionInfo
  rw [hs]
  simp [scanTasks]

namespace Cursor

variable (c : Cursor)

theorem length_actionsOf :
    (actionsOf c.tasks).length =
      (actionsOf c.before).length + c.done.length + 1 + c.rest.length + (actionsOf c.after).length := by
  simp [tasks, c.actions_eq]; omega

/-- What the scan returns at a cursor. -/
theorem info {w : Workflow} (h : w.status.tasks = c.tasks) : w.getTaskActionInfo =
    { currentWorker := c.task.workerAddr
      currentTask := c.task.name
      currentTaskIndex := c.before.length
      currentAction := c.action.name
      currentActionIndex := successes (actionsOf c.before) + successes c.done
      currentActionState := c.action.status
      totalNumberOfActions := (actionsOf c.tasks).length } := by
  have hs := scanTasks_closed 0 c.before (c.task :: c.after) {} rfl c.before_closed
  rw [show c.before ++ c.task :: c.after = c.tasks from rfl, scanTasks] at hs
  simp only [Bool.false_eq_true, if_false] at hs
  rw [c.actions_eq, scanActions_open _ _ _ _ _ _ c.done_closed c.action_open, scanTasks_found _ c.after _ rfl] at hs
  have htask : c.tasks[c.before.length]? = some c.task := by simp [tasks]
  have haction : c.task.actions[c.done.length]? = some c.action := by simp [c.actions_eq]
  unfold Workflow.getTaskActionInfo
  rw [h, hs]
  simp [htask, haction, c.length_actionsOf]
  omega

end Cursor

end Tink.Kube
