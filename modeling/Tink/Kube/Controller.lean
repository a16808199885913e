import Tink.Kube.Server
import Tink.Lib.Outcome

/-!
# The workflow controller

`Controller.Reconcile` of `pkg/controllers/workflow/controller.go`: a workflow without a state is initialised from its
template, a running one is checked for timeouts, and any other is left alone.  What changed in the copy is written
back as a merge patch of the status: a field that differs between the copy as read and the copy as modified replaces
the stored one, the task list as a whole.

The clock is read once for the global deadline and up to twice for every action, so a reading is named by the place
that makes it.  The start time of the workflow is a pointer, and `processRunningWorkflow` dereferences it.
-/

namespace Tink.Kube

open GoTime

/-- An error of a `Get` against the API server. -/
inductive GetError where
  | notFound
  | other (message : String)

/-- A value of the data a template is rendered with. -/
inductive DataValue where
  | text (s : String)
  | hardware (disks : List String)

abbrev TemplateData := AList (fun _ : String => DataValue)

/-- A call of `nowFunc` in `processRunningWorkflow`. -/
inductive Reading where
  | global
  | check (ti ai : Nat)
  | elapsed (ti ai : Nat)

/-- The clock and the answers of the API server during one `Reconcile`. -/
structure ReconcileEnv where
  now : Reading → Time
  getErr : Option GetError := none
  template : Except GetError (Option String) := .error .notFound
  hardware : Except GetError (List String) := .error .notFound
  patchErr : Option String := none

/-- What `Reconcile` returns. -/
structure Result where
  requeue : Bool := false
  err : Option String := none
deriving DecidableEq

/-- The data for the template: the hardware map and, if there is one, the disks of the hardware. -/
def templateData (hardwareMap : StringMap) (hardware : Except GetError (List String)) : TemplateData :=
  let data := hardwareMap.foldl (fun data key val => data.insert key (.text val)) (∅ : TemplateData)
  match hardware with
  | .ok disks => data.insert "Hardware" (.hardware disks)
  | .error _ => data

/-- The status `processNewWorkflow` gives a workflow. -/
def initialStatus (tinkWf : Template.Workflow) : WorkflowStatus :=
  { workflowYAMLToStatus tinkWf with state := .pending }

section

variable (r : Template.Renderer TemplateData)

/-- The last part of `processNewWorkflow`, once the template and the hardware have been read. -/
def populate (stored : Workflow) (templateText : String) (hardware : Except GetError (List String)) :
    Workflow × Result :=
  match Template.renderTemplateHardware r stored.name templateText
    (templateData stored.spec.hardwareMap hardware) with
  | .error e => (stored, { err := some e })
  | .ok (tinkWf, _) => ({ stored with status := initialStatus tinkWf }, {})

def processNewWorkflow (env : ReconcileEnv) (stored : Workflow) : Workflow × Result :=
  match env.template with
  | .error .notFound =>
    (stored, { err := some ("no template found: name=" ++ stored.spec.templateRef ++ "; namespace=" ++ stored.ns) })
  | .error (.other _) => (stored, { requeue := true })
  | .ok data =>
    match env.hardware with
    | .error (.other e) => (stored, { err := some e })
    | .error .notFound =>
      if stored.spec.hardwareRef ≠ "" then
        (stored,
          { err := some ("hardware not found: name=" ++ stored.spec.hardwareRef ++ "; namespace=" ++ stored.ns) })
      else populate r stored (data.getD "") env.hardware
    | .ok _ => populate r stored (data.getD "") env.hardware

end

/-! ### Timeouts -/

/-- A running action whose deadline has passed. -/
def timedOut (now : Reading → Time) (ti ai : Nat) (action : Action) : Bool :=
  match action.startedAt with
  | some t => decide (action.status = .running) && after (now (.check ti ai)) (add t.time (seconds action.timeout))
  | none => false

/-- The fields set on a timed out action. -/
def timeoutAction (now : Reading → Time) (ti ai : Nat) (action : Action) : Action :=
  { action with
    status := .timeout
    message := "Action timed out"
    seconds := match action.startedAt with
      | some t => wholeSeconds (sub (now (.elapsed ti ai)) t.time)
      | none => action.seconds }

/-- The loop over the actions of task `ti`, from position `ai` on, with the state of the workflow. -/
def checkActions (now : Reading → Time) (ti : Nat) : Nat → List Action → WorkflowState → List Action × WorkflowState
  | _, [], state => ([], state)
  | ai, action :: actions, state =>
    if timedOut now ti ai action then
      let (actions, state) := checkActions now ti (ai + 1) actions .timeout
      (timeoutAction now ti ai action :: actions, state)
    else
      let (actions, state) := checkActions now ti (ai + 1) actions state
      (action :: actions, state)

/-- The loop over the tasks, from position `ti` on. -/
def checkTasks (now : Reading → Time) : Nat → List Task → WorkflowState → List Task × WorkflowState
  | _, [], state => ([], state)
  | ti, task :: tasks, state =>
    let (actions, state) := checkActions now ti 0 task.actions state
    let (tasks, state) := checkTasks now (ti + 1) tasks state
    ({ task with actions := actions } :: tasks, state)

def processRunningWorkflow (now : Reading → Time) (stored : Workflow) : Outcome Empty Workflow :=
  match stored.getStartTime with
  | none => .panic
  | some start =>
    let state :=
      if after (now .global) (add start.time (seconds stored.status.globalTimeout)) then .timeout
      else stored.status.state
    let (tasks, state) := checkTasks now 0 stored.status.tasks state
    .ok { stored with status := { stored.status with tasks := tasks, state := state } }

/-! ### Reconciliation -/

/-- The JSON merge patch from `read` to `modified`, applied to `current`: every field that changed is replaced. -/
def mergeFrom (read modified current : WorkflowStatus) : WorkflowStatus where
  state := if modified.state = read.state then current.state else modified.state
  globalTimeout :=
    if modified.globalTimeout = read.globalTimeout then current.globalTimeout else modified.globalTimeout
  tasks := if modified.tasks = read.tasks then current.tasks else modified.tasks

variable (r : Template.Renderer TemplateData)

/-- What `Reconcile` makes of the copy it has read. -/
def reconcileCopy (env : ReconcileEnv) (stored : Workflow) : Outcome Empty (Workflow × Result) :=
  if stored.deletionTimestamp.isSome then .ok (stored, {})
  else
    match stored.status.state with
    | .unset => .ok (processNewWorkflow r env stored)
    | .running => do
      let wflow ← processRunningWorkflow env.now stored
      pure (wflow, {})
    | _ => .ok (stored, {})

/-- `Controller.Reconcile` on a store that holds the workflow `stored`; the value is the workflow held afterwards. -/
def reconcile (env : ReconcileEnv) (stored : Workflow) : Outcome Empty (Workflow × Result) :=
  match env.getErr with
  | some .notFound => .ok (stored, {})
  | some (.other _) => .ok (stored, { requeue := true })
  | none => do
    let (wflow, resp) ← reconcileCopy r env stored
    if wflow = stored then pure (stored, resp)
    else
      match env.patchErr with
      | some e => pure (stored, { resp with err := some ("error patching workflow " ++ wflow.name ++ ", " ++ e) })
      | none => pure ({ stored with status := mergeFrom stored.status wflow.status stored.status }, resp)

/-- A patch applied to the copy it was computed from gives the modified copy. -/
theorem mergeFrom_self (read modified : WorkflowStatus) : mergeFrom read modified read = modified := by
  cases read; cases modified
  simp only [mergeFrom, WorkflowStatus.mk.injEq]
  refine ⟨?_, ?_, ?_⟩ <;> split <;> simp_all

variable {r}

/-- `wflow` is `stored` with the status of a template rendered for it. -/
def Populated (r : Template.Renderer TemplateData) (stored wflow : Workflow) : Prop :=
  ∃ text data tinkWf buf, Template.renderTemplateHardware r stored.name text data = .ok (tinkWf, buf) ∧
    wflow = { stored with status := initialStatus tinkWf }

private theorem populate_cases (stored : Workflow) (text : String) (hw : Except GetError (List String)) :
    ((populate r stored text hw).1 = stored ∧ (populate r stored text hw).2 ≠ {}) ∨
      (Populated r stored (populate r stored text hw).1 ∧ (populate r stored text hw).2 = {}) := by
  unfold populate
  split
  · left; exact ⟨rfl, by simp⟩
  · rename_i tinkWf buf hr
    right
    exact ⟨⟨_, _, tinkWf, buf, hr, rfl⟩, rfl⟩

/-- What `processNewWorkflow` can do: leave the workflow alone and say why, or populate it. -/
theorem processNewWorkflow_cases (env : ReconcileEnv) (stored : Workflow) :
    ((processNewWorkflow r env stored).1 = stored ∧ (processNewWorkflow r env stored).2 ≠ {}) ∨
      (Populated r stored (processNewWorkflow r env stored).1 ∧ (processNewWorkflow r env stored).2 = {}) := by
  unfold processNewWorkflow
  split
  · left; exact ⟨rfl, by simp⟩
  · left; exact ⟨rfl, by simp⟩
  · split
    · left; exact ⟨rfl, by simp⟩
    · split
      · left; exact ⟨rfl, by simp⟩
      · exact populate_cases _ _ _
    · exact populate_cases _ _ _

theorem populated_of_processNewWorkflow {env : ReconcileEnv} {stored wf : Workflow}
    (h : processNewWorkflow r env stored = (wf, {})) : Populated r stored wf := by
  have hcases := processNewWorkflow_cases (r := r) env stored
  rw [h] at hcases
  rcases hcases with ⟨-, hne⟩ | ⟨hpop, -⟩
  · exact absurd rfl hne
  · exact hpop

/-! ### What a timeout check changes -/

/-- An action after the check: as before, or running before and timed out now. -/
def Timed (a a' : Action) : Prop :=
  a' = a ∨ (a.status = .running ∧ a'.status = .timeout ∧ a'.name = a.name ∧ a'.startedAt = a.startedAt)

/-- A task after the check. -/
def TimedTask (t t' : Task) : Prop :=
  t'.name = t.name ∧ t'.workerAddr = t.workerAddr ∧ List.Forall₂ Timed t.actions t'.actions

theorem Timed.name {a a' : Action} (h : Timed a a') : a'.name = a.name := by
  rcases h with rfl | ⟨-, -, h, -⟩
  · rfl
  · exact h

theorem Timed.startedAt {a a' : Action} (h : Timed a a') : a'.startedAt = a.startedAt := by
  rcases h with rfl | ⟨-, -, -, h⟩
  · rfl
  · exact h

private theorem timed_timeoutAction {now : Reading → Time} {ti ai : Nat} {a : Action}
    (h : timedOut now ti ai a = true) : Timed a (timeoutAction now ti ai a) := by
  right
  refine ⟨?_, rfl, rfl, rfl⟩
  unfold timedOut at h
  split at h
  · simp only [Bool.and_eq_true, decide_eq_true_eq] at h
    exact h.1
  · cases h

private theorem checkActions_spec (now : Reading → Time) (ti ai : Nat) (as : List Action) (s : WorkflowState) :
    List.Forall₂ Timed as (checkActions now ti ai as s).1 ∧
      ((checkActions now ti ai as s).2 = s ∨ (checkActions now ti ai as s).2 = .timeout) := by
  induction as generalizing ai s with
  | nil => exact ⟨.nil, Or.inl rfl⟩
  | cons a as ih =>
    rw [checkActions]
    by_cases h : timedOut now ti ai a = true
    · obtain ⟨h1, h2⟩ := ih (ai + 1) .timeout
      simp only [h, if_true]
      exact ⟨.cons (timed_timeoutAction h) h1, by rcases h2 with h2 | h2 <;> simp [h2]⟩
    · obtain ⟨h1, h2⟩ := ih (ai + 1) s
      simp only [h, if_false, Bool.false_eq_true]
      exact ⟨.cons (Or.inl rfl) h1, h2⟩

/-- The check keeps the tasks and their names, moves actions from running to timeout only, and can only set the state
to timeout. -/
theorem checkTasks_spec (now : Reading → Time) (ti : Nat) (ts : List Task) (s : WorkflowState) :
    List.Forall₂ TimedTask ts (checkTasks now ti ts s).1 ∧
      ((checkTasks now ti ts s).2 = s ∨ (checkTasks now ti ts s).2 = .timeout) := by
  induction ts generalizing ti s with
  | nil => exact ⟨.nil, Or.inl rfl⟩
  | cons t ts ih =>
    obtain ⟨ha, hs⟩ := checkActions_spec now ti 0 t.actions s
    obtain ⟨h1, h2⟩ := ih (ti + 1) (checkActions now ti 0 t.actions s).2
    rw [checkTasks]
    refine ⟨.cons ⟨rfl, rfl, ha⟩ h1, ?_⟩
    rcases h2 with h2 | h2
    · rcases hs with hs | hs
      · left; exact h2.trans hs
      · right; exact h2.trans hs
    · right; exact h2

private theorem checkActions_eq_or_timeout (now : Reading → Time) (ti ai : Nat) (as : List Action)
    (s : WorkflowState) :
    checkActions now ti ai as s = (as, s) ∨ (checkActions now ti ai as s).2 = .timeout := by
  induction as generalizing ai with
  | nil => left; rfl
  | cons a as ih =>
    rw [checkActions]
    by_cases h : timedOut now ti ai a = true
    · right
      simp only [h, if_true]
      rcases (checkActions_spec now ti (ai + 1) as .timeout).2 with h2 | h2 <;> exact h2
    · simp only [h, if_false, Bool.false_eq_true]
      rcases ih (ai + 1) with h1 | h1
      · left; rw [h1]
      · right; exact h1

private theorem checkTasks_eq_or_timeout (now : Reading → Time) (ti : Nat) (ts : List Task) (s : WorkflowState) :
    checkTasks now ti ts s = (ts, s) ∨ (checkTasks now ti ts s).2 = .timeout := by
  induction ts generalizing ti with
  | nil => left; rfl
  | cons t ts ih =>
    rw [checkTasks]
    rcases checkActions_eq_or_timeout now ti 0 t.actions s with ha | ha
    · rw [ha]
      rcases ih (ti + 1) with h1 | h1
      · left; simp only [h1]
      · right; exact h1
    · right
      rcases (checkTasks_spec now (ti + 1) ts (checkActions now ti 0 t.actions s).2).2 with h2 | h2
      · exact h2.trans ha
      · exact h2

/-- The check leaves a workflow as it is, or times it out. -/
theorem processRunningWorkflow_eq_or_timeout {now : Reading → Time} {stored wflow : Workflow}
    (h : processRunningWorkflow now stored = .ok wflow) : wflow = stored ∨ wflow.status.state = .timeout := by
  unfold processRunningWorkflow at h
  split at h
  · cases h
  · cases h
    split
    · -- the global deadline has passed
      right
      rcases (checkTasks_spec now 0 stored.status.tasks .timeout).2 with h2 | h2 <;> exact h2
    · rcases checkTasks_eq_or_timeout now 0 stored.status.tasks stored.status.state with h1 | h1
      · left; rw [h1]
      · right; exact h1

end Tink.Kube
