import Tink.Kube.Contexts

/-!
# What stays and what settles

A worker reads the action list of a workflow once for every context and keeps it while it works.  Reports and
reconciliations write the whole status back, the action list with it.  All they change in an action is its status, its
start time, its duration and its message; the rest of the tasks, `planned`, is what it was when the workflow was
initialised.  So the list a worker has read is the list anybody would read later (`action_list_fixed`).

The controller on its own comes to rest at once: of any number of reconciliations without a report between them, at
most one changes the workflow (`reconciles_settle`).
-/

namespace Tink.Kube

open GoTime Machine

/-- The action without what is written to it while the workflow runs. -/
def Action.planned (a : Action) : Action :=
  { a with status := .unset, startedAt := none, seconds := 0, message := "" }

def Task.planned (t : Task) : Task := { t with actions := t.actions.map Action.planned }

variable {r : Template.Renderer TemplateData} {wf : Workflow}

/-- The action list is made of what was planned. -/
theorem workflowActionListCRDToProto_planned (wf : Workflow) :
    workflowActionListCRDToProto wf = (entriesOf (wf.status.tasks.map Task.planned)).map fun e =>
      actionCRDToProto e.1 e.2 := by
  rw [workflowActionListCRDToProto_eq]
  simp only [entriesOf, List.flatMap_map, List.map_flatMap, Task.planned, List.map_map, Function.comp_def]
  rfl

/-! ### One step -/

private theorem reportedAction_planned (now : Time) (s : State) (a : Action) :
    (reportedAction now s a).planned = a.planned := by
  cases s <;> simp only [reportedAction, setSeconds, Action.planned] <;> split <;> rfl

private theorem Cursor.replace_planned (c : Cursor) {a : Action} (h : a.planned = c.action.planned) :
    (c.replace a).map Task.planned = c.tasks.map Task.planned := by
  simp [Cursor.replace, Cursor.tasks, Task.planned, c.actions_eq, h]

private theorem checkActions_planned (now : Reading → Time) (ti ai : Nat) (as : List Action) (s : WorkflowState) :
    (checkActions now ti ai as s).1.map Action.planned = as.map Action.planned := by
  induction as generalizing ai s with
  | nil => rfl
  | cons a as ih =>
    rw [checkActions]
    by_cases h : timedOut now ti ai a = true
    · simp only [h, if_true, List.map_cons, ih]
      rfl
    · simp only [h, if_false, Bool.false_eq_true, List.map_cons, ih]

private theorem checkTasks_planned (now : Reading → Time) (ti : Nat) (ts : List Task) (s : WorkflowState) :
    (checkTasks now ti ts s).1.map Task.planned = ts.map Task.planned := by
  induction ts generalizing ti s with
  | nil => rfl
  | cons t ts ih =>
    rw [checkTasks]
    simp only [List.map_cons, ih, Task.planned, checkActions_planned]

private theorem reconcileCopy_planned (hs : wf.status.state ≠ .unset) {env : ReconcileEnv} {wflow : Workflow}
    {resp : Result} (h : reconcileCopy r env wf = .ok (wflow, resp)) :
    wflow.status.tasks.map Task.planned = wf.status.tasks.map Task.planned := by
  unfold reconcileCopy at h
  split at h
  · cases h; rfl
  · split at h
    · rename_i hu; exact absurd hu hs
    · obtain ⟨w', hw', hpure⟩ := Outcome.bind_eq_ok.1 h
      cases hpure
      unfold processRunningWorkflow at hw'
      split at hw'
      · cases hw'
      · cases hw'
        exact checkTasks_planned _ _ _ _
    · cases h; rfl

/-- A step keeps what is planned of an initialised workflow. -/
theorem planned_step (hu : UniqueNames wf.status.tasks) (hs : wf.status.state ≠ .unset) (e : Event) :
    (step r wf e).status.tasks.map Task.planned = wf.status.tasks.map Task.planned := by
  cases e with
  | reconcile env =>
    rcases reconcile_eq_copy (r := r) wf env with h | ⟨wflow, resp, hc, h⟩
    · rw [h]
    · have hplanned := reconcileCopy_planned hs hc
      rw [h]; exact hplanned
  | report env req =>
    rcases closed_or_cursor wf.status.tasks with hclosed | ⟨c, hc⟩
    · cases hr : reportActionStatus env wf req with
      | error _ => simp only [step, hr]
      | ok wf' => exact absurd hr (report_closed hclosed env req)
    · by_cases hacc : c.Accepts wf env req
      · rw [step_report_of_accepts hc hu hacc, hc]
        exact c.replace_planned (reportedAction_planned _ _ _)
      · rw [step_report_of_not_accepts hc hu hacc]

/-! ### Whole runs -/

private theorem planned_run (hu : UniqueNames wf.status.tasks) (hs : wf.status.state ≠ .unset) (es : List Event) :
    (run (step r) wf es).status.tasks.map Task.planned = wf.status.tasks.map Task.planned := by
  refine (run_inv (I := fun w : Workflow => w.status.tasks.map Task.planned = wf.status.tasks.map Task.planned ∧
    UniqueNames w.status.tasks ∧ w.status.state ≠ .unset) ⟨rfl, hu, hs⟩ ?_).1
  rintro w e ⟨hp, hu, hs⟩
  obtain ⟨hsk, hs'⟩ := skeleton_step (r := r) hu hs e
  exact ⟨(planned_step hu hs e).trans hp, UniqueNames.congr hsk hu, hs'⟩

/-- Once a workflow is initialised, its action list is the same after all later reports and reconciliations. -/
theorem action_list_fixed {wf₀ : Workflow} (h0 : wf₀.status = {}) {es : List Event}
    (hs : (run (step r) wf₀ es).status.state ≠ .unset) (es' : List Event) :
    workflowActionListCRDToProto (run (step r) wf₀ (es ++ es')) =
      workflowActionListCRDToProto (run (step r) wf₀ es) := by
  rw [run_append, workflowActionListCRDToProto_planned, workflowActionListCRDToProto_planned,
    planned_run (unique_of_run h0 es) hs]

theorem action_list_fixed_reported :
    let r := Template.Renderer.reading TemplateData (.ofNames [("os", "m1", ["stream", "boot"])])
    workflowActionListCRDToProto (run (step r) (.ofStatus {}) ([.reconcile (.still 0)] ++
        [.reportOf 0 "os" "stream" .running, .reconcile (.still (seconds 120))])) =
      workflowActionListCRDToProto (run (step r) (.ofStatus {}) [.reconcile (.still 0)]) := by
  intro r
  exact action_list_fixed rfl (by decide) _

/-! ### Reconciliations on their own -/

/-- The controller has nothing to do with the workflow. -/
def Workflow.AtRest (wf : Workflow) : Prop := wf.status.state ≠ .unset ∧ wf.status.state ≠ .running

private theorem reconcile_of_atRest (h : wf.AtRest) (env : ReconcileEnv) : step r wf (.reconcile env) = wf := by
  rcases reconcile_eq_copy (r := r) wf env with hs | ⟨wflow, resp, hc, hs⟩
  · exact hs
  · rcases reconcileCopy_cases hc with rfl | ⟨hu, -⟩ | ⟨hr, -⟩
    · exact hs
    · exact absurd hu h.1
    · exact absurd hr h.2

/-- A reconciliation changes nothing, or leaves a workflow with which the controller has nothing to do any more. -/
private theorem reconcile_eq_or_atRest (env : ReconcileEnv) :
    step r wf (.reconcile env) = wf ∨ (step r wf (.reconcile env)).AtRest := by
  by_cases hu : wf.status.state = .unset
  · rcases reconcile_eq_copy (r := r) wf env with hs | ⟨wflow, resp, hc, hs⟩
    · left; exact hs
    · rcases reconcileCopy_cases hc with rfl | ⟨-, _, _, tpl, _, -, rfl⟩ | ⟨hr, -⟩
      · left; exact hs
      · right
        rw [hs]
        exact ⟨by simp [initialStatus], by simp [initialStatus]⟩
      · rw [hu] at hr; cases hr
  · rcases reconcile_times_out (r := r) hu env with hs | hs
    · left; exact hs
    · right
      exact ⟨by simp [hs], by simp [hs]⟩

/-- Of any number of reconciliations in a row, at most one changes the workflow: it is as it was for some time, and
from then on it is one other workflow. -/
theorem reconciles_settle (wf : Workflow) (envs : List ReconcileEnv) :
    ∃ k w, ∀ n ≤ envs.length,
      run (step r) wf ((envs.take n).map .reconcile) = if n < k then wf else w := by
  induction envs with
  | nil =>
    refine ⟨0, wf, fun n hn => ?_⟩
    simp
  | cons env envs ih =>
    rcases (reconcile_eq_or_atRest env : step r wf (.reconcile env) = wf ∨ _) with h | h
    · obtain ⟨k, w, hk⟩ := ih
      refine ⟨k + 1, w, fun n hn => ?_⟩
      cases n with
      | zero => simp
      | succ n =>
        rw [List.take_succ_cons, List.map_cons, run_cons, h, hk n (by simpa using hn)]
        simp
    · -- from here on the controller leaves the workflow alone
      refine ⟨1, step r wf (.reconcile env), fun n hn => ?_⟩
      cases n with
      | zero => simp
      | succ n =>
        rw [List.take_succ_cons, List.map_cons, run_cons, if_neg (by omega)]
        have hrest : ∀ l : List ReconcileEnv, run (step r) (step r wf (.reconcile env)) (l.map .reconcile) =
            step r wf (.reconcile env) := by
          intro l
          induction l with
          | nil => rfl
          | cons e l ih => rw [List.map_cons, run_cons, reconcile_of_atRest h, ih]
        exact hrest _

end Tink.Kube
