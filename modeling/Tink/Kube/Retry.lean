import Tink.Kube.Interleaving

/-!
# Reports delivered twice on the Kubernetes backend

A worker sends a report again when the answer to it was an error or got lost, so the server meets a report in the
state that its own first delivery has produced.  The first delivery has moved the current action if it reported a
success (or a number that is no declared state), and then the names do not match any more (`not_accepts_again`).
Otherwise the report finds its action again and writes it with the clock of the second delivery: `RUNNING` moves the
start time, which is kept in whole seconds, and `FAILED` and `TIMEOUT` recompute the running time from it
(`reportedAction_again`).
-/

namespace Tink.Kube

open GoTime Machine

variable {r : Template.Renderer TemplateData} {wf wf₀ wf' : Workflow} {c : Cursor} {env : ReportEnv}
  {req : WorkflowActionStatus} {s : State} {now now' : Time}

/-- The start time of the current action. -/
def Workflow.currentStart (wf : Workflow) : Option MetaTime :=
  ((actionsOf wf.status.tasks).find? fun a => isOpen a.status).bind Action.startedAt

private theorem Cursor.currentStart_eq (hc : wf.status.tasks = c.tasks) : wf.currentStart = c.action.startedAt := by
  have hfind : (actionsOf wf.status.tasks).find? (fun a => isOpen a.status) = some c.action := by
    rw [hc, c.actionsOf_tasks, List.find?_eq_some_iff_append]
    refine ⟨by simpa using c.action_open, c.front, c.back, rfl, fun a ha => ?_⟩
    simpa using c.front_closed a ha
  rw [Workflow.currentStart, hfind, Option.bind_some]

/-! ### The second delivery -/

/-- The state a report leaves its action open in. -/
private theorem isOpen_stateName (h : s ≠ .pending) :
    isOpen (stateName s) = true ↔ s = .running ∨ s = .failed ∨ s = .timeout := by
  cases s <;> simp [stateName, isOpen] at h ⊢

/-- After a report that closed its action, the names in it match no current action. -/
private theorem not_accepts_again (hu : UniqueNames c.tasks) (hacc : c.Accepts wf env req)
    (hclosed : isOpen (stateName req.actionStatus) = false) (env' : ReportEnv) (wf'' : Workflow) :
    reportActionStatus env' (c.reported env.now req.actionStatus wf) req ≠ .ok wf'' := by
  intro hok
  have hu' : UniqueNames (c.replace (reportedAction env.now req.actionStatus c.action)) :=
    UniqueNames.congr (c.skeleton_replace (reportedAction_name _ _ _)) hu
  rcases closed_or_cursor (c.reported env.now req.actionStatus wf).status.tasks with h | ⟨c', hc'⟩
  · exact report_closed h env' req hok
  · have htasks : c.replace (reportedAction env.now req.actionStatus c.action) = c'.tasks := hc'
    obtain ⟨hacc', -⟩ := (report_eq_ok hc' (htasks ▸ hu')).1 hok
    -- both cursors are at the action with the names of the request
    have h1 := c.stored_replace_self (reportedAction_name env.now req.actionStatus c.action)
    have h2 := c'.stored_replace_self (a := c'.action) rfl
    rw [reportedAction_status, ← hacc.named.task, ← hacc.named.action] at h1
    rw [c'.replace_self, ← htasks, ← hacc'.named.task, ← hacc'.named.action] at h2
    have hopen := c'.action_open
    rw [Stored.eq hu' h1 h2, hclosed] at hopen
    cases hopen

/-- The cursor at the same place after a report that left its action open. -/
def Cursor.again (c : Cursor) (now : Time) (s : State) (hopen : isOpen (stateName s) = true) : Cursor where
  before := c.before
  task := { c.task with actions := c.done ++ reportedAction now s c.action :: c.rest }
  after := c.after
  done := c.done
  action := reportedAction now s c.action
  rest := c.rest
  actions_eq := rfl
  before_closed := c.before_closed
  done_closed := c.done_closed
  action_open := by rw [reportedAction_status]; exact hopen

private theorem Cursor.again_accepts (hacc : c.Accepts wf env req)
    (hopen : isOpen (stateName req.actionStatus) = true) (env' : ReportEnv) :
    (c.again env.now req.actionStatus hopen).Accepts (c.reported env.now req.actionStatus wf) env' req ↔
      env'.getErr = none ∧ env'.updateErr = none := by
  constructor
  · intro h
    exact ⟨h.get, h.update⟩
  · rintro ⟨hget, hupdate⟩
    refine ⟨hget, hupdate, ⟨hacc.named.workflow, hacc.named.task, ?_, hacc.named.task_ne, hacc.named.action_ne⟩,
      hacc.index, hacc.status⟩
    rw [hacc.named.action]
    exact (reportedAction_name _ _ _).symm

private theorem Cursor.replace_injective {a b : Action} (h : c.replace a = c.replace b) : a = b := by
  simpa [Cursor.replace] using h

private theorem MetaTime.ofTime_inj : MetaTime.ofTime now' = .ofTime now ↔ now' / second = now / second := by
  rw [MetaTime.ofTime, MetaTime.ofTime, MetaTime.mk.injEq]

/-- Writing an action a second time changes nothing exactly if the clock makes no difference. -/
theorem reportedAction_again (a : Action) (hopen : isOpen (stateName s) = true) (hs : s ≠ .pending) :
    reportedAction now' s (reportedAction now s a) = reportedAction now s a ↔
      (s = .running ∧ now' / second = now / second) ∨ ((s = .failed ∨ s = .timeout) ∧
        ∀ t, a.startedAt = some t → wholeSeconds (sub now' t.time) = wholeSeconds (sub now t.time)) := by
  rcases (isOpen_stateName hs).1 hopen with rfl | rfl | rfl
  · simp [reportedAction, MetaTime.ofTime_inj]
  all_goals
    cases ht : a.startedAt with
    | none => simp [reportedAction, setSeconds, ht]
    | some t => simp [reportedAction, setSeconds, ht]

/-- The second delivery finds the workflow as the first one left it exactly if it finds the action so. -/
private theorem Cursor.again_reported (hopen : isOpen (stateName s) = true) (hs : s ≠ .pending) :
    c.reported now s wf = (c.again now s hopen).reported now' s (c.reported now s wf) ↔
      reportedAction now' s (reportedAction now s c.action) = reportedAction now s c.action := by
  -- the state of the workflow is the same both times
  have hstate : ∀ (p q : Prop) [Decidable p] [Decidable q] (old old' : WorkflowState),
      reportedState s p old = reportedState s q old' := by
    intro p q _ _ old old'
    rcases (isOpen_stateName hs).1 hopen with rfl | rfl | rfl <;> rfl
  constructor
  · intro h
    have htasks : c.replace (reportedAction now s c.action) =
        c.replace (reportedAction now' s (reportedAction now s c.action)) := congrArg (fun w => w.status.tasks) h
    exact (Cursor.replace_injective htasks).symm
  · intro h
    have htasks : (c.again now s hopen).replace (reportedAction now' s (reportedAction now s c.action)) =
        c.replace (reportedAction now s c.action) := by rw [h]; rfl
    unfold Cursor.reported
    simp only
    rw [show (c.again now s hopen).action = reportedAction now s c.action from rfl, htasks,
      hstate ((c.again now s hopen).index + 1 = (actionsOf (c.again now s hopen).tasks).length)
        (c.index + 1 = (actionsOf c.tasks).length) _ wf.status.state]

/-- For every workflow reached by reports and reconciliations and every report accepted in it: delivered again, the
report is accepted and leaves the workflow as the first delivery left it exactly if the API server answers and either
it reports `RUNNING` within the same second of the clock, or it reports `FAILED` or `TIMEOUT` and its action has no
start time, or has been running for the same whole number of seconds. -/
theorem retry_iff_same_second (h0 : wf₀.status = {}) (es : List Event) {env : ReportEnv} {req : WorkflowActionStatus}
    {wf' : Workflow} (hok : reportActionStatus env (run (step r) wf₀ es) req = .ok wf') (env' : ReportEnv) :
    reportActionStatus env' wf' req = .ok wf' ↔
      env'.getErr = none ∧ env'.updateErr = none ∧
        ((req.actionStatus = .running ∧ env'.now / second = env.now / second) ∨
          ((req.actionStatus = .failed ∨ req.actionStatus = .timeout) ∧
            ∀ t, (run (step r) wf₀ es).currentStart = some t →
              wholeSeconds (sub env'.now t.time) = wholeSeconds (sub env.now t.time))) := by
  have hu := unique_of_run (r := r) h0 es
  generalize run (step r) wf₀ es = wf at hok hu ⊢
  rcases closed_or_cursor wf.status.tasks with hclosed | ⟨c, hc⟩
  · exact absurd hok (report_closed hclosed env req)
  rw [hc] at hu
  obtain ⟨hacc, rfl⟩ := (report_eq_ok hc hu).1 hok
  rw [Cursor.currentStart_eq hc]
  by_cases hopen : isOpen (stateName req.actionStatus) = true
  · have hu' : UniqueNames (c.again env.now req.actionStatus hopen).tasks :=
      UniqueNames.congr (c.skeleton_replace (reportedAction_name _ _ _)) hu
    rw [report_eq_ok (c := c.again env.now req.actionStatus hopen) rfl hu', Cursor.again_accepts hacc hopen env',
      Cursor.again_reported hopen hacc.status, reportedAction_again c.action hopen hacc.status, and_assoc]
  · refine iff_of_false (not_accepts_again hu hacc (Bool.eq_false_iff.2 hopen) env' _) ?_
    rw [isOpen_stateName hacc.status] at hopen
    rintro ⟨-, -, ⟨hs, -⟩ | ⟨hs | hs, -⟩⟩ <;> exact hopen (by simp [hs])

/-- `RUNNING` at 1.9 and 1.95 seconds, and then `FAILED` at 9 and 9.5 seconds. -/
theorem retry_iff_same_second_twice :
    let r := Template.Renderer.reading TemplateData (.ofNames [("os", "m1", ["stream", "boot"])])
    let begun := [Event.reconcile (.still 0)]
    let running : WorkflowActionStatus :=
      { workflowId := "wf", taskName := "os", actionName := "stream", actionStatus := .running }
    let failed : WorkflowActionStatus :=
      { workflowId := "wf", taskName := "os", actionName := "stream", actionStatus := .failed }
    (∃ wf', reportActionStatus { now := 1900000000 } (run (step r) (.ofStatus {}) begun) running = .ok wf' ∧
      reportActionStatus { now := 1950000000 } wf' running = .ok wf') ∧
    ∃ wf', reportActionStatus { now := 9 * second } (run (step r) (.ofStatus {})
        (begun ++ [.report { now := 1900000000 } running])) failed = .ok wf' ∧
      reportActionStatus { now := 9500000000 } wf' failed = .ok wf' := by
  intro r begun running failed
  have hrunning : reportActionStatus { now := 1900000000 } (run (step r) (.ofStatus {}) begun) running = .ok _ := rfl
  have hfailed : reportActionStatus { now := 9 * second } (run (step r) (.ofStatus {})
      (begun ++ [.report { now := 1900000000 } running])) failed = .ok _ := rfl
  refine ⟨⟨_, hrunning, ?_⟩, _, hfailed, ?_⟩
  · exact (retry_iff_same_second rfl _ hrunning { now := 1950000000 }).2 ⟨rfl, rfl, .inl ⟨rfl, by decide⟩⟩
  · refine (retry_iff_same_second rfl _ hfailed { now := 9500000000 }).2 ⟨rfl, rfl, .inr ⟨.inl rfl, fun t ht => ?_⟩⟩
    cases ht
    decide +kernel

/-- A `RUNNING` report delivered again is accepted and moves the start time; a `SUCCESS` report delivered again is
rejected. -/
theorem repeated_report_moves_start :
    let r := Template.Renderer.reading TemplateData (.ofNames [("os", "m1", ["stream", "boot"])])
    let wf := run (step r) (.ofStatus {}) [.reconcile (.still 0)]
    let running := { workflowId := "wf", taskName := "os", actionName := "stream", actionStatus := State.running }
    let success := { workflowId := "wf", taskName := "os", actionName := "stream", actionStatus := State.success }
    ∃ wf₁ wf₂ wf₃ e,
      reportActionStatus { now := 0 } wf running = .ok wf₁ ∧ wf₁.getStartTime = some ⟨0⟩ ∧
      reportActionStatus { now := 30 * second } wf₁ running = .ok wf₂ ∧ wf₂.getStartTime = some ⟨30⟩ ∧
      reportActionStatus { now := 40 * second } wf₂ success = .ok wf₃ ∧
      reportActionStatus { now := 50 * second } wf₃ success = .error e :=
  ⟨_, _, _, _, rfl, rfl, rfl, rfl, rfl, rfl⟩

end Tink.Kube
