import Tink.Kube.History

/-!
# Final states and the start time

Two properties of the histories of a workflow that depend on the order of the reports.

A failed, timed out or successful workflow stays what it is unless a report overrides it: the handler compares names,
never the state of the workflow, so a report about the current action is accepted after a failure or a timeout as well
(`final_iff_not_overridden`).

A running workflow has a start time unless its first `RUNNING` report was about another action than the first one of
the first task: the report sets the start time of its own action, and the controller dereferences that of the first
(`start_time_iff_first`).
-/

namespace Tink.Kube

open GoTime Machine

variable {r : Template.Renderer TemplateData} {wf stored : Workflow} {e : Event} {c : Cursor}

theorem Populated.exists_template (h : Populated r stored wf) :
    ∃ tpl, Template.Accepted r tpl ∧ InitialisedFrom tpl wf := by
  obtain ⟨text, data, tpl, buf, hr, rfl⟩ := h
  exact ⟨tpl, (Template.renderTemplateHardware_accepted hr).1, rfl⟩

/-- Every task of a new status has the address of a worker. -/
theorem Populated.workerAddr_ne (h : Populated r stored wf) : ∀ t ∈ wf.status.tasks, t.workerAddr ≠ "" := by
  obtain ⟨text, data, tpl, buf, hr, rfl⟩ := h
  intro t ht
  obtain ⟨task, htask, rfl⟩ := List.mem_map.1 ht
  exact (Template.renderTemplateHardware_accepted hr).2 task htask

/-! ### Final states -/

/-- The states a workflow should not leave. -/
def Final (s : WorkflowState) : Prop := s = .failed ∨ s = .timeout ∨ s = .success

instance : DecidablePred Final := fun s => inferInstanceAs (Decidable (s = .failed ∨ s = .timeout ∨ s = .success))

/-- The request is about the current action of `wf`, no task before the current one has actions, and the reported
state moves the workflow to another state. -/
structure Overrides (wf : Workflow) (env : ReportEnv) (req : WorkflowActionStatus) : Prop where
  get : env.getErr = none
  update : env.updateErr = none
  workflow : req.workflowId = wf.name
  task : req.taskName = wf.getCurrentTask
  task_ne : req.taskName ≠ ""
  action : req.actionName = wf.getCurrentAction
  action_ne : req.actionName ≠ ""
  first : ∀ t ∈ wf.status.tasks.take wf.getCurrentTaskIndex, t.actions = []
  state : req.actionStatus = .running ∨
    (req.actionStatus = .failed ∧ wf.status.state ≠ .failed) ∨
    (req.actionStatus = .timeout ∧ wf.status.state ≠ .timeout) ∨
    (req.actionStatus = .success ∧ wf.status.state ≠ .success ∧
      wf.getCurrentActionIndex + 1 = wf.getTotalNumberOfActions)

/-- The event is a report that overrides the state of `wf`. -/
def Event.Overrides (wf : Workflow) : Event → Prop
  | .report env req => Kube.Overrides wf env req
  | .reconcile _ => False

private theorem actionsOf_eq_nil {ts : List Task} : actionsOf ts = [] ↔ ∀ t ∈ ts, t.actions = [] :=
  List.flatMap_eq_nil_iff

private theorem WellStaged.index_eq_done (hg : WellStaged wf) (hc : wf.status.tasks = c.tasks) :
    c.index = c.done.length ↔ ∀ t ∈ wf.status.tasks.take wf.getCurrentTaskIndex, t.actions = [] := by
  have htake : wf.status.tasks.take wf.getCurrentTaskIndex = c.before := by
    rw [Workflow.getCurrentTaskIndex, c.info hc, hc]
    simp [Cursor.tasks]
  rw [htake, ← actionsOf_eq_nil, ← List.length_eq_zero_iff, hg.index_eq hc, Cursor.front, List.length_append]
  omega

/-- At the cursor, a report overrides a final state if it is accepted and writes another state. -/
private theorem WellStaged.overrides_iff (hg : WellStaged wf) (hf : Final wf.status.state)
    (hc : wf.status.tasks = c.tasks) (env : ReportEnv) {req : WorkflowActionStatus} (hd : req.actionStatus.Declared) :
    Overrides wf env req ↔
      c.Accepts wf env req ∧ (c.reported env.now req.actionStatus wf).status.state ≠ wf.status.state := by
  have hinfo := c.info hc
  have hdone := hg.index_eq_done hc
  have htask : wf.getCurrentTask = c.task.name := by rw [Workflow.getCurrentTask, hinfo]
  have haction : wf.getCurrentAction = c.action.name := by rw [Workflow.getCurrentAction, hinfo]
  have hindex : wf.getCurrentActionIndex = c.index := by rw [Workflow.getCurrentActionIndex, hinfo]; rfl
  have htotal : wf.getTotalNumberOfActions = (actionsOf c.tasks).length := by
    rw [Workflow.getTotalNumberOfActions, hinfo]
  have hstate : (c.reported env.now req.actionStatus wf).status.state =
      reportedState req.actionStatus (c.index + 1 = (actionsOf c.tasks).length) wf.status.state := rfl
  rw [hstate]
  constructor
  · intro h
    refine ⟨⟨h.get, h.update, ⟨h.workflow, ?_, ?_, h.task_ne, h.action_ne⟩, hdone.2 h.first, ?_⟩, ?_⟩
    · rw [h.task, htask]
    · rw [h.action, haction]
    · rcases h.state with hs | ⟨hs, -⟩ | ⟨hs, -⟩ | ⟨hs, -⟩ <;> rw [hs] <;> simp
    · rcases h.state with hs | ⟨hs, hne⟩ | ⟨hs, hne⟩ | ⟨hs, hne, hlast⟩
      · rw [hs]
        rcases hf with hf | hf | hf <;> rw [hf] <;> simp [reportedState]
      · rw [hs]; exact hne.symm
      · rw [hs]; exact hne.symm
      · rw [hindex, htotal] at hlast
        rw [hs, reportedState, if_pos hlast]
        exact hne.symm
  · rintro ⟨h, hne⟩
    refine ⟨h.get, h.update, h.named.workflow, ?_, h.named.task_ne, ?_, h.named.action_ne, hdone.1 h.index, ?_⟩
    · rw [h.named.task, htask]
    · rw [h.named.action, haction]
    · have hp := h.status
      rw [hindex, htotal]
      cases hs : req.actionStatus with
      | pending => exact absurd hs hp
      | running => left; rfl
      | failed => right; left; rw [hs] at hne; exact ⟨rfl, hne.symm⟩
      | timeout => right; right; left; rw [hs] at hne; exact ⟨rfl, hne.symm⟩
      | success =>
        right; right; right
        rw [hs, reportedState] at hne
        split at hne
        · rename_i hlast; exact ⟨rfl, hne.symm, hlast⟩
        · exact absurd rfl hne
      | unrecognized n hn => rw [hs] at hd; exact hd.elim

private theorem not_overrides_of_closed (h : ∀ a ∈ actionsOf wf.status.tasks, isOpen a.status = false)
    {env : ReportEnv} {req : WorkflowActionStatus} : ¬ Overrides wf env req := by
  intro ho
  have htask := ho.task
  rw [Workflow.getCurrentTask, info_of_closed h] at htask
  exact ho.task_ne htask

/-- One step from a final state keeps it exactly when it does not override it. -/
private theorem WellStaged.final_step (hg : WellStaged wf) (he : e.Declared) (hf : Final wf.status.state) :
    (Kube.step r wf e).status.state = wf.status.state ↔ ¬ e.Overrides wf := by
  cases e with
  | reconcile env =>
    rcases step_cases (r := r) hg.unique (.reconcile env) with h | ⟨_, _, _, h, -⟩ | ⟨h, -⟩ | ⟨h, -⟩
    · rw [h]; simp [Event.Overrides]
    · cases h
    · exact absurd h hg.state
    · rcases hf with hf | hf | hf <;> rw [hf] at h <;> cases h
  | report env req =>
    rcases closed_or_cursor wf.status.tasks with hclosed | ⟨c, hc⟩
    · have hstep : Kube.step r wf (.report env req) = wf := by
        cases hr : reportActionStatus env wf req with
        | error _ => simp only [Kube.step, hr]
        | ok wf' => exact absurd hr (report_closed hclosed env req)
      rw [hstep]
      exact iff_of_true rfl (not_overrides_of_closed hclosed)
    · show _ ↔ ¬ Overrides wf env req
      rw [hg.overrides_iff hf hc env he]
      by_cases hacc : c.Accepts wf env req
      · rw [step_report_of_accepts hc hg.unique hacc]
        simp [hacc]
      · rw [step_report_of_not_accepts hc hg.unique hacc]
        simp [hacc]

/-- A history keeps every final state it reaches exactly when none of its steps overrides one. -/
theorem final_iff_not_overridden (env : ReconcileEnv) (stored : Workflow)
    (hnew : processNewWorkflow r env stored = (wf, {})) {es : List Event} (he : ∀ e ∈ es, e.Declared) :
    (∀ p q, p ++ q <+: es → Final (run (step r) wf p).status.state →
        (run (step r) wf (p ++ q)).status.state = (run (step r) wf p).status.state) ↔
      Every (step r) (fun w e => Final w.status.state → ¬ e.Overrides w) wf es := by
  obtain ⟨tpl, hacc, hinit⟩ := (populated_of_processNewWorkflow hnew).exists_template
  rw [frozen_iff_every (fun w : Workflow => w.status.state) Final]
  refine every_congr (I := WellStaged) (D := fun _ e => e.Declared) (WellStaged.initial hacc hinit)
    (every_of_forall_mem fun e h _ => he e h) (fun w e hg hd => hg.step hd) fun w e hg hd => ?_
  exact imp_congr_right fun hf => hg.final_step hd hf

theorem final_iff_not_overridden_failed_twice :
    let r := Template.Renderer.reading TemplateData (.ofNames [("os", "m1", ["stream"])])
    let wf := Workflow.ofNames [("os", "m1", ["stream"])]
    let p := [Event.reportOf 0 "os" "stream" .running, .reportOf 9 "os" "stream" .failed]
    let q := [Event.reportOf 10 "os" "stream" .failed]
    (run (step r) wf p).status.state = .failed ∧
      (run (step r) wf (p ++ q)).status.state = (run (step r) wf p).status.state := by
  intro r wf p q
  refine ⟨rfl, (final_iff_not_overridden (.still 0) (.ofStatus {}) (by rfl) (by decide)).2 ?_ p q (List.prefix_refl _)
    (by decide)⟩
  refine every_cons.2 ⟨fun h => absurd h (by decide), every_cons.2 ⟨fun h => absurd h (by decide), ?_⟩⟩
  exact every_cons.2 ⟨fun _ ho => absurd ho.state (by decide), every_nil⟩

/-- After a failed report of the only action, a late `RUNNING` report is accepted and the workflow runs again. -/
theorem failed_runs_again :
    let r := Template.Renderer.reading TemplateData (.ofNames [("os", "m1", ["stream"])])
    let wf := Workflow.ofNames [("os", "m1", ["stream"])]
    let p := [Event.reportOf 0 "os" "stream" .running, .reportOf 9 "os" "stream" .failed]
    processNewWorkflow r (.still 0) (.ofStatus {}) = (wf, {}) ∧
      (run (step r) wf p).status.state = .failed ∧
      (run (step r) wf (p ++ [.reportOf 10 "os" "stream" .running])).status.state = .running :=
  ⟨rfl, rfl, rfl⟩

/-! ### The start time -/

/-- Some action has a start time. -/
def Begun (tasks : List Task) : Prop := ∃ a ∈ actionsOf tasks, a.startedAt ≠ none

/-- The start times, task by task. -/
private def startTimes (tasks : List Task) : List (List (Option MetaTime)) :=
  tasks.map fun t => t.actions.map Action.startedAt

private theorem begun_congr {ts ts' : List Task} (h : startTimes ts' = startTimes ts) : Begun ts' ↔ Begun ts := by
  have hflat : ∀ us : List Task, Begun us ↔ ∃ t ∈ (startTimes us).flatten, t ≠ none := by
    intro us
    simp only [Begun, startTimes, mem_actionsOf, List.mem_flatten, List.mem_map]
    constructor
    · rintro ⟨a, ⟨t, ht, ha⟩, hne⟩
      exact ⟨a.startedAt, ⟨_, ⟨t, ht, rfl⟩, List.mem_map_of_mem ha⟩, hne⟩
    · rintro ⟨x, ⟨_, ⟨t, ht, rfl⟩, hx⟩, hne⟩
      obtain ⟨a, ha, rfl⟩ := List.mem_map.1 hx
      exact ⟨a, ⟨t, ht, ha⟩, hne⟩
  rw [hflat, hflat, h]

private theorem getStartTime_congr {w w' : Workflow} (h : startTimes w'.status.tasks = startTimes w.status.tasks) :
    w'.getStartTime = w.getStartTime := by
  have hfirst : ∀ v : Workflow, v.getStartTime = ((startTimes v.status.tasks).head?.bind List.head?).join := by
    intro v
    unfold Workflow.getStartTime startTimes
    rcases v.status.tasks with _ | ⟨t, ts⟩
    · rfl
    · rcases ht : t.actions with _ | ⟨a, as⟩ <;> simp [ht]
  rw [hfirst, hfirst, h]

private theorem startTimes_of_timed {ts ts' : List Task} (h : List.Forall₂ TimedTask ts ts') :
    startTimes ts' = startTimes ts := by
  have hactions : ∀ {as as' : List Action}, List.Forall₂ Timed as as' →
      as'.map Action.startedAt = as.map Action.startedAt := by
    intro as as' h
    induction h with
    | nil => rfl
    | cons ha _ ih => rw [List.map_cons, List.map_cons, ha.startedAt, ih]
  unfold startTimes
  induction h with
  | nil => rfl
  | cons ht _ ih => rw [List.map_cons, List.map_cons, hactions ht.2.2, ih]

private theorem startTimes_replace {a : Action} (h : a.startedAt = c.action.startedAt) :
    startTimes (c.replace a) = startTimes c.tasks := by
  simp [startTimes, Cursor.replace, Cursor.tasks, c.actions_eq, h]

private theorem reportedAction_startedAt (now : Time) (s : State) (a : Action) :
    (reportedAction now s a).startedAt = if s = .running then some (.ofTime now) else a.startedAt := by
  cases s <;> simp only [reportedAction, setSeconds] <;> (try split) <;> simp_all

/-- A `RUNNING` report sets the start time of the workflow if the cursor is at the very first action, and otherwise
leaves it alone. -/
private theorem getStartTime_reported_running (hc : wf.status.tasks = c.tasks) (now : Time) :
    (c.reported now .running wf).getStartTime =
      if c.before = [] ∧ c.done = [] then some (.ofTime now) else wf.getStartTime := by
  have htasks : (c.reported now .running wf).status.tasks = c.replace (reportedAction now .running c.action) := rfl
  unfold Workflow.getStartTime
  rw [htasks, hc, Cursor.replace, Cursor.tasks]
  rcases hb : c.before with _ | ⟨t, ts⟩
  · rcases hd : c.done with _ | ⟨a, as⟩
    · simp [reportedAction]
    · simp [c.actions_eq, hd]
  · simp

/-- A `RUNNING` report is accepted for an action other than the first one of the first task, and no action has a start
time yet. -/
def Event.StartsLate (wf : Workflow) : Event → Prop
  | .report env req =>
    (∃ wf', reportActionStatus env wf req = .ok wf') ∧ req.actionStatus = .running ∧ ¬ Begun wf.status.tasks ∧
      ¬ (wf.getCurrentTaskIndex = 0 ∧ wf.getCurrentActionIndex = 0)
  | .reconcile _ => False

/-- What a history keeps in which the first `RUNNING` report is about the first action. -/
private structure Started (wf : Workflow) : Prop where
  unique : UniqueNames wf.status.tasks
  state : wf.status.state ≠ .unset
  running : wf.status.state = .running → Begun wf.status.tasks
  first : Begun wf.status.tasks → wf.getStartTime ≠ none

private theorem begun_of_getStartTime (h : wf.getStartTime ≠ none) : Begun wf.status.tasks := by
  unfold Workflow.getStartTime at h
  split at h
  · exact absurd rfl h
  · rename_i t ts hts
    split at h
    · exact absurd rfl h
    · rename_i a as has
      exact ⟨a, by rw [hts, actionsOf_cons, has]; simp, h⟩

/-- If the start times and the question whether the workflow is running do not change, nothing is to be shown. -/
private theorem Started.congr {wf' : Workflow} (hs : Started wf) (hu : UniqueNames wf'.status.tasks)
    (hstate : wf'.status.state ≠ .unset) (hrun : wf'.status.state = .running → wf.status.state = .running)
    (h : startTimes wf'.status.tasks = startTimes wf.status.tasks) : Started wf' := by
  refine ⟨hu, hstate, fun hr => (begun_congr h).2 (hs.running (hrun hr)), fun hb => ?_⟩
  rw [getStartTime_congr h]
  exact hs.first ((begun_congr h).1 hb)

private theorem Started.reported {env : ReportEnv} {req : WorkflowActionStatus} (hs : Started wf)
    (hc : wf.status.tasks = c.tasks) (hacc : c.Accepts wf env req)
    (hlate : ¬ (Event.report env req).StartsLate wf) : Started (c.reported env.now req.actionStatus wf) := by
  have hu : UniqueNames (c.reported env.now req.actionStatus wf).status.tasks :=
    UniqueNames.congr (c.skeleton_replace (by simp)) (hc ▸ hs.unique)
  have hstate : (c.reported env.now req.actionStatus wf).status.state ≠ .unset := reportedState_ne_unset hs.state
  by_cases hr : req.actionStatus = .running
  · refine ⟨hu, hstate, fun _ => ?_, fun _ => ?_⟩
    · refine ⟨reportedAction env.now req.actionStatus c.action, ?_, ?_⟩
      · rw [show (c.reported env.now req.actionStatus wf).status.tasks = c.replace _ from rfl, c.actionsOf_replace]
        simp
      · rw [reportedAction_startedAt, if_pos hr]; simp
    · rw [hr, getStartTime_reported_running hc]
      split
      · simp
      · rename_i hpos
        -- not the first action: the report is not late, so the workflow has begun
        refine hs.first ?_
        by_contra hb
        refine hlate ⟨⟨_, (report_eq_ok hc (hc ▸ hs.unique)).2 ⟨hacc, rfl⟩⟩, hr, hb, ?_⟩
        rintro ⟨ht, ha⟩
        rw [Workflow.getCurrentTaskIndex, c.info hc] at ht
        rw [Workflow.getCurrentActionIndex, c.info hc] at ha
        have hidx := hacc.index
        rw [show c.index = 0 from ha] at hidx
        exact hpos ⟨List.length_eq_zero_iff.1 ht, List.length_eq_zero_iff.1 hidx.symm⟩
  · refine hs.congr hu hstate ?_ ?_
    · intro h
      have h : reportedState req.actionStatus _ wf.status.state = .running := h
      cases hst : req.actionStatus with
      | running => exact absurd hst hr
      | success =>
        rw [hst, reportedState] at h
        split at h
        · cases h
        · exact h
      | pending => exact absurd hst hacc.status
      | unrecognized n hn => rw [hst] at h; exact h
      | _ => rw [hst] at h; cases h
    · rw [hc]
      exact startTimes_replace (by rw [reportedAction_startedAt, if_neg hr])

private theorem Started.step (hs : Started wf) (hlate : ¬ e.StartsLate wf) : Started (Kube.step r wf e) := by
  rcases step_cases (r := r) hs.unique e with h | ⟨env, req, c, rfl, hc, hacc, h⟩ | ⟨h, -⟩ | ⟨hrun, -, hchk⟩
  · rw [h]; exact hs
  · rw [h]; exact hs.reported hc hacc hlate
  · exact absurd h hs.state
  · obtain ⟨tasks, state, htasks, hstate, hwf'⟩ := hchk
    rw [hwf']
    refine hs.congr (UniqueNames.congr (skeleton_of_timed htasks) hs.unique) ?_ (fun _ => hrun)
      (startTimes_of_timed htasks)
    rcases hstate with rfl | rfl <;> simp

/-- A late start leaves a running workflow without a start time. -/
private theorem Started.late (hs : Started wf) (hlate : e.StartsLate wf) :
    (Kube.step r wf e).status.state = .running ∧ (Kube.step r wf e).getStartTime = none := by
  cases e with
  | reconcile env => exact hlate.elim
  | report env req =>
    obtain ⟨⟨wf', hok⟩, hr, hb, hpos⟩ := hlate
    rcases closed_or_cursor wf.status.tasks with hclosed | ⟨c, hc⟩
    · exact absurd hok (report_closed hclosed env req)
    · obtain ⟨hacc, -⟩ := (report_eq_ok hc (hc ▸ hs.unique)).1 hok
      rw [step_report_of_accepts hc hs.unique hacc, hr]
      refine ⟨rfl, ?_⟩
      rw [getStartTime_reported_running hc, if_neg]
      · by_contra hne
        exact hb (begun_of_getStartTime hne)
      · rintro ⟨hbefore, hdone⟩
        rw [Workflow.getCurrentTaskIndex, Workflow.getCurrentActionIndex, c.info hc] at hpos
        exact hpos ⟨by simp [hbefore], by simp [hbefore, hdone]⟩

private theorem Started.initial {tpl : Template.Workflow} (h : Template.Accepted r tpl)
    (hwf : InitialisedFrom tpl wf) : Started wf := by
  have hg := WellStaged.initial h hwf
  refine ⟨hg.unique, hg.state, ?_, ?_⟩
  · intro hr; rw [hwf] at hr; cases hr
  · rintro ⟨a, ha, hne⟩
    rw [hwf] at ha
    obtain ⟨t, ht, hat⟩ := mem_actionsOf.1 ha
    obtain ⟨task, -, rfl⟩ := List.mem_map.1 ht
    obtain ⟨action, -, rfl⟩ := List.mem_map.1 hat
    exact absurd rfl hne

private theorem reconcile_ne_panic (h : wf.status.state = .running → wf.getStartTime ≠ none) (env : ReconcileEnv) :
    reconcile r env wf ≠ .panic := by
  have hcopy : reconcileCopy r env wf ≠ .panic := by
    unfold reconcileCopy
    split
    · simp
    · split
      · simp
      · rename_i hrun
        obtain ⟨start, hstart⟩ := Option.ne_none_iff_exists'.1 (h hrun)
        simp [processRunningWorkflow, hstart]
      · simp
  unfold reconcile
  cases hg : env.getErr with
  | some g => cases g <;> simp
  | none =>
    cases hc : reconcileCopy r env wf with
    | error e => exact e.elim
    | panic => exact absurd hc hcopy
    | ok p =>
      by_cases hp : p.1 = wf
      · simp [hp]
      · cases hpatch : env.patchErr <;> simp [hp]

/-- A history keeps the start time of a running workflow set exactly when none of its steps starts the workflow late,
and then no reconciliation panics. -/
theorem start_time_iff_first (env : ReconcileEnv) (stored : Workflow)
    (hnew : processNewWorkflow r env stored = (wf, {})) (es : List Event) :
    (Always (step r) (fun w => w.status.state = .running → w.getStartTime ≠ none) wf es ↔
      Every (step r) (fun w e => ¬ e.StartsLate w) wf es) ∧
    (Every (step r) (fun w e => ¬ e.StartsLate w) wf es →
      Always (step r) (fun w => ∀ env, reconcile r env w ≠ .panic) wf es) := by
  obtain ⟨tpl, hacc, hinit⟩ := (populated_of_processNewWorkflow hnew).exists_template
  have hiff : Always (step r) (fun w => w.status.state = .running → w.getStartTime ≠ none) wf es ↔
      Every (step r) (fun w e => ¬ e.StartsLate w) wf es := by
    refine always_iff_every (Started.initial hacc hinit) (fun w hs hr => hs.first (hs.running hr))
      (fun w e hs hl => hs.step hl) fun w e hs hP hl => ?_
    obtain ⟨hrun, hnone⟩ := hs.late (r := r) hl
    exact hP hrun hnone
  exact ⟨hiff, fun h => (hiff.2 h).mono fun w hw => reconcile_ne_panic hw⟩

theorem start_time_iff_first_one_action :
    let r := Template.Renderer.reading TemplateData (.ofNames [("os", "m1", ["stream"])])
    let wf := run (step r) (.ofNames [("os", "m1", ["stream"])]) [.reportOf 0 "os" "stream" .running]
    wf.status.state = .running ∧ ∀ env, reconcile r env wf ≠ .panic := by
  refine ⟨rfl, (start_time_iff_first (.still 0) (.ofStatus {}) (by rfl) _).2 ?_ _ (List.prefix_refl _)⟩
  refine every_cons.2 ⟨?_, every_nil⟩
  rintro ⟨-, -, -, hlate⟩
  exact hlate (by decide)

/-- The first task has no action, and the first report starts the action of the second: the controller then
dereferences a start time that no report ever sets. -/
theorem empty_first_task_panics :
    let r := Template.Renderer.reading TemplateData (.ofNames [("prepare", "m1", []), ("os", "m1", ["stream"])])
    let wf := Workflow.ofNames [("prepare", "m1", []), ("os", "m1", ["stream"])]
    let wf' := step r wf (.reportOf 0 "os" "stream" .running)
    processNewWorkflow r (.still 0) (.ofStatus {}) = (wf, {}) ∧
      wf'.status.state = .running ∧ wf'.getStartTime = none ∧ reconcile r (.still 1) wf' = .panic :=
  ⟨rfl, rfl, rfl, rfl⟩

end Tink.Kube
