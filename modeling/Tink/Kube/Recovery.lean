import Tink.Kube.Exclusion
import Tink.Kube.Tasks

/-!
# Taking a workflow up again

On the Kubernetes backend a workflow that is pending or running can always be taken up where it stands: the server
streams it to the worker of its current action, a process that starts anew begins with that action, and whatever the
processes before it have done, its reports are accepted, if the action is in the first task that has actions.  So a
workflow with actions in one task can be completed from every state the fleet can bring it to, and one with actions in
several tasks, or in none, from no state (`recoverable_iff`).
-/

namespace Tink.Kube

open Machine

variable {r : Template.Renderer TemplateData} {wf wf' : Workflow}

/-! ### Workflows with actions in one task -/

theorem busyTasks_step (hg : WellStaged wf) (e : Event) :
    (busyTasks (step r wf e).status.tasks).length = (busyTasks wf.status.tasks).length := by
  rw [length_busyTasks, length_busyTasks, (skeleton_step hg.unique hg.state e).1]

/-- An action of the list is one of a task with actions, whose worker is its own. -/
theorem exists_busy {a : WorkflowAction} (ha : a ∈ workflowActionListCRDToProto wf) :
    ∃ t ∈ busyTasks wf.status.tasks, a.workerId = t.workerAddr := by
  obtain ⟨t, ht, ha⟩ := List.mem_flatMap.1 ha
  obtain ⟨b, hb, rfl⟩ := List.mem_map.1 ha
  exact ⟨t, List.mem_filter.2 ⟨ht, by simpa using List.ne_nil_of_mem hb⟩, rfl⟩

/-- All actions are those of one worker. -/
private theorem worker_of_one_task (hone : (busyTasks wf.status.tasks).length = 1) {a b : WorkflowAction}
    (ha : a ∈ workflowActionListCRDToProto wf) (hb : b ∈ workflowActionListCRDToProto wf) :
    a.workerId = b.workerId := by
  obtain ⟨t, ht⟩ := List.length_eq_one_iff.1 hone
  obtain ⟨s, hs, hsa⟩ := exists_busy ha
  obtain ⟨s', hs', hsb⟩ := exists_busy hb
  rw [ht, List.mem_singleton] at hs hs'
  rw [hsa, hsb, hs, hs']

private theorem actionList_ne_nil (hone : (busyTasks wf.status.tasks).length = 1) :
    workflowActionListCRDToProto wf ≠ [] := by
  obtain ⟨t, ht⟩ := List.length_eq_one_iff.1 hone
  obtain ⟨hmem, hbusy⟩ := List.mem_filter.1 (show t ∈ busyTasks wf.status.tasks by rw [ht]; simp)
  intro hnil
  have hempty := List.flatMap_eq_nil_iff.1 hnil t hmem
  rw [List.map_eq_nil_iff] at hempty
  simp [hempty] at hbusy

private theorem Cursor.index_of_one_task {c : Cursor} (hg : WellStaged wf) (hc : wf.status.tasks = c.tasks)
    (hone : (busyTasks wf.status.tasks).length = 1) : c.index = c.done.length := by
  have hbusy : c.task.actions ≠ [] := by rw [c.actions_eq]; simp
  have hsplit : busyTasks c.tasks = busyTasks c.before ++ c.task :: busyTasks c.after := by
    rw [busyTasks, busyTasks, busyTasks, Cursor.tasks, List.filter_append,
      List.filter_cons_of_pos (by simpa using hbusy)]
  rw [hc, hsplit, List.length_append, List.length_cons] at hone
  have hnil : busyTasks c.before = [] := List.length_eq_zero_iff.1 (by omega)
  have hbefore : actionsOf c.before = [] := by
    refine List.flatMap_eq_nil_iff.2 fun t ht => ?_
    simpa using List.filter_eq_nil_iff.1 hnil t ht
  rw [hg.index_eq hc, Cursor.front, hbefore, List.nil_append]

/-- The action at the current position is the one the scan finds. -/
theorem Sane.exists_cursor (hg : Sane wf) {a : WorkflowAction}
    (ha : (workflowActionListCRDToProto wf)[wf.currentPosition]? = some a) :
    ∃ c : Cursor, wf.status.tasks = c.tasks ∧ a = actionCRDToProto c.task c.action := by
  rcases closed_or_cursor wf.status.tasks with hclosed | ⟨c, hc⟩
  · -- then all actions have succeeded
    have hall := success_of_closed hg.declared hclosed
    have hlt := (List.getElem?_eq_some_iff.1 ha).1
    rw [length_actionList] at hlt
    have hsuccess : (statuses wf)[wf.currentPosition]? = some .success := by
      rw [statuses, List.getElem?_map, List.getElem?_eq_getElem hlt, Option.map_some, hall _ (List.getElem_mem hlt)]
    exact absurd (hg.success_iff.1 hsuccess) (lt_irrefl _)
  · have hcur := Cursor.getElem?_actionList hc
    rw [← hg.currentPosition_eq hc, ha] at hcur
    exact ⟨c, hc, Option.some.inj hcur⟩

/-- In such a workflow, every report about the current action is accepted, unless it is one of `PENDING`. -/
theorem report_of_one_task (hg : Sane wf) (hone : (busyTasks wf.status.tasks).length = 1) {a : WorkflowAction}
    (ha : (workflowActionListCRDToProto wf)[wf.currentPosition]? = some a) (now : GoTime.Time)
    {req : WorkflowActionStatus}
    (hid : req.workflowId = wf.name) (ht : req.taskName = a.taskName) (hn : req.actionName = a.name)
    (hs : req.actionStatus ≠ .pending) : ∃ wf', reportActionStatus { now := now } wf req = .ok wf' := by
  obtain ⟨c, hc, rfl⟩ := hg.exists_cursor ha
  have hmem : c.task ∈ wf.status.tasks := by rw [hc]; simp [Cursor.tasks]
  have hnamed : c.Named wf req := by
    refine ⟨hid, ht, hn, ?_, ?_⟩
    · rw [ht]; exact hg.names.task _ hmem
    · rw [hn]; exact hg.names.action _ hmem c.action (by rw [c.actions_eq]; simp)
  exact ⟨_, (report_eq_ok hc (hc ▸ hg.unique)).2
    ⟨⟨rfl, rfl, hnamed, Cursor.index_of_one_task hg.toWellStaged hc hone, hs⟩, rfl⟩⟩

/-- A workflow whose actions have all succeeded is successful, if it has any. -/
private theorem Sane.success_of_position (hg : Sane wf) (hne : workflowActionListCRDToProto wf ≠ [])
    (hpos : (workflowActionListCRDToProto wf).length ≤ wf.currentPosition) : wf.status.state = .success := by
  have hlen : (statuses wf).length = (workflowActionListCRDToProto wf).length := by
    rw [length_actionList, statuses, List.length_map]
  have hne' : statuses wf ≠ [] := by
    rw [← List.length_pos_iff, hlen, List.length_pos_iff]
    exact hne
  refine (hg.agrees hne').2 fun a ha => ?_
  obtain ⟨k, hk⟩ := List.getElem?_of_mem (show a.status ∈ statuses wf from List.mem_map_of_mem ha)
  have hlt := (List.getElem?_eq_some_iff.1 hk).1
  have hsuccess := hg.success_iff.2 (show k < wf.currentPosition by omega)
  rw [hk] at hsuccess
  exact Option.some.inj hsuccess

/-! ### What stays as it is -/

/-- What keeps a workflow with actions in several tasks, or in none, from success, and what lets it be sent. -/
structure Bound (wf : Workflow) : Prop where
  sane : Sane wf
  first : FirstOnly wf
  idle : statuses wf = [] → wf.status.state ≠ .success
  addressed : ∀ a ∈ workflowActionListCRDToProto wf, a.workerId ≠ ""

private theorem Bound.step (h : Bound wf) {e : Event} (he : e.Declared) : Bound (step r wf e) := by
  refine ⟨h.sane.step he, h.first.step h.sane.toWellStaged e, fun hnil => ?_,
    by rw [h.sane.list_step]; exact h.addressed⟩
  have hlen := length_statuses_congr (skeleton_step (r := r) h.sane.unique h.sane.state e).1
  rw [hnil, List.length_nil] at hlen
  have hnil' : statuses wf = [] := List.length_eq_zero_iff.1 hlen.symm
  cases e with
  | reconcile env =>
    rcases reconcile_times_out (r := r) h.sane.state env with hs | hs
    · rw [hs]; exact h.idle hnil'
    · rw [hs]; simp
  | report env req =>
    cases hr : reportActionStatus env wf req with
    | error _ => simp only [Kube.step, hr]; exact h.idle hnil'
    | ok wf' =>
      -- there is no action to report about
      rw [statuses, List.map_eq_nil_iff] at hnil'
      exact absurd hr (report_closed (by simp [hnil']) env req)

/-- Workflows that were stored without a status are without one or bound. -/
private theorem bound_of_no_status (h : wf.status = {}) (e : Event) :
    (step r wf e).status = {} ∨ Bound (step r wf e) := by
  have htasks : wf.status.tasks = [] := by rw [h]
  have hu : UniqueNames wf.status.tasks := by rw [htasks]; exact ⟨List.nodup_nil, by simp⟩
  rcases step_cases (r := r) hu e with hs | ⟨_, _, c, -, hc, -⟩ | ⟨-, hpop⟩ | ⟨hs, -⟩
  · left; rw [hs]; exact h
  · rw [htasks] at hc; simp [Cursor.tasks] at hc
  · right
    obtain ⟨tpl, hacc, hinit⟩ := hpop.exists_template
    refine ⟨{ Steady.initial hacc hinit with agrees := Agrees.initial hinit }, FirstOnly.initial hinit,
      fun _ => ?_, ?_⟩
    · rw [hinit]; simp [initialStatus]
    · intro a ha
      obtain ⟨t, ht, hw⟩ := exists_busy ha
      rw [hw]
      exact hpop.workerAddr_ne t (List.mem_filter.1 ht).1
  · rw [h] at hs; cases hs

/-- Success takes actions in exactly one task. -/
private theorem Bound.one_task (h : Bound wf) (hs : wf.status.state = .success) :
    (busyTasks wf.status.tasks).length = 1 := by
  have hle : (busyTasks wf.status.tasks).length ≤ 1 := by
    by_contra hlt
    exact h.first.ne_success h.sane (by omega) hs
  have hpos : 0 < (busyTasks wf.status.tasks).length := by
    by_contra hzero
    refine h.idle ?_ hs
    rw [statuses, List.map_eq_nil_iff]
    refine List.flatMap_eq_nil_iff.2 fun t ht => ?_
    have hnil : busyTasks wf.status.tasks = [] := List.length_eq_zero_iff.1 (by omega)
    simpa using List.filter_eq_nil_iff.1 hnil t ht
  omega

end Tink.Kube

namespace Tink.Kube.Fleet

open Machine Worker

variable {r : Template.Renderer TemplateData} {x : System} {w : String} {wf wf' : Workflow} {j : Job} {p : Process}

/-! ### The workflows of a run -/

theorem bound_run (ms : List Move) : ∀ wf ∈ (run (step r) {} ms).objects, wf.status = {} ∨ Bound wf := by
  refine (run_inv (I := fun x : System => Inv x ∧ ∀ wf ∈ x.objects, wf.status = {} ∨ Bound wf)
    ⟨inv_run (r := r) [], by simp⟩ ?_).2
  rintro x m ⟨hx, hall⟩
  refine ⟨hx.step m, fun wf hwf => ?_⟩
  obtain ⟨g, new, hobj, hnew, hg⟩ := hx.objects_step (r := r) m
  rw [hobj, List.mem_append] at hwf
  rcases hwf with hwf | hwf
  · obtain ⟨wf₀, hwf₀, rfl⟩ := List.mem_map.1 hwf
    rcases hg wf₀ hwf₀ with h | ⟨e, he, h⟩
    · rw [h]; exact hall wf₀ hwf₀
    · rw [h]
      rcases hall wf₀ hwf₀ with h0 | hb
      · exact bound_of_no_status h0 e
      · right; exact hb.step he
  · left; exact hnew wf hwf

/-- A workflow keeps the number of its tasks with actions. -/
private theorem busyTasks_run (hx : Inv x) (hwf : wf ∈ x.objects) (hb : Bound wf) (ms : List Move) :
    ∃ wf' ∈ (run (Fleet.step r) x ms).objects, wf'.name = wf.name ∧ Bound wf' ∧
      (busyTasks wf'.status.tasks).length = (busyTasks wf.status.tasks).length := by
  refine (run_inv (I := fun y : System => Inv y ∧ ∃ wf' ∈ y.objects, wf'.name = wf.name ∧ Bound wf' ∧
    (busyTasks wf'.status.tasks).length = (busyTasks wf.status.tasks).length) ⟨hx, wf, hwf, rfl, hb, rfl⟩ ?_).2
  rintro y m ⟨hy, wf', hwf', hname, hb', hlen⟩
  refine ⟨hy.step m, ?_⟩
  rcases hy.workflow_step (r := r) m hwf' with hmem | ⟨e, he, hmem⟩
  · exact ⟨wf', hmem, hname, hb', hlen⟩
  · exact ⟨_, hmem, (name_step hb'.sane.unique e).trans hname, hb'.step he,
      (busyTasks_step hb'.sane.toWellStaged e).trans hlen⟩

/-! ### A worker at work -/

private theorem find?_of_mem (hx : Inv x) (hwf : wf ∈ x.stored) {name : String} (hname : wf.name = name) :
    x.stored.find? (fun wf => wf.name = name) = some wf := by
  cases hf : x.stored.find? fun wf => wf.name = name with
  | none => exact absurd hname (by simpa using List.find?_eq_none.1 hf wf hwf)
  | some wf₀ =>
    obtain ⟨hmem, hname₀⟩ := find?_stored hf
    rw [eq_of_name hx.nodup (mem_stored.1 hmem).1 (mem_stored.1 hwf).1 (hname₀.trans hname.symm)]

/-- A process that reports is at work on a workflow that is stored. -/
structure Working (x : System) (w : String) (p : Process) (j : Job) (wf : Workflow) : Prop where
  live : x.live w = some p
  current : p.current = some j
  reports : 0 < p.retries
  stored : wf ∈ x.stored
  name : wf.name = j.wfContext.workflowId

private theorem Working.held (h : Working x w p j wf) (hx : Inv x) :
    Engaged ⟨w, p.retries⟩ wf j ∧ Regular ⟨w, p.retries⟩ j :=
  ⟨(hx.held w p h.live).job j h.current wf (mem_stored.1 h.stored).1 h.name, (hx.held w p h.live).regular j h.current⟩

/-- A report that is accepted is acknowledged, if it is not lost. -/
private theorem Working.deliver (h : Working x w p j wf) (hx : Inv x) {n : Int} {req : WorkflowActionStatus}
    (hsend : sends (.ok (.job j)) = some (n, req)) {env : ReportEnv} (hok : reportActionStatus env wf req = .ok wf') :
    (Fleet.step r x (.work w { env := env })).live w = p.resume (j.step ⟨w, p.retries⟩ {}) ∧
      wf' ∈ (Fleet.step r x (.work w { env := env })).stored := by
  obtain ⟨heng, hreg⟩ := h.held hx
  obtain ⟨hid, -, -, -, -, -⟩ := hreg.sends hsend
  obtain ⟨hobj, hdel⟩ := mem_stored.1 h.stored
  have hname : wf.name = req.workflowId := h.name.trans hid.symm
  have hfind := find?_of_mem hx h.stored hname
  have hstep : Fleet.step r x (.work w { env := env }) =
      { x.onWorkflow r req.workflowId (.report env req) with
        live := Function.update x.live w (p.resume (j.step ⟨w, p.retries⟩ {})) } := by
    simp only [Fleet.step, System.work, h.live, h.current, hsend, System.deliver, hfind, hok]
  rw [hstep]
  refine ⟨Function.update_self .., mem_stored.2 ⟨?_, ?_⟩⟩
  · refine List.mem_map.2 ⟨wf, hobj, ?_⟩
    rw [if_pos ⟨hname, hname ▸ hdel⟩]
    simp only [Kube.step, hok]
  · have hn := name_step (r := r) heng.sane.unique (.report env req)
    simp only [Kube.step, hok] at hn
    rw [hn]; exact hdel

/-- The job of a process at work is about the current action, as long as there is no result. -/
private theorem Working.position (h : Working x w p j wf) (hx : Inv x)
    (hph : ∀ req left, j.phase ≠ .conclude req left) :
    j.actionIndex = wf.currentPosition ∧ (workflowActionListCRDToProto wf)[wf.currentPosition]? = some j.action := by
  obtain ⟨heng, hreg⟩ := h.held hx
  obtain ⟨-, -, hpos⟩ := heng.turn hph
  have hpos := hpos h.reports
  refine ⟨hpos.symm, ?_⟩
  have hget := hreg.get
  rw [← hpos, Int.toNat_natCast, heng.list] at hget
  exact hget

/-- The action is announced. -/
private theorem Working.announced (h : Working x w p j wf) (hx : Inv x)
    (hone : (busyTasks wf.status.tasks).length = 1) {left : Nat} (hph : j.phase = .announce left) :
    ∃ m wf', Working (Fleet.step r x m) w { p with current := some { j with phase := .execute } }
        { j with phase := .execute } wf' ∧ wf'.name = wf.name ∧ (busyTasks wf'.status.tasks).length = 1 ∧
      wf'.currentPosition = wf.currentPosition ∧
        workflowActionListCRDToProto wf' = workflowActionListCRDToProto wf := by
  obtain ⟨heng, hreg⟩ := h.held hx
  obtain ⟨-, hget⟩ := h.position hx (by simp [hph])
  have hsend : sends (.ok (.job j)) = some (j.actionIndex, j.announcement) := by simp [sends, hph]
  have hrunning : j.announcement.actionStatus = .running := rfl
  have hid : j.announcement.workflowId = wf.name := h.name.symm
  obtain ⟨wf', hok⟩ := report_of_one_task heng.sane hone hget 0 hid rfl rfl (by rw [hrunning]; decide)
  obtain ⟨hlive, hstored⟩ := h.deliver (r := r) hx hsend hok
  have hstep : Kube.step r wf (.report { now := 0 } j.announcement) = wf' := by simp only [Kube.step, hok]
  have hname : wf'.name = wf.name := by rw [← hstep]; exact name_step heng.sane.unique _
  refine ⟨.work w { env := { now := 0 } }, wf', ⟨?_, rfl, h.reports, hstored, hname.trans h.name⟩, hname, ?_, ?_, ?_⟩
  · rw [hlive]
    simp only [Job.step, hph, if_true, Process.resume]
  · rw [← hstep, busyTasks_step heng.sane.toWellStaged]; exact hone
  · have hpos := (position_of_report heng.sane hok).2
    rw [hrunning, if_neg (by decide)] at hpos
    exact hpos
  · rw [← hstep]; exact heng.sane.list_step _

/-- The action is executed, with success. -/
private theorem Working.executed (h : Working x w p j wf) (hph : j.phase = .execute) :
    ∃ m, Working (Fleet.step r x m) w
      { p with current := some { j with phase := .conclude (j.conclusion {}) p.retries } }
      { j with phase := .conclude (j.conclusion {}) p.retries } wf := by
  have hsend : sends (.ok (.job j)) = none := by simp [sends, hph]
  refine ⟨.work w { env := { now := 0 } }, ?_, rfl, h.reports, ?_, h.name⟩
  · have hreports := h.reports
    simp only [Fleet.step, System.work, h.live, h.current, hsend, Function.update_self, Job.step, hph,
      hreports, if_true, reduceCtorEq, if_false, Process.resume]
  · have hobj : (Fleet.step r x (.work w { env := { now := 0 } })).stored = x.stored := by
      simp only [Fleet.step, System.work, h.live, h.current, hsend, System.stored]
    rw [hobj]; exact h.stored

/-- The success is reported, and the worker goes on with the next action. -/
private theorem Working.concluded (h : Working x w p j wf) (hx : Inv x)
    (hone : (busyTasks wf.status.tasks).length = 1)
    {left : Nat} (hph : j.phase = .conclude (j.conclusion {}) left) (hpos : j.actionIndex = wf.currentPosition) :
    ∃ m wf', wf' ∈ (Fleet.step r x m).stored ∧ wf'.name = wf.name ∧ (busyTasks wf'.status.tasks).length = 1 ∧
      wf'.currentPosition = wf.currentPosition + 1 ∧
      workflowActionListCRDToProto wf' = workflowActionListCRDToProto wf ∧
      (wf'.currentPosition < (workflowActionListCRDToProto wf').length →
        ∃ p' j', Working (Fleet.step r x m) w p' j' wf' ∧ ∀ req left, j'.phase ≠ .conclude req left) := by
  obtain ⟨heng, hreg⟩ := h.held hx
  have hget : (workflowActionListCRDToProto wf)[wf.currentPosition]? = some j.action := by
    rw [← heng.list, ← hreg.get, hpos, Int.toNat_natCast]
  have hsend : sends (.ok (.job j)) = some (j.actionIndex, j.conclusion {}) := by simp [sends, hph]
  have hsuccess : (j.conclusion {}).actionStatus = .success := rfl
  have hid : (j.conclusion {}).workflowId = wf.name := h.name.symm
  obtain ⟨wf', hok⟩ := report_of_one_task heng.sane hone hget 0 hid rfl rfl (by rw [hsuccess]; decide)
  obtain ⟨hlive, hstored⟩ := h.deliver (r := r) hx hsend hok
  have hstep : Kube.step r wf (.report { now := 0 } (j.conclusion {})) = wf' := by simp only [Kube.step, hok]
  have hname : wf'.name = wf.name := by rw [← hstep]; exact name_step heng.sane.unique _
  have hlist : workflowActionListCRDToProto wf' = workflowActionListCRDToProto wf := by
    rw [← hstep]; exact heng.sane.list_step _
  have hnext : wf'.currentPosition = wf.currentPosition + 1 := by
    have hnext := (position_of_report heng.sane hok).2
    rw [if_pos hsuccess] at hnext
    exact hnext
  refine ⟨.work w { env := { now := 0 } }, wf', hstored, hname, ?_, hnext, hlist, fun hlt => ?_⟩
  · rw [← hstep, busyTasks_step heng.sane.toWellStaged]; exact hone
  · -- the next action is one of the same worker
    have hjstep : j.step ⟨w, p.retries⟩ {} = j.concluded ⟨w, p.retries⟩ .success true := by
      simp only [Job.step, hph, if_true]; rfl
    rw [hlist, hnext] at hlt
    have hnextget : j.actions[j.actionIndex.toNat + 1]? =
        some (workflowActionListCRDToProto wf)[wf.currentPosition + 1] := by
      rw [heng.list, hpos, Int.toNat_natCast, List.getElem?_eq_getElem hlt]
    rcases hreg.toPlaced.concluded_cases .success true with ⟨hc, -⟩ | ⟨-, -, -, hnone⟩ | ⟨-, -, a, j', -, hc, -, hj'⟩
    · cases hc rfl
    · refine absurd ⟨_, hnextget, ?_⟩ hnone
      rw [worker_of_one_task hone (List.getElem_mem hlt) (List.mem_of_getElem? hget)]
      exact hreg.worker
    · refine ⟨{ p with current := some j' }, j', ⟨?_, rfl, h.reports, hstored, ?_⟩, fun req left hc' => ?_⟩
      · rw [hlive, hjstep, hc]; rfl
      · rw [hj', hname]; exact h.name
      · rw [hj'] at hc'
        simp only at hc'
        split at hc' <;> cases hc'

/-- A worker at work can take the workflow to the end. -/
private theorem Working.completes (hx : Inv x) (h : Working x w p j wf)
    (hone : (busyTasks wf.status.tasks).length = 1) (hph : ∀ req left, j.phase ≠ .conclude req left) :
    ∃ ms, ∃ wf' ∈ (run (Fleet.step r) x ms).stored, wf'.name = wf.name ∧ wf'.status.state = .success := by
  generalize hk : (workflowActionListCRDToProto wf).length - wf.currentPosition = k
  induction k generalizing x p j wf with
  | zero =>
    obtain ⟨-, hget⟩ := h.position hx hph
    have := (List.getElem?_eq_some_iff.1 hget).1
    omega
  | succ k ih =>
    -- from the beginning of the execution on
    have hexec : ∀ {y : System} {p : Process} {j : Job} {wf : Workflow}, Inv y → Working y w p j wf →
        (busyTasks wf.status.tasks).length = 1 → j.phase = .execute →
        (workflowActionListCRDToProto wf).length - wf.currentPosition = k + 1 →
        ∃ ms, ∃ wf' ∈ (run (Fleet.step r) y ms).stored, wf'.name = wf.name ∧ wf'.status.state = .success := by
      intro y p j wf hy h hone hph hk
      obtain ⟨hpos, -⟩ := h.position hy (by simp [hph])
      obtain ⟨m₁, h₁⟩ := h.executed (r := r) hph
      have hy₁ := hy.step (r := r) m₁
      obtain ⟨m₂, wf₂, hstored, hname, hone₂, hnext, hlist, hgo⟩ := h₁.concluded (r := r) hy₁ hone rfl hpos
      have hy₂ := hy₁.step (r := r) m₂
      by_cases hlt : wf₂.currentPosition < (workflowActionListCRDToProto wf₂).length
      · obtain ⟨p', j', h₂, hph₂⟩ := hgo hlt
        obtain ⟨ms, wf', hwf', hname', hs⟩ := ih hy₂ h₂ hone₂ hph₂ (by rw [hlist, hnext]; omega)
        exact ⟨m₁ :: m₂ :: ms, wf', hwf', hname'.trans hname, hs⟩
      · refine ⟨[m₁, m₂], wf₂, hstored, hname, ?_⟩
        have hsane : Sane wf₂ := by
          rcases hy₂.sane wf₂ (mem_stored.1 hstored).1 with h0 | hs
          · rw [h0] at hone₂; simp [busyTasks] at hone₂
          · exact hs
        exact hsane.success_of_position (actionList_ne_nil hone₂) (not_lt.1 hlt)
    cases hj : j.phase with
    | announce left =>
      obtain ⟨m, wf₁, h₁, hname, hone₁, hpos₁, hlist₁⟩ := h.announced (r := r) hx hone hj
      obtain ⟨ms, wf', hwf', hname', hs⟩ := hexec (hx.step (r := r) m) h₁ hone₁ rfl (by rw [hpos₁, hlist₁]; exact hk)
      exact ⟨m :: ms, wf', hwf', hname'.trans hname, hs⟩
    | execute => exact hexec hx h hone hj hk
    | conclude req left => exact absurd hj (hph req left)

/-! ### Starting anew -/

private theorem crash_eq (x : System) (w : String) :
    Fleet.step r x (.crash w) = { x with live := Function.update x.live w none } := by
  show x.onProcess w _ = _
  cases h : x.live w with
  | none => rw [System.onProcess, Processes.onProcess_of_none h, ← h, Function.update_eq_self]
  | some p => rw [System.onProcess, Processes.onProcess_of_some h]

private theorem start_eq (h : x.live w = none) (n : Nat) :
    Fleet.step r x (.start w n) = { x with live := Function.update x.live w (some { retries := n }) } := by
  rw [Fleet.step, System.start, Processes.start_of_none h]

private theorem poll_eq (h : x.live w = some p) (env : StreamEnv) :
    Fleet.step r x (.poll w env) = { x with live := Function.update x.live w (some (p.poll w x env)) } := by
  rw [Fleet.step, System.onProcess, Processes.onProcess_of_some h]

private theorem receive_eq (h : x.live w = some p) (getErr : Option String) :
    Fleet.step r x (.receive w getErr) = { x with live := Function.update x.live w (p.receive w x getErr) } := by
  rw [Fleet.step, System.onProcess, Processes.onProcess_of_some h]

/-- A new process of the worker of the current action takes the workflow up, if it is the only one the worker is
sent. -/
private theorem restarts (hx : Inv x) (hwf : wf ∈ x.stored)
    (hstate : wf.status.state = .pending ∨ wf.status.state = .running)
    (hturn : HasTurn w wf) (hw : w ≠ "") (hone : ∀ wf' ∈ x.stored, Assigned w wf' = true → wf'.name = wf.name) :
    ∃ ms p j, Working (run (Fleet.step r) x ms) w p j wf ∧ ∀ req left, j.phase ≠ .conclude req left := by
  have hobj := (mem_stored.1 hwf).1
  have hs : Sane wf := by
    rcases hx.sane wf hobj with h | h
    · rw [h] at hstate; simp at hstate
    · exact h
  obtain ⟨a, hget, ha⟩ := hturn
  -- the workflow has a current action, so it is streamed to its worker
  obtain ⟨c, hc, rfl⟩ := hs.exists_cursor hget
  have hass : Assigned w wf = true := by
    refine (hs.toWellStaged.assigned_iff hc hw).2 ⟨hstate, ?_⟩
    rw [hs.toWellStaged.current?_eq hc, Option.any_some, decide_eq_true_eq]
    exact ha
  obtain ⟨rest, hsent⟩ : ∃ rest, (getWorkflowContexts {} x.stored w).1 = getWorkflowContext wf :: rest := by
    rw [getWorkflowContexts_still x.stored hw]
    match hf : x.stored.filter (Assigned w) with
    | [] => exact absurd hass (by simpa using List.filter_eq_nil_iff.1 hf wf hwf)
    | wf₀ :: wfs =>
      obtain ⟨hmem, hass₀⟩ := List.mem_filter.1 (show wf₀ ∈ x.stored.filter (Assigned w) by rw [hf]; simp)
      obtain rfl := eq_of_name hx.nodup (mem_stored.1 hmem).1 hobj (hone wf₀ hmem hass₀)
      exact ⟨_, rfl⟩
  have hturn : turn (Config.mk w 1).workerID (getWorkflowContext wf) (workflowActionListCRDToProto wf) =
      .ok (some wf.currentPosition) := hs.toSteady.turn_eq hc hstate ha
  obtain ⟨a, j, hj, -, hjeq⟩ := processContext_of_turn hturn
  have hactions : x.getWorkflowActions none (getWorkflowContext wf).workflowId =
      .ok (workflowActionListCRDToProto wf) := by
    have hfind := find?_of_mem hx hwf (show wf.name = (getWorkflowContext wf).workflowId from rfl)
    have hne : (getWorkflowContext wf).workflowId ≠ "" := wf.name_ne
    simp only [System.getWorkflowActions, if_neg hne, System.getWorkflowByName, hfind]
  have hpoll : ∀ f, Process.poll w { x with live := f } {} { retries := 1 } =
      { retries := 1, sent := getWorkflowContext wf :: rest } := by
    intro f
    rw [← hsent]; rfl
  have hreceive : ∀ f, Process.receive w { x with live := f } none
    { retries := 1, sent := getWorkflowContext wf :: rest } =
      some { retries := 1, sent := rest, current := some j } := by
    intro f
    have hactions' : System.getWorkflowActions { x with live := f } none (getWorkflowContext wf).workflowId =
        .ok (workflowActionListCRDToProto wf) := hactions
    simp only [Process.receive, hactions', hj, Process.resume]
  -- the process before, if there is one, ends, and the new one polls and takes the first context
  have hrun : run (Fleet.step r) x [.crash w, .start w 1, .poll w {}, .receive w none] =
      { x with live := Function.update x.live w (some { retries := 1, sent := rest, current := some j }) } := by
    rw [run_cons, crash_eq, run_cons, start_eq (Function.update_self ..), run_cons,
      poll_eq (Function.update_self ..), run_cons, receive_eq (Function.update_self ..), run_nil]
    simp only [Function.update_idem, hpoll, hreceive]
  refine ⟨[.crash w, .start w 1, .poll w {}, .receive w none], { retries := 1, sent := rest, current := some j }, j,
    ⟨?_, rfl, Nat.one_pos, ?_, ?_⟩, fun req left hph => ?_⟩
  · rw [hrun]; exact Function.update_self ..
  · rw [hrun]; exact hwf
  · rw [hjeq]; rfl
  · rw [hjeq] at hph
    simp only at hph
    split at hph <;> cases hph

/-- In every run of the fleet, for a workflow that is pending or running, and is the only one that the worker of its
current action would be sent: there is a continuation that completes the workflow if and only if exactly one of its
tasks has actions. -/
theorem recoverable_iff (before : List Move) (hwf : wf ∈ (run (step r) {} before).stored)
    (hstate : wf.status.state = .pending ∨ wf.status.state = .running)
    (halone : ∀ w, HasTurn w wf →
      ∀ wf' ∈ (run (step r) {} before).stored, Assigned w wf' = true → wf'.name = wf.name) :
    (∃ after, ∃ wf' ∈ (run (step r) {} (before ++ after)).stored, wf'.name = wf.name ∧ wf'.status.state = .success) ↔
      (busyTasks wf.status.tasks).length = 1 := by
  have hx := inv_run (r := r) before
  have hobj := (mem_stored.1 hwf).1
  have hb : Bound wf := by
    rcases bound_run before wf hobj with h | h
    · rw [h] at hstate; simp at hstate
    · exact h
  constructor
  · rintro ⟨after, wf', hwf', hname, hs⟩
    obtain ⟨wf'', hobj', hname', hb', hlen⟩ := busyTasks_run (r := r) hx hobj hb after
    rw [← run_append] at hobj'
    obtain rfl := eq_of_name (inv_run (r := r) (before ++ after)).nodup (mem_stored.1 hwf').1 hobj'
      (hname.trans hname'.symm)
    rw [← hlen]
    exact hb'.one_task hs
  · intro hone
    -- not all actions have succeeded, so there is a current one
    obtain ⟨a, ha⟩ : ∃ a, (workflowActionListCRDToProto wf)[wf.currentPosition]? = some a := by
      refine ⟨_, List.getElem?_eq_getElem (lt_of_not_ge fun hge => ?_)⟩
      rw [hb.sane.success_of_position (actionList_ne_nil hone) hge] at hstate
      simp at hstate
    obtain ⟨ms, p, j, hworking, hph⟩ :=
      restarts (r := r) hx hwf hstate ⟨a, ha, rfl⟩ (hb.addressed a (List.mem_of_getElem? ha))
      (halone _ ⟨a, ha, rfl⟩)
    have hx' : Inv (run (step r) (run (step r) {} before) ms) := run_inv (I := Inv) hx fun _ m h => h.step m
    obtain ⟨ms', wf', hwf', hname, hs⟩ := hworking.completes (r := r) hx' hone hph
    refine ⟨ms ++ ms', wf', ?_, hname, hs⟩
    rw [run_append, run_append]
    exact hwf'

/-- The worker crashes while it executes the first action. -/
theorem recoverable_iff_crash :
    ∃ after, ∃ wf ∈ (run (step twoActions) {} (firstAction ++ [.crash "m1"] ++ after)).stored,
      wf.name = "wf" ∧ wf.status.state = .success := by
  have hstored : (run (step twoActions) {} (firstAction ++ [.crash "m1"])).stored = [_] := rfl
  refine (recoverable_iff (r := twoActions) (firstAction ++ [.crash "m1"])
    (by rw [hstored]; exact List.mem_singleton_self _) (Or.inr rfl) fun w _ wf' hwf' _ => ?_).2 rfl
  rw [hstored, List.mem_singleton] at hwf'
  rw [hwf']

end Tink.Kube.Fleet
