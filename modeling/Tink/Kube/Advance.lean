import Tink.Kube.Static

/-!
# The current position of a workflow

What the workers of a workflow have to agree on is its action list, which is fixed, and the position of the current
action, the first one that has not succeeded.  An accepted report is about the action at that position, and moves it
on by one if it is `SUCCESS` (`position_of_report`); no other report and no reconciliation moves it
(`position_of_reconcile`).  `Advance` is what is left of an event if only these two are looked at.
-/

namespace Tink.Kube

open GoTime Machine

variable {r : Template.Renderer TemplateData} {wf wf' : Workflow} {e : Event}

/-- What every initialised workflow satisfies, its state included. -/
structure Sane (wf : Workflow) : Prop extends Steady wf where
  agrees : statuses wf ≠ [] → Agrees wf

theorem length_statuses_congr (h : skeleton wf'.status.tasks = skeleton wf.status.tasks) :
    (statuses wf').length = (statuses wf).length := by
  rw [statuses, statuses, List.length_map, List.length_map, length_actionsOf_congr h]

theorem Sane.step (hg : Sane wf) (he : e.Declared) : Sane (step r wf e) := by
  refine { hg.toSteady.step he with agrees := fun hne => Agrees.step hg.toWellStaged (hg.agrees ?_) he }
  obtain ⟨hsk, -⟩ := skeleton_step (r := r) hg.unique hg.state e
  rw [← List.length_pos_iff, length_statuses_congr hsk, List.length_pos_iff] at hne
  exact hne

/-- A workflow without a status is left alone or initialised. -/
theorem sane_of_no_status (h : wf.status = {}) (e : Event) : (step r wf e).status = {} ∨ Sane (step r wf e) := by
  have htasks : wf.status.tasks = [] := by rw [h]
  have hu : UniqueNames wf.status.tasks := by rw [htasks]; exact ⟨List.nodup_nil, by simp⟩
  rcases step_cases (r := r) hu e with hs | ⟨_, _, c, -, hc, -⟩ | ⟨-, hpop⟩ | ⟨hs, -⟩
  · left; rw [hs]; exact h
  · rw [htasks] at hc; simp [Cursor.tasks] at hc
  · right
    obtain ⟨tpl, hacc, hinit⟩ := hpop.exists_template
    exact { Steady.initial hacc hinit with agrees := Agrees.initial hinit }
  · rw [h] at hs; cases hs

theorem name_step (hu : UniqueNames wf.status.tasks) (e : Event) : (step r wf e).name = wf.name := by
  rcases step_cases (r := r) hu e with h | ⟨_, _, _, -, -, -, h⟩ | ⟨-, _, _, _, _, -, h⟩ |
    ⟨-, -, _, _, -, -, h⟩ <;> rw [h]
  rfl

/-! ### The position -/

private theorem currentPosition_eq_findIdx (wf : Workflow) :
    wf.currentPosition = (statuses wf).findIdx (· ≠ .success) := by
  rw [Workflow.currentPosition, statuses, ← map_snd_entriesOf, List.map_map, List.findIdx_map]
  rfl

private theorem findIdx_of_stage {l₁ l₂ : List WorkflowState} {x : WorkflowState} (h₁ : ∀ y ∈ l₁, y = .success)
    (h₂ : ∀ y ∈ l₂, y = .pending) :
    (l₁ ++ x :: l₂).findIdx (· ≠ .success) = if x = .success then l₁.length + 1 else l₁.length := by
  have hfront : l₁.findIdx (· ≠ .success) = l₁.length := by
    rw [List.findIdx_eq_length]
    intro y hy
    simp [h₁ y hy]
  have hback : l₂.findIdx (· ≠ .success) = 0 := by
    cases l₂ with
    | nil => rfl
    | cons y l₂ => rw [List.findIdx_cons, h₂ y (by simp)]; rfl
  rw [List.findIdx_append, hfront, if_neg (lt_irrefl _), List.findIdx_cons]
  by_cases hx : x = .success
  · simp only [hx, hback]; simp; omega
  · simp [hx]

/-- An accepted report is about the action at the current position, and moves it on if it is `SUCCESS`. -/
theorem position_of_report (hg : Sane wf) {env : ReportEnv} {req : WorkflowActionStatus}
    (h : reportActionStatus env wf req = .ok wf') :
    (∃ a, (workflowActionListCRDToProto wf)[wf.currentPosition]? = some a ∧ a.taskName = req.taskName ∧
        a.name = req.actionName) ∧
      wf'.currentPosition = if req.actionStatus = .success then wf.currentPosition + 1 else wf.currentPosition := by
  rcases closed_or_cursor wf.status.tasks with hclosed | ⟨c, hc⟩
  · exact absurd h (report_closed hclosed env req)
  obtain ⟨hacc, rfl⟩ := (report_eq_ok hc (hc ▸ hg.unique)).1 h
  have hpos := hg.currentPosition_eq hc
  refine ⟨⟨actionCRDToProto c.task c.action, ?_, hacc.named.task.symm, hacc.named.action.symm⟩, ?_⟩
  · rw [hpos]; exact Cursor.getElem?_actionList hc
  · have hst := hg.staged
    rw [statuses, hc, c.actionsOf_tasks, List.map_append, List.map_cons] at hst
    have hsucc : (stateName req.actionStatus = .success) = (req.actionStatus = .success) := by
      cases req.actionStatus <;> simp [stateName]
    rw [currentPosition_eq_findIdx, hpos, statuses,
      show (c.reported env.now req.actionStatus wf).status.tasks = c.replace _ from rfl, c.actionsOf_replace,
      List.map_append, List.map_cons, findIdx_of_stage _ (hst.after c.action_ne_success), reportedAction_status,
      List.length_map]
    · simp only [hsucc]
    · intro y hy
      obtain ⟨a, ha, rfl⟩ := List.mem_map.1 hy
      exact hg.front_success hc a ha

/-- The state of the workflow after an accepted report. -/
theorem state_of_report (hg : Sane wf) {env : ReportEnv} {req : WorkflowActionStatus}
    (h : reportActionStatus env wf req = .ok wf') :
    wf'.status.state = reportedState req.actionStatus
      (wf.currentPosition + 1 = (workflowActionListCRDToProto wf).length) wf.status.state := by
  rcases closed_or_cursor wf.status.tasks with hclosed | ⟨c, hc⟩
  · exact absurd h (report_closed hclosed env req)
  · obtain ⟨-, rfl⟩ := (report_eq_ok hc (hc ▸ hg.unique)).1 h
    rw [hg.currentPosition_eq hc, ← hg.index_eq hc, length_actionList, hc]
    rfl

private theorem findIdx_congr {α : Type} {p : α → Bool} {l l' : List α}
    (h : List.Forall₂ (fun x y => p x = p y) l l') :
    l.findIdx p = l'.findIdx p := by
  induction h with
  | nil => rfl
  | cons hxy _ ih => rw [List.findIdx_cons, List.findIdx_cons, hxy, ih]

/-- A reconciliation does not move the position of an initialised workflow. -/
theorem position_of_reconcile (hg : Sane wf) (env : ReconcileEnv) :
    (step r wf (.reconcile env)).currentPosition = wf.currentPosition := by
  rcases step_cases (r := r) hg.unique (.reconcile env) with h | ⟨_, _, _, h, -⟩ | ⟨h, -⟩ |
    ⟨-, -, tasks, state, htasks, -, h⟩
  · rw [h]
  · cases h
  · exact absurd h hg.state
  · rw [h, currentPosition_eq_findIdx, currentPosition_eq_findIdx]
    refine (findIdx_congr ?_).symm
    rw [statuses, statuses, List.forall₂_map_left_iff, List.forall₂_map_right_iff]
    refine (actionsOf_timed htasks).imp ?_
    rintro a a' (rfl | ⟨h1, h2, -⟩)
    · rfl
    · simp [h1, h2]

/-- The actions before the current position, and only these, have succeeded. -/
theorem Sane.success_iff (hg : Sane wf) {k : Nat} : (statuses wf)[k]? = some .success ↔ k < wf.currentPosition := by
  rw [currentPosition_eq_findIdx]
  constructor
  · intro hk
    by_contra hle
    -- the first action that has not succeeded comes before, and what follows it is pending
    obtain ⟨hlt, hget⟩ := List.getElem?_eq_some_iff.1 hk
    have hfirst : (statuses wf).findIdx (· ≠ .success) < (statuses wf).length := by omega
    have hne : (statuses wf)[(statuses wf).findIdx (· ≠ .success)] ≠ .success := by
      simpa using List.findIdx_getElem (w := hfirst)
    rcases Nat.eq_or_lt_of_not_lt hle with he | hgt
    · exact hne (by simpa [he] using hget)
    · have hst := List.pairwise_iff_getElem.1 (staged_iff_pairwise.1 hg.staged) _ k hfirst hlt hgt
      rw [hget] at hst
      rcases hst with h | h
      · exact hne h
      · cases h
  · intro hk
    have hlt : k < (statuses wf).length := lt_of_lt_of_le hk List.findIdx_le_length
    have := List.not_of_lt_findIdx hk
    rw [List.getElem?_eq_getElem hlt]
    simpa using this

/-! ### Names in the list -/

private theorem nodup_entries {tasks : List Task} (hu : UniqueNames tasks) :
    ((entriesOf tasks).map fun e => (e.1.name, e.2.name)).Nodup := by
  rw [entriesOf, List.map_flatMap, List.nodup_flatMap]
  constructor
  · intro t ht
    have hmap : (t.actions.map (Prod.mk t)).map (fun e => (e.1.name, e.2.name)) =
        (t.actions.map Action.name).map (Prod.mk t.name) := by
      simp [Function.comp_def]
    rw [hmap]
    exact (hu.actionNodup t ht).map fun _ _ h => (Prod.mk.inj h).2
  · refine (List.pairwise_map.1 hu.taskNodup).imp ?_
    intro t t' hne p hp hp'
    simp only [List.map_map, List.mem_map, Function.comp_def] at hp hp'
    obtain ⟨a, -, rfl⟩ := hp
    obtain ⟨a', -, h⟩ := hp'
    exact hne (Prod.mk.inj h).1.symm

/-- The positions of the list are told apart by the names there. -/
theorem Sane.position_unique (hg : Sane wf) {i j : Nat} {a b : WorkflowAction}
    (ha : (workflowActionListCRDToProto wf)[i]? = some a) (hb : (workflowActionListCRDToProto wf)[j]? = some b)
    (ht : a.taskName = b.taskName) (hn : a.name = b.name) : i = j := by
  have hnodup : ((workflowActionListCRDToProto wf).map fun a => (a.taskName, a.name)).Nodup := by
    rw [workflowActionListCRDToProto_eq, List.map_map]
    exact nodup_entries hg.unique
  have hi : i < ((workflowActionListCRDToProto wf).map fun a => (a.taskName, a.name)).length := by
    rw [List.length_map]; exact (List.getElem?_eq_some_iff.1 ha).1
  refine (List.getElem?_inj hi hnodup).1 ?_
  rw [List.getElem?_map, List.getElem?_map, ha, hb, Option.map_some, Option.map_some, ht, hn]

/-! ### What is left of an event -/

theorem Sane.list_step (hg : Sane wf) (e : Event) :
    workflowActionListCRDToProto (Kube.step r wf e) = workflowActionListCRDToProto wf := by
  rw [workflowActionListCRDToProto_planned, workflowActionListCRDToProto_planned, planned_step hg.unique hg.state]

/-- The workflow has moved on by at most one action, and if it has then this action was one of `w`. -/
structure Advance (w : String) (wf wf' : Workflow) : Prop where
  sane : Sane wf'
  name : wf'.name = wf.name
  list : workflowActionListCRDToProto wf' = workflowActionListCRDToProto wf
  position : wf'.currentPosition = wf.currentPosition ∨
    (wf'.currentPosition = wf.currentPosition + 1 ∧
      ∃ a, (workflowActionListCRDToProto wf)[wf.currentPosition]? = some a ∧ a.workerId = w)

theorem Advance.le {w : String} (h : Advance w wf wf') : wf.currentPosition ≤ wf'.currentPosition := by
  rcases h.position with h | ⟨h, -⟩ <;> omega

/-- A report about an action of `w`. -/
theorem advance_report {w : String} (hg : Sane wf) {env : ReportEnv} {req : WorkflowActionStatus}
    (hd : req.actionStatus.Declared) {k : Nat} {a : WorkflowAction}
    (hk : (workflowActionListCRDToProto wf)[k]? = some a) (ht : a.taskName = req.taskName)
    (hn : a.name = req.actionName) (hw : a.workerId = w) : Advance w wf (step r wf (.report env req)) := by
  refine ⟨hg.step hd, name_step hg.unique _, hg.list_step _, ?_⟩
  cases hr : reportActionStatus env wf req with
  | error _ => left; simp only [step, hr]
  | ok wf' =>
    obtain ⟨⟨b, hb, hbt, hbn⟩, hpos⟩ := position_of_report hg hr
    have hstep : step r wf (.report env req) = wf' := by simp only [step, hr]
    rw [hstep, hpos]
    split
    · right
      obtain rfl : k = wf.currentPosition := hg.position_unique hk hb (ht.trans hbt.symm) (hn.trans hbn.symm)
      exact ⟨rfl, a, hk, hw⟩
    · left; rfl

end Tink.Kube
