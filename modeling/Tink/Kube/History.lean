import Tink.Kube.Controller
import Tink.Lib.Run
import Tink.Lib.Staged

/-!
# Histories of a workflow on the Kubernetes backend

Two writers change the status of a workflow: reports of workers through the server and reconciliations by the
controller.  Here both are atomic; a history is a run of the machine `step` over the two kinds of events, with any
names, states and times in them.

`step_cases` says once what a step can do to a workflow whose names are distinct.  From it follow, for histories with
declared states: the statuses of the actions are staged from success to pending (`statuses_staged`), and the workflow
is successful exactly when all its actions are (`success_iff_all_success`).
-/

namespace Tink.Kube

open GoTime Machine

/-- One atomic event: a request to the server, or a reconciliation. -/
inductive Event where
  | report (env : ReportEnv) (req : WorkflowActionStatus)
  | reconcile (env : ReconcileEnv)

/-- The reported state, if the event is a report, is one of the five constants. -/
def Event.Declared : Event → Prop
  | .report _ req => req.actionStatus.Declared
  | .reconcile _ => True

instance : DecidablePred Event.Declared
  | .report _ req => inferInstanceAs (Decidable req.actionStatus.Declared)
  | .reconcile _ => isTrue trivial

/-- The workflow held by the store after an event.  A rejected report and a panic leave it as it is. -/
def step (r : Template.Renderer TemplateData) (wf : Workflow) : Event → Workflow
  | .report env req =>
    match reportActionStatus env wf req with
    | .ok wf' => wf'
    | .error _ => wf
  | .reconcile env =>
    match reconcile r env wf with
    | .ok (wf', _) => wf'
    | _ => wf

/-- The statuses of the actions, flattened over the tasks. -/
def statuses (wf : Workflow) : List WorkflowState := (actionsOf wf.status.tasks).map Action.status

/-- The tasks by their names and the names of their actions. -/
def skeleton (tasks : List Task) : List (String × List String) :=
  tasks.map fun t => (t.name, t.actions.map Action.name)

/-- `wf` has just been initialised from the template `tpl`. -/
def InitialisedFrom (tpl : Template.Workflow) (wf : Workflow) : Prop := wf.status = initialStatus tpl

/-- A workflow with the given status. -/
def Workflow.ofStatus (status : WorkflowStatus) : Workflow where
  name := "wf"
  name_ne := by decide
  status := status

/-- A workflow initialised from the template with the given tasks. -/
def Workflow.ofNames (tasks : List (String × String × List String)) : Workflow :=
  .ofStatus (initialStatus (.ofNames tasks))

/-- A reconciliation during which the clock stands still, with a store that answers. -/
def ReconcileEnv.still (now : Time) : ReconcileEnv where
  now _ := now
  template := .ok (some "template")

/-- A report at time `now`, with a store that answers. -/
def Event.reportOf (now : Time) (task action : String) (s : State) : Event :=
  .report { now := now } { workflowId := "wf", taskName := task, actionName := action, actionStatus := s }

variable {r : Template.Renderer TemplateData} {wf : Workflow} {e : Event}

/-! ### The names do not change -/

theorem UniqueNames.congr {ts ts' : List Task} (h : skeleton ts' = skeleton ts) (hu : UniqueNames ts) :
    UniqueNames ts' := by
  have hnames : ∀ us : List Task, us.map Task.name = (skeleton us).map Prod.fst := by
    intro us; simp [skeleton]
  refine ⟨by rw [hnames, h, ← hnames]; exact hu.taskNodup, fun t' ht' => ?_⟩
  have hmem : (t'.name, t'.actions.map Action.name) ∈ skeleton ts := by
    rw [← h]; exact List.mem_map_of_mem ht'
  obtain ⟨t, ht, he⟩ := List.mem_map.1 hmem
  rw [← (Prod.mk.inj he).2]
  exact hu.actionNodup t ht

theorem Cursor.skeleton_replace (c : Cursor) {a : Action} (h : a.name = c.action.name) :
    skeleton (c.replace a) = skeleton c.tasks := by
  simp [skeleton, replace, tasks, c.actions_eq, h]

private theorem map_name_of_timed {as as' : List Action} (h : List.Forall₂ Timed as as') :
    as'.map Action.name = as.map Action.name := by
  induction h with
  | nil => rfl
  | cons ha _ ih => simp [ha.name, ih]

theorem skeleton_of_timed {ts ts' : List Task} (h : List.Forall₂ TimedTask ts ts') : skeleton ts' = skeleton ts := by
  induction h with
  | nil => rfl
  | cons ht _ ih =>
    obtain ⟨hn, -, ha⟩ := ht
    simp only [skeleton, List.map_cons] at ih ⊢
    rw [hn, map_name_of_timed ha, ih]

theorem actionsOf_timed {ts ts' : List Task} (h : List.Forall₂ TimedTask ts ts') :
    List.Forall₂ Timed (actionsOf ts) (actionsOf ts') := by
  induction h with
  | nil => exact .nil
  | cons ht _ ih => exact List.rel_append ht.2.2 ih

/-! ### What a step can do -/

/-- The workflow after a timeout check. -/
def Checked (wf wf' : Workflow) : Prop :=
  ∃ tasks state, List.Forall₂ TimedTask wf.status.tasks tasks ∧ (state = .running ∨ state = .timeout) ∧
    wf' = { wf with status := { wf.status with tasks := tasks, state := state } }

/-- What a reconciliation makes of the copy it has read. -/
theorem reconcileCopy_cases {env : ReconcileEnv} {wflow : Workflow} {resp : Result}
    (h : reconcileCopy r env wf = .ok (wflow, resp)) :
    wflow = wf ∨ (wf.status.state = .unset ∧ Populated r wf wflow) ∨
      (wf.status.state = .running ∧ wf.getStartTime ≠ none ∧ Checked wf wflow) := by
  unfold reconcileCopy at h
  split at h
  · cases h; left; rfl
  · split at h
    · rename_i hs
      have hnew := processNewWorkflow_cases (r := r) env wf
      simp only [Outcome.ok.injEq] at h
      rw [h] at hnew
      rcases hnew with ⟨hw, -⟩ | ⟨hpop, -⟩
      · left; exact hw
      · right; left; exact ⟨hs, hpop⟩
    · rename_i hs
      unfold processRunningWorkflow at h
      cases hst : wf.getStartTime with
      | none => simp [hst] at h
      | some start =>
        simp only [hst, Outcome.ok_bind, Outcome.pure_def, Outcome.ok.injEq, Prod.mk.injEq] at h
        obtain ⟨rfl, -⟩ := h
        right; right
        obtain ⟨htasks, hstate⟩ := checkTasks_spec env.now 0 wf.status.tasks
          (if after (env.now .global) (add start.time (seconds wf.status.globalTimeout)) then .timeout
          else wf.status.state)
        refine ⟨hs, by simp, _, _, htasks, ?_, rfl⟩
        rcases hstate with h | h
        · rw [h]; split
          · right; rfl
          · left; exact hs
        · right; exact h
    · cases h; left; rfl

/-- The copy decides: unless the patch fails, the store holds the copy afterwards. -/
theorem reconcile_eq_copy (wf : Workflow) (env : ReconcileEnv) :
    step r wf (.reconcile env) = wf ∨ ∃ wflow resp, reconcileCopy r env wf = .ok (wflow, resp) ∧
      step r wf (.reconcile env) = { wf with status := wflow.status } := by
  simp only [step, reconcile]
  cases hg : env.getErr with
  | some g => cases g <;> simp
  | none =>
    cases hc : reconcileCopy r env wf with
    | error e => exact e.elim
    | panic => simp
    | ok p =>
      obtain ⟨wflow, resp⟩ := p
      by_cases hw : wflow = wf
      · simp [hw]
      · cases hp : env.patchErr with
        | some m => simp [hw]
        | none =>
          right
          exact ⟨wflow, resp, rfl, by simp [hw, mergeFrom_self]⟩

private theorem reconcile_cases (env : ReconcileEnv) :
    step r wf (.reconcile env) = wf ∨
      (wf.status.state = .unset ∧ Populated r wf (step r wf (.reconcile env))) ∨
      (wf.status.state = .running ∧ wf.getStartTime ≠ none ∧ Checked wf (step r wf (.reconcile env))) := by
  rcases reconcile_eq_copy (r := r) wf env with h | ⟨wflow, resp, hc, hstep⟩
  · left; exact h
  · rcases reconcileCopy_cases hc with h | ⟨hs, text, data, tpl, buf, hr, rfl⟩ |
      ⟨hs, hst, tasks, state, ht, hstate, rfl⟩
    · left; rw [hstep, h]
    · right; left; exact ⟨hs, text, data, tpl, buf, hr, hstep⟩
    · right; right; exact ⟨hs, hst, tasks, state, ht, hstate, hstep⟩

/-- A reconciliation changes an initialised workflow only to time it out. -/
theorem reconcile_times_out (hs : wf.status.state ≠ .unset) (env : ReconcileEnv) :
    step r wf (.reconcile env) = wf ∨ (step r wf (.reconcile env)).status.state = .timeout := by
  rcases reconcile_eq_copy (r := r) wf env with h | ⟨wflow, resp, hc, hstep⟩
  · left; exact h
  · rw [hstep]
    unfold reconcileCopy at hc
    split at hc
    · cases hc; left; rfl
    · split at hc
      · rename_i hu; exact absurd hu hs
      · obtain ⟨w', hw', hpure⟩ := Outcome.bind_eq_ok.1 hc
        cases hpure
        rcases processRunningWorkflow_eq_or_timeout hw' with h | h
        · left; rw [h]
        · right; exact h
      · cases hc; left; rfl

/-- What a step can do to a workflow with distinct names. -/
theorem step_cases (hu : UniqueNames wf.status.tasks) (e : Event) :
    step r wf e = wf ∨
      (∃ env req, ∃ c : Cursor, e = .report env req ∧ wf.status.tasks = c.tasks ∧ c.Accepts wf env req ∧
        step r wf e = c.reported env.now req.actionStatus wf) ∨
      (wf.status.state = .unset ∧ Populated r wf (step r wf e)) ∨
      (wf.status.state = .running ∧ wf.getStartTime ≠ none ∧ Checked wf (step r wf e)) := by
  cases e with
  | reconcile env =>
    rcases (reconcile_cases env : step r wf (.reconcile env) = wf ∨ _) with h | h | h
    · left; exact h
    · right; right; left; exact h
    · right; right; right; exact h
  | report env req =>
    cases hr : reportActionStatus env wf req with
    | error _ => left; simp only [step, hr]
    | ok wf' =>
      right; left
      rcases closed_or_cursor wf.status.tasks with hclosed | ⟨c, hc⟩
      · exact absurd hr (report_closed hclosed env req)
      · obtain ⟨hacc, hwf'⟩ := (report_eq_ok hc (hc ▸ hu)).1 hr
        exact ⟨env, req, c, rfl, hc, hacc, by simp only [step, hr, hwf']⟩

theorem step_report_of_accepts {c : Cursor} (hc : wf.status.tasks = c.tasks) (hu : UniqueNames wf.status.tasks)
    {env : ReportEnv} {req : WorkflowActionStatus} (h : c.Accepts wf env req) :
    step r wf (.report env req) = c.reported env.now req.actionStatus wf := by
  have hok := (report_eq_ok hc (hc ▸ hu)).2 ⟨h, rfl⟩
  simp only [step, hok]

theorem step_report_of_not_accepts {c : Cursor} (hc : wf.status.tasks = c.tasks) (hu : UniqueNames wf.status.tasks)
    {env : ReportEnv} {req : WorkflowActionStatus} (h : ¬ c.Accepts wf env req) :
    step r wf (.report env req) = wf := by
  cases hr : reportActionStatus env wf req with
  | error _ => simp only [step, hr]
  | ok wf' => exact absurd ((report_eq_ok hc (hc ▸ hu)).1 hr).1 h

theorem reportedState_ne_unset {s : State} {last : Prop} [Decidable last] {old : WorkflowState}
    (h : old ≠ .unset) : reportedState s last old ≠ .unset := by
  cases s <;> simp only [reportedState, ne_eq, reduceCtorEq, not_false_eq_true, h]
  split <;> simp [h]

/-- The tasks and actions stay what they are until the workflow is initialised. -/
theorem skeleton_or_populated (hu : UniqueNames wf.status.tasks) (e : Event) :
    skeleton (step r wf e).status.tasks = skeleton wf.status.tasks ∨ Populated r wf (step r wf e) := by
  rcases step_cases (r := r) hu e with h | ⟨env, req, c, -, hc, -, h⟩ | ⟨-, h⟩ | ⟨-, -, tasks, state, ht, -, h⟩
  · left; rw [h]
  · left; rw [h, hc]; exact c.skeleton_replace (reportedAction_name _ _ _)
  · right; exact h
  · left; rw [h]; exact skeleton_of_timed ht

/-- An initialised workflow keeps its tasks and actions, and stays initialised. -/
theorem skeleton_step (hu : UniqueNames wf.status.tasks) (hs : wf.status.state ≠ .unset) (e : Event) :
    skeleton (step r wf e).status.tasks = skeleton wf.status.tasks ∧ (step r wf e).status.state ≠ .unset := by
  rcases step_cases (r := r) hu e with h | ⟨env, req, c, -, hc, -, h⟩ | ⟨h, -⟩ | ⟨-, -, tasks, state, ht, hstate, h⟩
  · rw [h]; exact ⟨rfl, hs⟩
  · rw [h]
    refine ⟨?_, reportedState_ne_unset hs⟩
    rw [hc]; exact c.skeleton_replace (reportedAction_name _ _ _)
  · exact absurd h hs
  · rw [h]
    refine ⟨skeleton_of_timed ht, ?_⟩
    rcases hstate with rfl | rfl <;> simp

theorem skeleton_run (hu : UniqueNames wf.status.tasks) (hs : wf.status.state ≠ .unset) (es : List Event) :
    skeleton (run (step r) wf es).status.tasks = skeleton wf.status.tasks := by
  refine (run_inv
    (I := fun w : Workflow => skeleton w.status.tasks = skeleton wf.status.tasks ∧ w.status.state ≠ .unset)
    ⟨rfl, hs⟩ ?_).1
  rintro w e ⟨hsk, hs⟩
  obtain ⟨hsk', hs'⟩ := skeleton_step (r := r) (UniqueNames.congr hsk hu) hs e
  exact ⟨hsk'.trans hsk, hs'⟩

theorem length_actionsOf_congr {ts ts' : List Task} (h : skeleton ts' = skeleton ts) :
    (actionsOf ts').length = (actionsOf ts).length := by
  have hlen : ∀ us : List Task, (actionsOf us).length = ((skeleton us).map fun p => p.2.length).sum := by
    intro us
    simp [actionsOf, skeleton, List.length_flatMap, Function.comp_def]
  rw [hlen, hlen, h]

/-! ### The shape of the statuses -/

/-- The actions in front of the cursor. -/
def Cursor.front (c : Cursor) : List Action := actionsOf c.before ++ c.done

/-- The actions behind the cursor. -/
def Cursor.back (c : Cursor) : List Action := c.rest ++ actionsOf c.after

theorem Cursor.actionsOf_replace (c : Cursor) (a : Action) : actionsOf (c.replace a) = c.front ++ a :: c.back := by
  simp [replace, front, back]

theorem Cursor.actionsOf_tasks (c : Cursor) : actionsOf c.tasks = c.front ++ c.action :: c.back := by
  rw [← c.replace_self, c.actionsOf_replace]

theorem Cursor.front_closed (c : Cursor) : ∀ a ∈ c.front, isOpen a.status = false := by
  intro a ha
  rcases List.mem_append.1 ha with ha | ha
  · exact c.before_closed a ha
  · exact c.done_closed a ha

/-- What every history with declared states keeps: the names are distinct, the workflow and its actions have states,
and those of the actions are staged, successes first. -/
structure WellStaged (wf : Workflow) : Prop where
  unique : UniqueNames wf.status.tasks
  state : wf.status.state ≠ .unset
  declared : ∀ a ∈ actionsOf wf.status.tasks, a.status ≠ .unset
  staged : Staged .success .pending (statuses wf)

section

variable {c : Cursor}

/-- With declared statuses, the scan passes over successes only. -/
theorem Cursor.front_success (hc : wf.status.tasks = c.tasks)
    (hd : ∀ a ∈ actionsOf wf.status.tasks, a.status ≠ .unset) : ∀ a ∈ c.front, a.status = .success := by
  intro a ha
  have hne : a.status ≠ .unset := hd a (by rw [hc, c.actionsOf_tasks]; simp [ha])
  have hclosed := c.front_closed a ha
  cases hs : a.status <;> simp [hs, isOpen] at hne hclosed ⊢

/-- With declared statuses, the index the scan counts is its position. -/
theorem Cursor.index_eq (hc : wf.status.tasks = c.tasks) (hd : ∀ a ∈ actionsOf wf.status.tasks, a.status ≠ .unset) :
    c.index = c.front.length := by
  have h : successes c.front = c.front.length := by
    rw [successes, List.countP_eq_length]
    intro a ha
    simpa using Cursor.front_success hc hd a ha
  rw [← h, Cursor.index, Cursor.front, successes_append]

theorem WellStaged.front_success (hg : WellStaged wf) (hc : wf.status.tasks = c.tasks) :
    ∀ a ∈ c.front, a.status = .success :=
  Cursor.front_success hc hg.declared

theorem WellStaged.index_eq (hg : WellStaged wf) (hc : wf.status.tasks = c.tasks) : c.index = c.front.length :=
  Cursor.index_eq hc hg.declared

theorem Cursor.action_ne_success (c : Cursor) : c.action.status ≠ .success := by
  intro h
  have := c.action_open
  simp [h, isOpen] at this

private theorem stateName_ne_unset {s : State} (h : s.Declared) : stateName s ≠ .unset := by
  cases s <;> simp [stateName, State.Declared] at h ⊢

private theorem WellStaged.reported (hg : WellStaged wf) (hc : wf.status.tasks = c.tasks) {s : State}
    (hs : s.Declared) (now : Time) : WellStaged (c.reported now s wf) := by
  have hacts : actionsOf (c.reported now s wf).status.tasks = c.front ++ reportedAction now s c.action :: c.back :=
    c.actionsOf_replace _
  refine ⟨?_, ?_, ?_, ?_⟩
  · exact UniqueNames.congr (c.skeleton_replace (by simp)) (hc ▸ hg.unique)
  · exact reportedState_ne_unset hg.state
  · intro a ha
    rw [hacts] at ha
    have hold : ∀ b ∈ c.front ++ c.action :: c.back, b.status ≠ .unset := by
      rw [← c.actionsOf_tasks, ← hc]; exact hg.declared
    rcases List.mem_append.1 ha with h | h
    · exact hold a (by simp [h])
    · rcases List.mem_cons.1 h with rfl | h
      · rw [reportedAction_status]; exact stateName_ne_unset hs
      · exact hold a (by simp [h])
  · have hst := hg.staged
    rw [statuses, hc, c.actionsOf_tasks, List.map_append, List.map_cons] at hst
    rw [statuses, hacts, List.map_append, List.map_cons]
    refine hst.replace ?_ c.action_ne_success _
    intro x hx
    obtain ⟨a, ha, rfl⟩ := List.mem_map.1 hx
    exact hg.front_success hc a ha

private theorem WellStaged.checked {wf' : Workflow} (hg : WellStaged wf) (h : Checked wf wf') : WellStaged wf' := by
  obtain ⟨tasks, state, htasks, hstate, rfl⟩ := h
  have hacts := actionsOf_timed htasks
  refine ⟨UniqueNames.congr (skeleton_of_timed htasks) hg.unique, ?_, ?_, ?_⟩
  · rcases hstate with rfl | rfl <;> simp
  · intro a' ha'
    obtain ⟨a, ha, h | ⟨-, h, -⟩⟩ := hacts.exists_of_mem_right ha'
    · rw [h]; exact hg.declared a ha
    · rw [h]; simp
  · have hmap : List.Forall₂ (fun x y => y = x ∨ (x = .running ∧ y = .timeout)) (statuses wf)
        ((actionsOf tasks).map Action.status) := by
      rw [statuses, List.forall₂_map_left_iff, List.forall₂_map_right_iff]
      refine hacts.imp ?_
      rintro a a' (rfl | ⟨h1, h2, -⟩)
      · left; rfl
      · right; exact ⟨h1, h2⟩
    exact hg.staged.map₂ hmap (by simp) (by simp)

theorem WellStaged.step (hg : WellStaged wf) (he : e.Declared) : WellStaged (step r wf e) := by
  rcases step_cases (r := r) hg.unique e with h | ⟨env, req, c, rfl, hc, -, h⟩ | ⟨h, -⟩ | ⟨-, -, h⟩
  · rw [h]; exact hg
  · rw [h]; exact hg.reported hc he _
  · exact absurd h hg.state
  · exact hg.checked h

theorem initial_pending (tpl : Template.Workflow) :
    ∀ a ∈ actionsOf (workflowYAMLToStatus tpl).tasks, a.status = .pending := by
  intro a ha
  obtain ⟨t, ht, hat⟩ := mem_actionsOf.1 ha
  obtain ⟨task, -, rfl⟩ := List.mem_map.1 ht
  obtain ⟨action, -, rfl⟩ := List.mem_map.1 hat
  rfl

theorem initial_unique {H : Type} {v : Template.Renderer H} {tpl : Template.Workflow}
    (h : Template.Accepted v tpl) : UniqueNames (workflowYAMLToStatus tpl).tasks := by
  refine ⟨?_, ?_⟩
  · have := h.taskNodup
    simpa [workflowYAMLToStatus, Function.comp_def] using this
  · intro t ht
    obtain ⟨task, htask, rfl⟩ := List.mem_map.1 ht
    have := h.actionNodup task htask
    simpa [Function.comp_def] using this

/-- The names stay distinct along every history of an object that was stored without a status. -/
theorem unique_of_run {wf₀ : Workflow} (h0 : wf₀.status = {}) (es : List Event) :
    UniqueNames (run (step r) wf₀ es).status.tasks := by
  have hnil : UniqueNames wf₀.status.tasks := by rw [h0]; exact ⟨List.nodup_nil, by simp⟩
  refine run_inv (I := fun w : Workflow => UniqueNames w.status.tasks) hnil fun w e hu => ?_
  rcases skeleton_or_populated (r := r) hu e with h | ⟨text, data, tpl, buf, hr, h⟩
  · exact UniqueNames.congr h hu
  · rw [h]; exact initial_unique (Template.renderTemplateHardware_accepted hr).1

theorem WellStaged.initial {H : Type} {v : Template.Renderer H} {tpl : Template.Workflow}
    (h : Template.Accepted v tpl) (hwf : InitialisedFrom tpl wf) : WellStaged wf := by
  have htasks : wf.status.tasks = (workflowYAMLToStatus tpl).tasks := by rw [hwf]; rfl
  have hpend : ∀ a ∈ actionsOf wf.status.tasks, a.status = .pending := by
    rw [htasks]; exact initial_pending tpl
  refine ⟨?_, ?_, ?_, ?_⟩
  · rw [htasks]; exact initial_unique h
  · rw [hwf]; simp [initialStatus]
  · intro a ha; rw [hpend a ha]; simp
  · rw [staged_iff_pairwise]
    refine List.pairwise_of_forall_mem_list fun x _ y hy => Or.inr ?_
    obtain ⟨a, ha, rfl⟩ := List.mem_map.1 hy
    exact hpend a ha

private theorem WellStaged.run {es : List Event} (hg : WellStaged wf) (he : ∀ e ∈ es, e.Declared) :
    WellStaged (run (Kube.step r) wf es) := by
  refine (always_of_every (C := fun _ e => e.Declared) hg ?_ fun s e h hd => h.step hd).last
  exact every_of_forall_mem fun e h _ => he e h

end

/-- Along every history with declared states the statuses read `SUCCESS … SUCCESS`, at most one action in any state,
`PENDING … PENDING`: at most one action is running, and none is past `PENDING` before all earlier ones succeeded. -/
theorem statuses_staged (tpl : Template.Workflow) (hv : Template.validate r tpl = .ok ())
    (hwf : InitialisedFrom tpl wf) {es : List Event} (he : ∀ e ∈ es, e.Declared) :
    Staged .success .pending (statuses (run (step r) wf es)) ∧
      (statuses (run (step r) wf es)).count .running ≤ 1 ∧
      ∀ l₁ x l₂, statuses (run (step r) wf es) = l₁ ++ x :: l₂ → x ≠ .pending → ∀ y ∈ l₁, y = .success := by
  have hst := ((WellStaged.initial (Template.validate_eq_ok.1 hv) hwf).run he (r := r)).staged
  refine ⟨hst, ?_, ?_⟩
  · exact hst.count_le_one (by simp) (by simp)
  · intro l₁ x l₂ hl hx
    rw [hl] at hst
    exact hst.before hx

theorem statuses_staged_one_task :
    let wf := Workflow.ofNames [("os", "m1", ["stream", "boot"])]
    let es := [Event.reportOf 0 "os" "stream" .success, .reportOf 1 "os" "boot" .running]
    statuses (run (step (.reading _ (.ofNames [("os", "m1", ["stream", "boot"])]))) wf es) = [.success, .running] ∧
      (statuses (run (step (.reading _ (.ofNames [("os", "m1", ["stream", "boot"])]))) wf es)).count .running ≤ 1 :=
  ⟨rfl, (statuses_staged (.ofNames [("os", "m1", ["stream", "boot"])]) (by rfl) (by rfl) (by decide)).2.1⟩

/-! ### The state of the workflow and its actions -/

/-- The workflow is successful exactly when all its actions are. -/
def Agrees (wf : Workflow) : Prop :=
  wf.status.state = .success ↔ ∀ a ∈ actionsOf wf.status.tasks, a.status = .success

private theorem success_of_timed {as as' : List Action} (h : List.Forall₂ Timed as as')
    (hs : ∀ a ∈ as', a.status = .success) : ∀ a ∈ as, a.status = .success := by
  intro a ha
  obtain ⟨a', ha', rfl | ⟨-, ht, -⟩⟩ := h.exists_of_mem_left ha
  · exact hs a' ha'
  · rw [hs a' ha'] at ht; cases ht

private theorem Agrees.checked {wf' : Workflow} (hag : Agrees wf) (hs : wf.status.state = .running)
    (h : Checked wf wf') : Agrees wf' := by
  obtain ⟨tasks, state, htasks, hstate, rfl⟩ := h
  constructor
  · intro h
    rcases hstate with rfl | rfl <;> cases h
  · intro h
    have := hag.2 (success_of_timed (actionsOf_timed htasks) h)
    rw [hs] at this; cases this

private theorem Agrees.reported {c : Cursor} {env : ReportEnv} {req : WorkflowActionStatus} (hg : WellStaged wf)
    (hag : Agrees wf) (hc : wf.status.tasks = c.tasks) (hacc : c.Accepts wf env req)
    (hd : req.actionStatus.Declared) : Agrees (c.reported env.now req.actionStatus wf) := by
  have hmem : c.action ∈ actionsOf wf.status.tasks := by rw [hc, c.actionsOf_tasks]; simp
  have hold : wf.status.state ≠ .success := fun h => c.action_ne_success (hag.1 h _ hmem)
  have hacts := c.actionsOf_replace (reportedAction env.now req.actionStatus c.action)
  have hlast : c.index + 1 = (actionsOf c.tasks).length ↔ c.back = [] := by
    rw [c.actionsOf_tasks, hg.index_eq hc, ← List.length_eq_zero_iff]
    simp
  have hall : (∀ a ∈ actionsOf (c.replace (reportedAction env.now req.actionStatus c.action)), a.status = .success) ↔
      req.actionStatus = .success ∧ c.back = [] := by
    rw [hacts]
    constructor
    · intro h
      have h1 := h (reportedAction env.now req.actionStatus c.action) (by simp)
      rw [reportedAction_status] at h1
      refine ⟨by cases hs : req.actionStatus <;> simp [hs, stateName] at h1 ⊢, ?_⟩
      -- an action behind the cursor is pending
      have hst := hg.staged
      rw [statuses, hc, c.actionsOf_tasks, List.map_append, List.map_cons] at hst
      by_contra hne
      obtain ⟨b, hb⟩ := List.exists_mem_of_ne_nil _ hne
      have hp := hst.after c.action_ne_success b.status (List.mem_map_of_mem hb)
      rw [h b (by simp [hb])] at hp
      cases hp
    · rintro ⟨hs, hb⟩ a ha
      rw [hb] at ha
      rcases List.mem_append.1 ha with h | h
      · exact hg.front_success hc a h
      · rw [List.mem_singleton.1 h, reportedAction_status, hs]; rfl
  have hpend := hacc.status
  unfold Agrees
  rw [show (c.reported env.now req.actionStatus wf).status.tasks = c.replace _ from rfl, hall]
  show reportedState _ _ _ = _ ↔ _
  cases hs : req.actionStatus with
  | success =>
    by_cases hl : c.back = []
    · simp [reportedState, hlast, hl]
    · simp [reportedState, hlast, hl, hold]
  | pending => exact absurd hs hpend
  | unrecognized n h => rw [hs] at hd; exact hd.elim
  | _ => simp [reportedState]

theorem Agrees.step (hg : WellStaged wf) (hag : Agrees wf) (he : e.Declared) : Agrees (step r wf e) := by
  rcases step_cases (r := r) hg.unique e with h | ⟨env, req, c, rfl, hc, hacc, h⟩ | ⟨h, -⟩ | ⟨hs, -, h⟩
  · rw [h]; exact hag
  · rw [h]; exact hag.reported hg hc hacc he
  · exact absurd h hg.state
  · exact hag.checked hs h

theorem Agrees.initial {tpl : Template.Workflow} (hwf : InitialisedFrom tpl wf)
    (hne : statuses wf ≠ []) : Agrees wf := by
  constructor
  · intro h
    rw [hwf] at h; cases h
  · intro h
    obtain ⟨s, hs⟩ := List.exists_mem_of_ne_nil _ hne
    obtain ⟨a, ha, -⟩ := List.mem_map.1 hs
    have hp : a.status = .pending := initial_pending tpl a (by rw [hwf] at ha; exact ha)
    rw [h a ha] at hp; cases hp

/-- A successful workflow is left alone by the controller. -/
private theorem reconcile_success (hs : wf.status.state = .success) (env : ReconcileEnv) :
    ∃ res, reconcile r env wf = .ok (wf, res) := by
  unfold reconcile reconcileCopy
  cases hg : env.getErr with
  | some g => cases g <;> simp
  | none => by_cases hd : wf.deletionTimestamp.isSome <;> simp [hs, hd]

/-- Along every history with declared states of a workflow with actions, the workflow is successful exactly when all
its actions are, and then no report is accepted and no reconciliation changes it. -/
theorem success_iff_all_success (tpl : Template.Workflow) (hv : Template.validate r tpl = .ok ())
    (hwf : InitialisedFrom tpl wf) (hne : statuses wf ≠ []) {es : List Event} (he : ∀ e ∈ es, e.Declared) :
    ((run (step r) wf es).status.state = .success ↔ ∀ s ∈ statuses (run (step r) wf es), s = .success) ∧
      ((run (step r) wf es).status.state = .success →
        (∀ env req wf', reportActionStatus env (run (step r) wf es) req ≠ .ok wf') ∧
          ∀ env, ∃ res, reconcile r env (run (step r) wf es) = .ok (run (step r) wf es, res)) := by
  have hinv : WellStaged (run (step r) wf es) ∧ Agrees (run (step r) wf es) := by
    refine (always_of_every (I := fun w => WellStaged w ∧ Agrees w) (C := fun _ e => e.Declared)
      ⟨WellStaged.initial (Template.validate_eq_ok.1 hv) hwf, Agrees.initial hwf hne⟩ ?_ ?_).last
    · exact every_of_forall_mem fun e h _ => he e h
    · rintro s e ⟨hg, hag⟩ hd
      exact ⟨hg.step hd, hag.step hg hd⟩
  obtain ⟨-, hag⟩ := hinv
  generalize run (step r) wf es = w at hag ⊢
  refine ⟨?_, fun hs => ⟨fun env req wf' => ?_, reconcile_success hs⟩⟩
  · simpa [statuses, Agrees] using hag
  · refine report_closed (fun a ha => ?_) env req
    rw [hag.1 hs a ha]; rfl

theorem success_iff_all_success_one_action :
    let r := Template.Renderer.reading _ (.ofNames [("os", "m1", ["stream"])])
    let wf := run (step r) (.ofNames [("os", "m1", ["stream"])])
      [.reportOf 0 "os" "stream" .running, .reportOf 1 "os" "stream" .success]
    wf.status.state = .success ∧ ∀ env req wf', reportActionStatus env wf req ≠ .ok wf' :=
  ⟨rfl, ((success_iff_all_success (.ofNames [("os", "m1", ["stream"])])
    (by rfl) (by rfl) (by decide) (by decide)).2 rfl).1⟩

end Tink.Kube
