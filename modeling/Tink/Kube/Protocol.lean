import Tink.Kube.History

/-!
# The reporting protocol on the Kubernetes backend

A worker reports `RUNNING` and then `SUCCESS` for every action, in the order of the template.  `deliver` hands such a
sequence of reports to the server, one after the other, until one is rejected.

The server numbers the actions over the whole workflow and looks the number up inside one task.  So the reports of the
first task that has actions are all accepted (`deliver_task`), the first report of the next one is not
(`deliver_next_task`), and the protocol completes exactly for the templates with a single task that has actions
(`protocol_completes_iff`).
-/

namespace Tink.Kube

open GoTime

/-- Task, action and state of a report. -/
abbrev Expected := String × String × State

/-- The reports about the actions of one task. -/
def taskReports (task : String) (actions : List String) : List Expected :=
  actions.flatMap fun action => [(task, action, .running), (task, action, .success)]

/-- The reports about all actions of a template, in order. -/
def templateReports (tpl : Template.Workflow) : List Expected :=
  tpl.tasks.flatMap fun t => taskReports t.name (t.actions.map Template.Action.name)

/-- The request carries the report to the workflow `name`. -/
structure Carries (name : String) (report : Time × WorkflowActionStatus) (expected : Expected) : Prop where
  workflow : report.2.workflowId = name
  task : report.2.taskName = expected.1
  action : report.2.actionName = expected.2.1
  state : report.2.actionStatus = expected.2.2

/-- Hands reports to the server, with a store that answers, and stops at the first error. -/
def deliver (wf : Workflow) (reports : List (Time × WorkflowActionStatus)) : Except GrpcStatus Workflow :=
  reports.foldlM (fun wf report => reportActionStatus { now := report.1 } wf report.2) wf

private theorem deliver_cons (wf : Workflow) (report : Time × WorkflowActionStatus)
    (reports : List (Time × WorkflowActionStatus)) :
    deliver wf (report :: reports) = reportActionStatus { now := report.1 } wf report.2 >>= (deliver · reports) :=
  List.foldlM_cons

/-- The names of the tasks and actions are usable in a request. -/
structure NonemptyNames (tasks : List Task) : Prop where
  task : ∀ t ∈ tasks, t.name ≠ ""
  action : ∀ t ∈ tasks, ∀ a ∈ t.actions, a.name ≠ ""

theorem NonemptyNames.congr {ts ts' : List Task} (h : skeleton ts' = skeleton ts) (hn : NonemptyNames ts) :
    NonemptyNames ts' := by
  have hmem : ∀ t' ∈ ts', ∃ t ∈ ts, t.name = t'.name ∧ t.actions.map Action.name = t'.actions.map Action.name := by
    intro t' ht'
    have : (t'.name, t'.actions.map Action.name) ∈ skeleton ts := by rw [← h]; exact List.mem_map_of_mem ht'
    obtain ⟨t, ht, he⟩ := List.mem_map.1 this
    exact ⟨t, ht, (Prod.mk.inj he).1, (Prod.mk.inj he).2⟩
  refine ⟨fun t' ht' => ?_, fun t' ht' a' ha' => ?_⟩
  · obtain ⟨t, ht, hname, -⟩ := hmem t' ht'
    rw [← hname]; exact hn.task t ht
  · obtain ⟨t, ht, -, hacts⟩ := hmem t' ht'
    have : a'.name ∈ t.actions.map Action.name := by rw [hacts]; exact List.mem_map_of_mem ha'
    obtain ⟨a, ha, hname⟩ := List.mem_map.1 this
    rw [← hname]; exact hn.action t ht a ha

/-! ### The first task with actions -/

/-- The workflow is at work on the task `t`: the actions `done` succeeded, the actions `rest` are open, and no task
before `t` has actions. -/
private structure Progress (before : List Task) (t : Task) (after : List Task) (done rest : List Action)
    (wf : Workflow) : Prop where
  tasks : wf.status.tasks = before ++ { t with actions := done ++ rest } :: after
  before_nil : actionsOf before = []
  unique : UniqueNames wf.status.tasks
  names : NonemptyNames wf.status.tasks
  done_success : ∀ a ∈ done, a.status = .success
  rest_open : ∀ a ∈ rest, isOpen a.status = true

section

variable {before after : List Task} {t : Task} {done rest : List Action} {a : Action} {wf : Workflow}
  {report : Time × WorkflowActionStatus} {reports : List (Time × WorkflowActionStatus)} {s : State}

private def Progress.cursor (h : Progress before t after done (a :: rest) wf) : Cursor where
  before := before
  task := { t with actions := done ++ a :: rest }
  after := after
  done := done
  action := a
  rest := rest
  actions_eq := rfl
  before_closed := by simp [h.before_nil]
  done_closed := by
    intro b hb
    rw [h.done_success b hb]; rfl
  action_open := h.rest_open a (by simp)

private theorem Progress.index_eq (h : Progress before t after done (a :: rest) wf) :
    h.cursor.index = done.length := by
  have hdone : successes done = done.length := by
    rw [successes, List.countP_eq_length]
    intro b hb
    simpa using h.done_success b hb
  have hbefore : successes (actionsOf before) = 0 := by rw [h.before_nil]; rfl
  show successes (actionsOf before) + successes done = done.length
  omega

private theorem Progress.length_eq (h : Progress before t after done (a :: rest) wf) :
    (actionsOf h.cursor.tasks).length = done.length + 1 + rest.length + (actionsOf after).length := by
  have hlen := h.cursor.length_actionsOf
  rw [show actionsOf h.cursor.before = [] from h.before_nil] at hlen
  rw [hlen, List.length_nil, Nat.zero_add]; rfl

/-- A report about the first open action of the task is accepted. -/
private theorem Progress.accepted (h : Progress before t after done (a :: rest) wf)
    (hr : Carries wf.name report (t.name, a.name, s)) (hs : s ≠ .pending) :
    reportActionStatus { now := report.1 } wf report.2 = .ok (h.cursor.reported report.1 s wf) := by
  have htask : h.cursor.task ∈ wf.status.tasks := by rw [h.tasks]; simp [cursor]
  have hacc : h.cursor.Accepts wf { now := report.1 } report.2 := by
    refine ⟨rfl, rfl, ⟨hr.workflow, hr.task, hr.action, ?_, ?_⟩, h.index_eq, ?_⟩
    · rw [hr.task]; exact h.names.task h.cursor.task htask
    · rw [hr.action]; exact h.names.action h.cursor.task htask a (by simp [cursor])
    · rw [hr.state]; exact hs
  have htasks : wf.status.tasks = h.cursor.tasks := h.tasks
  have hok := (report_eq_ok htasks (htasks ▸ h.unique)).2 ⟨hacc, rfl⟩
  rwa [hr.state] at hok

private theorem Progress.running (h : Progress before t after done (a :: rest) wf) (now : Time) :
    Progress before t after done (reportedAction now .running a :: rest) (h.cursor.reported now .running wf) := by
  have hsk : skeleton (h.cursor.reported now .running wf).status.tasks = skeleton wf.status.tasks := by
    rw [h.tasks]; exact h.cursor.skeleton_replace (reportedAction_name _ _ _)
  refine ⟨rfl, h.before_nil, UniqueNames.congr hsk h.unique, NonemptyNames.congr hsk h.names, h.done_success, ?_⟩
  intro b hb
  rcases List.mem_cons.1 hb with rfl | hb
  · rfl
  · exact h.rest_open b (by simp [hb])

private theorem Progress.success (h : Progress before t after done (a :: rest) wf) (now : Time) :
    Progress before t after (done ++ [reportedAction now .success a]) rest (h.cursor.reported now .success wf) := by
  have hsk : skeleton (h.cursor.reported now .success wf).status.tasks = skeleton wf.status.tasks := by
    rw [h.tasks]; exact h.cursor.skeleton_replace (reportedAction_name _ _ _)
  refine ⟨?_, h.before_nil, UniqueNames.congr hsk h.unique, NonemptyNames.congr hsk h.names, ?_, ?_⟩
  · show before ++ { t with actions := done ++ reportedAction now .success a :: rest } :: after = _
    rw [List.append_assoc]; rfl
  · intro b hb
    rcases List.mem_append.1 hb with hb | hb
    · exact h.done_success b hb
    · rw [List.mem_singleton.1 hb, reportedAction_status]; rfl
  · intro b hb
    exact h.rest_open b (by simp [hb])

/-- The two reports about an action are accepted; the second one completes the workflow if no action is left. -/
private theorem deliver_action (h : Progress before t after done (a :: rest) wf) {r₁ r₂ : Time × WorkflowActionStatus}
    (h₁ : Carries wf.name r₁ (t.name, a.name, .running)) (h₂ : Carries wf.name r₂ (t.name, a.name, .success)) :
    ∃ wf' a', deliver wf (r₁ :: r₂ :: reports) = deliver wf' reports ∧ wf'.name = wf.name ∧
      Progress before t after (done ++ [a']) rest wf' ∧
      (rest = [] → actionsOf after = [] → wf'.status.state = .success) := by
  have hrun := h.running r₁.1
  have hok₁ := h.accepted h₁ (by simp)
  have hcarries : Carries (h.cursor.reported r₁.1 .running wf).name r₂
      (t.name, (reportedAction r₁.1 .running a).name, .success) := by
    rw [reportedAction_name]; exact h₂
  have hok₂ := hrun.accepted hcarries (by simp)
  refine ⟨hrun.cursor.reported r₂.1 .success (h.cursor.reported r₁.1 .running wf), _, ?_, rfl, hrun.success r₂.1, ?_⟩
  · rw [deliver_cons, hok₁]
    show deliver _ (r₂ :: reports) = _
    rw [deliver_cons, hok₂]; rfl
  · intro hrest hafter
    have hlast : hrun.cursor.index + 1 = (actionsOf hrun.cursor.tasks).length := by
      rw [hrun.index_eq, hrun.length_eq]
      simp [hrest, hafter]
    show reportedState .success (hrun.cursor.index + 1 = (actionsOf hrun.cursor.tasks).length) _ = _
    rw [reportedState, if_pos hlast]

/-- All reports about the task are accepted, and `tail` is left to be delivered. -/
private theorem deliver_task {tail : List Expected} (h : Progress before t after done rest wf)
    (hr : List.Forall₂ (Carries wf.name) reports (taskReports t.name (rest.map Action.name) ++ tail)) :
    ∃ wf' done' reports', deliver wf reports = deliver wf' reports' ∧ wf'.name = wf.name ∧
      List.Forall₂ (Carries wf.name) reports' tail ∧ Progress before t after done' [] wf' ∧
      done'.length = done.length + rest.length ∧
      (actionsOf after = [] → rest ≠ [] ∨ wf.status.state = .success → wf'.status.state = .success) := by
  induction rest generalizing done wf reports with
  | nil =>
    refine ⟨wf, done, reports, rfl, rfl, hr, h, rfl, ?_⟩
    rintro - (hne | hs)
    · exact absurd rfl hne
    · exact hs
  | cons a rest ih =>
    -- the two reports about `a` come first
    obtain ⟨r₁, reports₁, h₁, hr₁, rfl⟩ := List.forall₂_cons_right_iff.1 hr
    obtain ⟨r₂, reports₂, h₂, hr₂, rfl⟩ := List.forall₂_cons_right_iff.1 hr₁
    obtain ⟨wf₁, a', hdel, hname, hprog, hlast⟩ := deliver_action h h₁ h₂
    rw [← hname] at hr₂
    obtain ⟨wf', done', reports', hdel', hname', htail, hprog', hlen, hstate⟩ := ih hprog hr₂
    refine ⟨wf', done', reports', hdel.trans hdel', hname'.trans hname, hname ▸ htail, hprog', ?_, ?_⟩
    · rw [hlen]; simp; omega
    · intro hafter _
      by_cases hrest : rest = []
      · exact hstate hafter (Or.inr (hlast hrest hafter))
      · exact hstate hafter (Or.inl hrest)

/-- A report about the first action of a task is rejected if actions of earlier tasks succeeded. -/
private theorem report_next_task (htasks : wf.status.tasks = before ++ t :: after) (hu : UniqueNames wf.status.tasks)
    (hne : actionsOf before ≠ []) (hdone : ∀ b ∈ actionsOf before, b.status = .success)
    (hacts : t.actions = a :: rest) (ha : isOpen a.status = true) {env : ReportEnv} {req : WorkflowActionStatus}
    (wf' : Workflow) : reportActionStatus env wf req ≠ .ok wf' := by
  have hclosed : ∀ b ∈ actionsOf before, isOpen b.status = false := by
    intro b hb
    rw [hdone b hb]; rfl
  have hsucc : successes (actionsOf before) = (actionsOf before).length := by
    rw [successes, List.countP_eq_length]
    intro b hb
    simpa using hdone b hb
  have hlen := List.length_pos_iff.2 hne
  intro hok
  let c : Cursor := ⟨before, t, after, [], a, rest, hacts, hclosed, by simp, ha⟩
  have hc : wf.status.tasks = c.tasks := htasks
  have hacc := ((report_eq_ok hc (hc ▸ hu)).1 hok).1
  have hidx : successes (actionsOf before) + 0 = 0 := hacc.index
  omega

end

/-! ### The whole protocol -/

private theorem exists_first_task {tasks : List Task} (h : actionsOf tasks ≠ []) :
    ∃ before t after, tasks = before ++ t :: after ∧ actionsOf before = [] ∧ t.actions ≠ [] := by
  induction tasks with
  | nil => exact absurd rfl h
  | cons t tasks ih =>
    by_cases ht : t.actions = []
    · rw [actionsOf_cons, ht, List.nil_append] at h
      obtain ⟨before, u, after, rfl, hb, hu⟩ := ih h
      exact ⟨t :: before, u, after, rfl, by rw [actionsOf_cons, ht, hb]; rfl, hu⟩
    · exact ⟨[], t, tasks, rfl, rfl, ht⟩

/-- The reports about the tasks of a workflow. -/
private def reportsOf (tasks : List Task) : List Expected :=
  tasks.flatMap fun t => taskReports t.name (t.actions.map Action.name)

private theorem reportsOf_eq_nil {tasks : List Task} (h : actionsOf tasks = []) : reportsOf tasks = [] := by
  rw [reportsOf, List.flatMap_eq_nil_iff]
  intro t ht
  rw [List.flatMap_eq_nil_iff.1 h t ht]; rfl

private def busy (tasks : List Task) : List Task := tasks.filter fun t => !t.actions.isEmpty

private theorem busy_eq_nil {tasks : List Task} : busy tasks = [] ↔ actionsOf tasks = [] := by
  rw [busy, List.filter_eq_nil_iff, actionsOf, List.flatMap_eq_nil_iff]
  simp

private theorem busy_split {before after : List Task} {t : Task} (hb : actionsOf before = []) (ht : t.actions ≠ []) :
    busy (before ++ t :: after) = t :: busy after := by
  have hbefore := busy_eq_nil.2 hb
  unfold busy at hbefore ⊢
  rw [List.filter_append, hbefore, List.nil_append, List.filter_cons_of_pos (by simpa using ht)]

private theorem deliver_completes_iff {wf : Workflow} (hu : UniqueNames wf.status.tasks)
    (hn : NonemptyNames wf.status.tasks) (hp : ∀ a ∈ actionsOf wf.status.tasks, a.status = .pending)
    (hne : actionsOf wf.status.tasks ≠ []) {reports : List (Time × WorkflowActionStatus)}
    (hr : List.Forall₂ (Carries wf.name) reports (reportsOf wf.status.tasks)) :
    (∃ wf', deliver wf reports = .ok wf' ∧ wf'.status.state = .success ∧
        ∀ a ∈ actionsOf wf'.status.tasks, a.status = .success) ↔ (busy wf.status.tasks).length ≤ 1 := by
  obtain ⟨before, t, after, htasks, hb, ht⟩ := exists_first_task hne
  rw [htasks] at hp hr ⊢
  have hprog : Progress before t after [] t.actions wf := by
    refine ⟨htasks, hb, hu, hn, by simp, fun a ha => ?_⟩
    rw [hp a (by simp [ha])]; rfl
  have hsplit : reportsOf (before ++ t :: after) =
      taskReports t.name (t.actions.map Action.name) ++ reportsOf after := by
    have hbefore := reportsOf_eq_nil hb
    unfold reportsOf at hbefore ⊢
    rw [List.flatMap_append, hbefore, List.nil_append, List.flatMap_cons]
  rw [hsplit] at hr
  obtain ⟨wf', done', reports', hdel, hname, htail, hprog', hlen, hstate⟩ := deliver_task hprog hr
  rw [hdel, busy_split hb ht, List.length_cons]
  by_cases hafter : actionsOf after = []
  · rw [reportsOf_eq_nil hafter, List.forall₂_nil_right_iff] at htail
    rw [htail, busy_eq_nil.2 hafter]
    refine iff_of_true ⟨wf', rfl, hstate hafter (Or.inl ht), fun a ha => ?_⟩ (by simp)
    rw [hprog'.tasks] at ha
    simp only [actionsOf_append, actionsOf_cons, hb, hafter, List.append_nil, List.nil_append] at ha
    exact hprog'.done_success a ha
  · -- the first report about the next task with actions is rejected
    obtain ⟨mid, u, after', rfl, hmid, hu'⟩ := exists_first_task hafter
    obtain ⟨a, rest, hacts⟩ := List.exists_cons_of_ne_nil hu'
    refine iff_of_false ?_ ?_
    · rintro ⟨wf'', hok, -⟩
      have hreports : reportsOf (mid ++ u :: after') =
          (u.name, a.name, .running) :: ((u.name, a.name, .success) :: taskReports u.name (rest.map Action.name)) ++
            reportsOf after' := by
        have hm := reportsOf_eq_nil hmid
        unfold reportsOf at hm ⊢
        rw [List.flatMap_append, hm, List.nil_append, List.flatMap_cons, hacts]; rfl
      rw [hreports] at htail
      obtain ⟨r₁, reports'', -, -, rfl⟩ := List.forall₂_cons_right_iff.1 htail
      rw [deliver_cons] at hok
      have htasks' : wf'.status.tasks = (before ++ { t with actions := done' } :: mid) ++ u :: after' := by
        rw [hprog'.tasks]; simp
      have hbefore : actionsOf (before ++ { t with actions := done' } :: mid) = done' := by simp [hb, hmid]
      have hdone : done' ≠ [] := by
        have hpos := List.length_pos_iff.2 ht
        rw [← List.length_pos_iff]
        simp at hlen; omega
      have hopen : isOpen a.status = true := by
        rw [hp a (by simp [hacts])]; rfl
      cases hrep : reportActionStatus { now := r₁.1 } wf' r₁.2 with
      | error e => rw [hrep] at hok; cases hok
      | ok w =>
        refine report_next_task htasks' hprog'.unique ?_ ?_ hacts hopen w hrep
        · rw [hbefore]; exact hdone
        · rw [hbefore]; exact hprog'.done_success
    · rw [busy_split hmid hu', List.length_cons]; omega

private theorem templateReports_eq (tpl : Template.Workflow) :
    templateReports tpl = reportsOf (workflowYAMLToStatus tpl).tasks := by
  simp [templateReports, reportsOf, workflowYAMLToStatus, List.flatMap_map, Function.comp_def]

private theorem busy_length (tpl : Template.Workflow) :
    (busy (workflowYAMLToStatus tpl).tasks).length = (tpl.tasks.filter fun t => !t.actions.isEmpty).length := by
  simp [busy, workflowYAMLToStatus, List.filter_map, Function.comp_def]

theorem initial_nonempty {H : Type} {v : Template.Renderer H} {tpl : Template.Workflow}
    (h : Template.Accepted v tpl) : NonemptyNames (workflowYAMLToStatus tpl).tasks := by
  refine ⟨fun t ht => ?_, fun t ht a ha => ?_⟩
  · obtain ⟨task, htask, rfl⟩ := List.mem_map.1 ht
    exact (h.taskName task htask).1
  · obtain ⟨task, htask, rfl⟩ := List.mem_map.1 ht
    obtain ⟨action, haction, rfl⟩ := List.mem_map.1 ha
    exact (h.actionName task htask action haction).1

/-- The names stay nonempty along every history of an object that was stored without a status. -/
theorem nonempty_of_run {r : Template.Renderer TemplateData} {wf₀ : Workflow} (h0 : wf₀.status = {})
    (es : List Event) :
    NonemptyNames (Machine.run (step r) wf₀ es).status.tasks := by
  induction es using List.reverseRecOn with
  | nil =>
    rw [Machine.run_nil, h0]
    exact ⟨by simp, by simp⟩
  | append_singleton es e ih =>
    rw [Machine.run_concat]
    rcases skeleton_or_populated (r := r) (unique_of_run h0 es) e with h | ⟨text, data, tpl, buf, hr, h⟩
    · exact NonemptyNames.congr h ih
    · rw [h]; exact initial_nonempty (Template.renderTemplateHardware_accepted hr).1

/-- For a workflow made from a rendered template with an action, delivering `RUNNING` and `SUCCESS` for every action
in order is accepted throughout and completes the workflow exactly when at most one task has actions. -/
theorem protocol_completes_iff {H : Type} (v : Template.Renderer H) (id data buf : String) (hw : H)
    {tpl : Template.Workflow} (hrender : Template.renderTemplateHardware v id data hw = .ok (tpl, buf))
    {wf : Workflow}
    (htasks : wf.status.tasks = (workflowYAMLToStatus tpl).tasks) (hne : ∃ t ∈ tpl.tasks, t.actions ≠ [])
    {reports : List (Time × WorkflowActionStatus)}
    (hr : List.Forall₂ (Carries wf.name) reports (templateReports tpl)) :
    (∃ wf', deliver wf reports = .ok wf' ∧ wf'.status.state = .success ∧
        ∀ a ∈ actionsOf wf'.status.tasks, a.status = .success) ↔
      (tpl.tasks.filter fun t => !t.actions.isEmpty).length ≤ 1 := by
  have hacc := (Template.renderTemplateHardware_accepted hrender).1
  have hacts : actionsOf wf.status.tasks ≠ [] := by
    rw [htasks, ne_eq, ← busy_eq_nil, ← List.length_eq_zero_iff, busy_length, List.length_eq_zero_iff,
      List.filter_eq_nil_iff]
    obtain ⟨t, ht, hta⟩ := hne
    intro h
    exact h t ht (by simpa using hta)
  rw [templateReports_eq, ← htasks] at hr
  rw [← busy_length, ← htasks]
  refine deliver_completes_iff ?_ ?_ ?_ hacts hr
  · rw [htasks]; exact initial_unique hacc
  · rw [htasks]; exact initial_nonempty hacc
  · rw [htasks]; exact initial_pending tpl

/-- The requests of a worker, one a second. -/
def workerReports (expected : List Expected) : List (Time × WorkflowActionStatus) :=
  expected.zipIdx.map fun (e, i) =>
    (i * second, { workflowId := "wf", taskName := e.1, actionName := e.2.1, actionStatus := e.2.2 })

private theorem workerReports_carry (expected : List Expected) :
    List.Forall₂ (Carries "wf") (workerReports expected) expected := by
  have h : ∀ k, List.Forall₂ (Carries "wf")
      ((expected.zipIdx k).map fun (e, i) =>
        ((i * second : Time), { workflowId := "wf", taskName := e.1, actionName := e.2.1, actionStatus := e.2.2 }))
      expected := by
    induction expected with
    | nil => intro k; exact .nil
    | cons e es ih => intro k; exact .cons ⟨rfl, rfl, rfl, rfl⟩ (ih (k + 1))
  exact h 0

theorem protocol_completes_one_task :
    let tpl := Template.Workflow.ofNames [("os", "m1", ["stream", "boot"])]
    ∃ wf', deliver (.ofNames [("os", "m1", ["stream", "boot"])]) (workerReports (templateReports tpl)) = .ok wf' ∧
      wf'.status.state = .success ∧ ∀ a ∈ actionsOf wf'.status.tasks, a.status = .success :=
  (protocol_completes_iff (.reading Unit (.ofNames [("os", "m1", ["stream", "boot"])])) "id" "text" "text" () (by rfl)
    (by rfl) (by decide) (workerReports_carry _)).2 (by decide)

/-- With two tasks of one action each, the first report about the second task is rejected. -/
theorem protocol_stops_at_second_task :
    let tpl := Template.Workflow.ofNames [("disk", "m1", ["wipe"]), ("os", "m1", ["stream"])]
    let wf := Workflow.ofNames [("disk", "m1", ["wipe"]), ("os", "m1", ["stream"])]
    Template.renderTemplateHardware (.reading Unit tpl) "id" "text" () = .ok (tpl, "text") ∧
      List.Forall₂ (Carries wf.name) (workerReports (templateReports tpl)) (templateReports tpl) ∧
      (∃ wf', deliver wf ((workerReports (templateReports tpl)).take 2) = .ok wf') ∧
      deliver wf ((workerReports (templateReports tpl)).take 3) = .error ⟨.invalidArgument, errInvalidWorkflowID⟩ ∧
      deliver wf (workerReports (templateReports tpl)) = .error ⟨.invalidArgument, errInvalidWorkflowID⟩ :=
  ⟨rfl, workerReports_carry _, ⟨_, rfl⟩, rfl, rfl⟩

end Tink.Kube
