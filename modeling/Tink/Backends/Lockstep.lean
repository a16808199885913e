import Tink.Backends
import Tink.Db.Final
import Tink.Kube.Recovery
import Tink.Kube.Serial

/-!
# The two backends side by side

What the two servers are for is the same: the actions of a workflow are done one after the other, each is announced
and then has one result, and a failure or a timeout ends the workflow.  `Course` is this, without names, tables and
resources.  The database row follows it by an index and the state of the last report, the resource by the states of
all actions.

For a workflow with actions in one task, both servers accept every sequence of reports that keeps to the course, and
show the same state after it (`backends_in_lockstep`).
-/

namespace Tink

open Machine

/-! ### The course of a workflow -/

/-- What is known of the action at the position. -/
inductive Stage where
  | waiting
  | running
  | failed
  | timedOut
deriving DecidableEq

/-- The actions before the position are done. -/
structure Course where
  position : Nat := 0
  stage : Stage := .waiting
deriving DecidableEq

namespace Course

/-- The course after a report of this state about the action at the position. -/
def next (c : Course) (s : State) : Option Course :=
  match c.stage, s with
  | .waiting, .running => some { c with stage := .running }
  | .running, .success => some { position := c.position + 1 }
  | .running, .failed => some { c with stage := .failed }
  | .running, .timeout => some { c with stage := .timedOut }
  | _, _ => none

/-- The course after a report, which is to be about the action at the position; `keys` are the names of all
actions. -/
def report (keys : List (String × String)) (c : Course) (req : WorkflowActionStatus) : Option Course :=
  if keys[c.position]? = some (req.taskName, req.actionName) then c.next req.actionStatus else none

/-- The state of a workflow of `n` actions. -/
def state (n : Nat) (c : Course) : State :=
  match c.stage with
  | .waiting => if c.position = 0 then .pending else if c.position = n then .success else .running
  | .running => .running
  | .failed => .failed
  | .timedOut => .timeout

variable {keys : List (String × String)} {c c' : Course} {req : WorkflowActionStatus}

private theorem report_eq_some : c.report keys req = some c' ↔
    keys[c.position]? = some (req.taskName, req.actionName) ∧ c.next req.actionStatus = some c' := by
  unfold report
  split <;> simp_all

/-- An action is announced, or an announced one has a result. -/
private theorem next_cases {s : State} (h : c.next s = some c') :
    (c.stage = .waiting ∧ s = .running ∧ c' = { c with stage := .running }) ∨
      (c.stage = .running ∧ ((s = .success ∧ c' = { position := c.position + 1 }) ∨
        (s = .failed ∧ c' = { c with stage := .failed }) ∨ (s = .timeout ∧ c' = { c with stage := .timedOut }))) := by
  unfold next at h
  split at h
  · rename_i hst
    cases h
    left; exact ⟨hst, rfl, rfl⟩
  · rename_i hst
    cases h
    right; exact ⟨hst, Or.inl ⟨rfl, rfl⟩⟩
  · rename_i hst
    cases h
    right; exact ⟨hst, Or.inr (Or.inl ⟨rfl, rfl⟩)⟩
  · rename_i hst
    cases h
    right; exact ⟨hst, Or.inr (Or.inr ⟨rfl, rfl⟩)⟩
  · cases h

end Course

/-- The names of the actions of a template. -/
def Template.Workflow.actionNames (tpl : Template.Workflow) : List (String × String) :=
  tpl.tasks.flatMap fun t => t.actions.map fun a => (t.name, a.name)

variable {keys : List (String × String)} {c c' : Course} {req : WorkflowActionStatus}

/-- The report, about the workflow of the given id. -/
def WorkflowActionStatus.about (req : WorkflowActionStatus) (id : String) : WorkflowActionStatus :=
  { req with workflowId := id }

/-! ### The database -/

/-- The state of the last report, if there was one. -/
def Stage.reported : Stage → State
  | .waiting => .success
  | .running => .running
  | .failed => .failed
  | .timedOut => .timeout

/-- The row is where the course is. -/
structure Db.StateRow.Follows (row : Db.StateRow) (keys : List (String × String)) (c : Course) : Prop extends
    Db.Placed row where
  listed : Db.keys row.actionList = keys
  stands : (c = {} ∧ row.Unreported) ∨
    (row.currentActionName ≠ "" ∧ row.currentActionState = c.stage.reported ∧
      row.currentActionIndex + (if c.stage = .waiting then 1 else 0) = c.position)

variable {row : Db.StateRow}

/-- A report that keeps to the course is about the action at the position. -/
private theorem reportIndex_of_follows (h : row.Follows keys c) (hn : c.next req.actionStatus = some c') :
    row.reportIndex req = c.position := by
  rw [row.reportIndex_eq]
  rcases Course.next_cases hn with ⟨hst, hs, -⟩ | ⟨hst, hs⟩
  · rcases h.stands with ⟨rfl, hun⟩ | ⟨hne, -, hindex⟩
    · rw [if_neg (fun hc => hc.2 hun.action), hun.index]; rfl
    · rw [if_pos ⟨hs, hne⟩, ← hindex, if_pos hst]
  · have hne : req.actionStatus ≠ .running := by
      rcases hs with ⟨hs, -⟩ | ⟨hs, -⟩ | ⟨hs, -⟩ <;> rw [hs] <;> decide
    rw [if_neg fun hc => hne hc.1]
    rcases h.stands with ⟨rfl, -⟩ | ⟨-, -, hindex⟩
    · cases hst
    · rw [← hindex, hst]; simp

private theorem admits_of_follows (h : row.Follows keys c) (hr : c.report keys req = some c') :
    Db.Admits {} row req := by
  obtain ⟨hkey, hn⟩ := Course.report_eq_some.1 hr
  rw [← h.listed, Db.keys, List.getElem?_map, Option.map_eq_some_iff] at hkey
  obtain ⟨a, hget, hnames⟩ := hkey
  obtain ⟨ht, han⟩ := Prod.mk.inj hnames
  obtain ⟨hne, hne'⟩ := h.names a (List.mem_of_getElem? hget)
  refine ⟨ht ▸ hne, han ▸ hne', rfl, rfl, rfl, ?_, a, ?_, ht, han⟩
  · rcases Course.next_cases hn with ⟨-, hs, -⟩ | ⟨-, ⟨hs, -⟩ | ⟨hs, -⟩ | ⟨hs, -⟩⟩ <;> rw [hs] <;> decide
  · rw [reportIndex_of_follows h hn, Int.toNat_natCast]
    exact hget

private theorem follows_after (h : row.Follows keys c) (hr : c.report keys req = some c') :
    (row.after req).Follows keys c' := by
  have hadm := admits_of_follows h hr
  obtain ⟨-, hn⟩ := Course.report_eq_some.1 hr
  have hindex : (row.after req).currentActionIndex = c.position := reportIndex_of_follows h hn
  refine ⟨h.toPlaced.after hadm, h.listed, Or.inr ⟨hadm.action_ne, ?_, ?_⟩⟩
  · show req.actionStatus = _
    rcases Course.next_cases hn with ⟨-, hs, rfl⟩ | ⟨-, ⟨hs, rfl⟩ | ⟨hs, rfl⟩ | ⟨hs, rfl⟩⟩ <;> rw [hs] <;> rfl
  · rw [hindex]
    rcases Course.next_cases hn with ⟨-, -, rfl⟩ | ⟨-, ⟨-, rfl⟩ | ⟨-, rfl⟩ | ⟨-, rfl⟩⟩ <;> simp

/-- The state of the workflow is that of its course. -/
private theorem state_of_follows (h : row.Follows keys c) : row.state = c.state keys.length := by
  have hlen : row.totalNumberOfActions = keys.length := by
    rw [h.total, ← h.listed, Db.keys, List.length_map]
  unfold Db.StateRow.state Course.state
  rw [hlen]
  rcases h.stands with ⟨rfl, hun⟩ | ⟨-, hs, hindex⟩
  · rw [hun.state]; rfl
  · rw [hs]
    cases hst : c.stage with
    | waiting =>
      rw [hst] at hindex
      simp only [if_true] at hindex
      have hpos := h.index_bounds.1
      simp only [Stage.reported, ne_eq, not_true_eq_false, if_false]
      rw [if_neg (show ¬ c.position = 0 by omega)]
      by_cases hlast : c.position = keys.length
      · rw [if_pos hlast, if_pos (by omega)]
      · rw [if_neg hlast, if_neg (by omega)]
    | running | failed | timedOut => simp [Stage.reported]

/-- The request as it is sent to the database-backed server. -/
def dbReport (id : Pg.UUID) (q : GoTime.Time × WorkflowActionStatus) : Db.Report := ({}, q.2.about id.toString)

private theorem db_follows {id : Pg.UUID} {q : GoTime.Time × WorkflowActionStatus} {s : Db.Store}
    (hrec : Db.Recordable {} (dbReport id q).2) (h : ∃ row, s.workflowState id = some row ∧ row.Follows keys c)
    (hr : c.report keys q.2 = some c') :
    (Db.reportActionStatus (dbReport id q).1 s (dbReport id q).2).2 = .ok () ∧
      ∃ row, (Db.step s (dbReport id q)).workflowState id = some row ∧ row.Follows keys c' := by
  obtain ⟨row, hrow, hf⟩ := h
  have hr : c.report keys (dbReport id q).2 = some c' := hr
  have hid : Pg.UUID.ofString? (dbReport id q).2.workflowId = some id := Pg.UUID.ofString?_toString id
  have hadm := admits_of_follows hf hr
  have hu := hf.toPositioned.reportUpdate_eq hid hrow hadm
  refine ⟨?_, _, hf.toPositioned.step_of_admits hrow hid hadm, follows_after hf hr⟩
  rcases Db.reportActionStatus_of_update hu with ⟨-, e, -, h⟩ | ⟨hno, -⟩
  · exact congrArg Prod.snd h
  · exact absurd hrec hno

/-! ### The resource -/

/-- The resource is where the course is. -/
structure Kube.Workflow.Follows (wf : Kube.Workflow) (keys : List (String × String)) (c : Course) : Prop extends
    Kube.Sane wf where
  listed : (Kube.workflowActionListCRDToProto wf).map (fun a => (a.taskName, a.name)) = keys
  one : (Kube.busyTasks wf.status.tasks).length ≤ 1
  position : wf.currentPosition = c.position
  shows : wf.status.state = stateName (c.state keys.length)

/-- The request as it is sent to the Kubernetes-backed server. -/
def kubeReport (name : String) (q : GoTime.Time × WorkflowActionStatus) : Kube.Event :=
  .report { now := q.1 } (q.2.about name)

private theorem kube_follows {r : Template.Renderer Kube.TemplateData} {wf : Kube.Workflow}
    {q : GoTime.Time × WorkflowActionStatus} {name : String} (h : wf.Follows keys c ∧ wf.name = name)
    (hr : c.report keys q.2 = some c') :
    (kubeReport name q).Accepted wf ∧
      (Kube.step r wf (kubeReport name q)).Follows keys c' ∧ (Kube.step r wf (kubeReport name q)).name = name := by
  obtain ⟨h, rfl⟩ := h
  obtain ⟨hkey, hn⟩ := Course.report_eq_some.1 hr
  have hlen : (Kube.workflowActionListCRDToProto wf).length = keys.length := by rw [← h.listed, List.length_map]
  rw [← h.listed, List.getElem?_map, Option.map_eq_some_iff] at hkey
  obtain ⟨a, hget, hnames⟩ := hkey
  obtain ⟨ht, han⟩ := Prod.mk.inj hnames
  have hone : (Kube.busyTasks wf.status.tasks).length = 1 := by
    obtain ⟨t, hbusy, -⟩ := Kube.exists_busy (List.mem_of_getElem? hget)
    have := List.length_pos_of_mem hbusy
    have := h.one
    omega
  have hdeclared : (kubeReport wf.name q).Declared ∧ q.2.actionStatus ≠ .pending := by
    show q.2.actionStatus.Declared ∧ _
    rcases Course.next_cases hn with ⟨-, hs, -⟩ | ⟨-, ⟨hs, -⟩ | ⟨hs, -⟩ | ⟨hs, -⟩⟩ <;> rw [hs] <;>
      exact ⟨trivial, by decide⟩
  rw [← h.position] at hget
  have hid : (q.2.about wf.name).workflowId = wf.name := rfl
  obtain ⟨wf', hok⟩ := Kube.report_of_one_task h.toSane hone hget q.1 hid ht.symm han.symm hdeclared.2
  have hstep : Kube.step r wf (kubeReport wf.name q) = wf' := by simp only [kubeReport, Kube.step, hok]
  have hpos := (Kube.position_of_report h.toSane hok).2
  have hstate := Kube.state_of_report h.toSane hok
  refine ⟨⟨wf', hok⟩, ⟨h.toSane.step hdeclared.1, ?_, ?_, ?_, ?_⟩, Kube.name_step h.unique _⟩
  · rw [h.toSane.list_step]; exact h.listed
  · rw [Kube.busyTasks_step h.toWellStaged]; exact h.one
  · rw [hstep, hpos, h.position]
    show (if q.2.actionStatus = .success then _ else _) = _
    rcases Course.next_cases hn with ⟨-, hs, rfl⟩ | ⟨-, ⟨hs, rfl⟩ | ⟨hs, rfl⟩ | ⟨hs, rfl⟩⟩ <;> rw [hs] <;> rfl
  · rw [hstep, hstate, h.shows, hlen, h.position]
    show Kube.reportedState q.2.actionStatus _ _ = _
    rcases Course.next_cases hn with ⟨-, hs, rfl⟩ | ⟨hst, ⟨hs, rfl⟩ | ⟨hs, rfl⟩ | ⟨hs, rfl⟩⟩ <;> rw [hs]
    · rfl
    · -- the workflow was running, and is successful after its last action
      simp only [Kube.reportedState, Course.state, hst, Nat.succ_ne_zero, if_false]
      by_cases hlast : c.position + 1 = keys.length
      · rw [if_pos hlast, if_pos hlast]; rfl
      · rw [if_neg hlast, if_neg hlast]
    · rfl
    · rfl

/-! ### Both -/

/-- A workflow that was just created is at the beginning of its course. -/
private theorem follows_created {H : Type} {r : Template.Renderer H} {reg : Db.Registry} {cenv : Db.CreateEnv}
    {s₀ s₁ : Db.Store} {template devices text data : String} {id : Pg.UUID} {tpl : Template.Workflow}
    (hcreate : Db.createWorkflow r reg cenv s₀ template devices = .ok (s₁, id)) (htext : cenv.template = .ok text)
    (hdata : Template.renderTemplate r template text devices = .ok data) (hparse : Template.parse r data = .ok tpl) :
    ∃ row, s₁.workflowState id = some row ∧ row.Follows tpl.actionNames {} := by
  obtain ⟨row, hrows, hp, hun⟩ := Db.createWorkflow_placed hcreate
  have hrow : s₁.workflowState id = some row := by rw [hrows, Function.update_self]
  refine ⟨row, hrow, hp, ?_, Or.inl ⟨rfl, hun⟩⟩
  obtain ⟨-, text', data', s₂, htext', hdata', hins, rfl⟩ := Db.createWorkflow_eq_ok hcreate
  rw [htext] at htext'
  cases htext'
  rw [hdata] at hdata'
  cases hdata'
  obtain ⟨tpl', actions, workers, hparse', hcol, -, -, rfl⟩ := Db.insertActionList_ok hins
  rw [hparse] at hparse'
  cases hparse'
  simp only [Function.update_self, Option.some.injEq] at hrow
  rw [← hrow, Db.collectTasks_keys hcol]
  rfl

/-- A resource that was just initialised is at the beginning of its course. -/
private theorem follows_initialised {r : Template.Renderer Kube.TemplateData} {tpl : Template.Workflow}
    {wf : Kube.Workflow} (hacc : Template.Accepted r tpl) (hwf : Kube.InitialisedFrom tpl wf)
    (hone : (tpl.tasks.filter fun t => !t.actions.isEmpty).length ≤ 1) : wf.Follows tpl.actionNames {} := by
  have htasks : wf.status.tasks = (Kube.workflowYAMLToStatus tpl).tasks := by rw [hwf]; rfl
  have hsane : Kube.Sane wf := { Kube.Steady.initial hacc hwf with agrees := Kube.Agrees.initial hwf }
  refine ⟨hsane, ?_, by rw [Kube.length_busyTasks_initial hwf]; exact hone, ?_, by rw [hwf]; rfl⟩
  · rw [Kube.workflowActionListCRDToProto, htasks]
    simp only [Kube.workflowYAMLToStatus, Template.Workflow.actionNames, List.flatMap_map, List.map_flatMap,
      List.map_map]
    rfl
  · -- no action has succeeded
    by_contra hne
    have hfirst := hsane.success_iff.2 (Nat.pos_of_ne_zero hne)
    obtain ⟨a, ha, hs⟩ := List.mem_map.1 (List.mem_of_getElem? hfirst)
    rw [htasks] at ha
    rw [Kube.initial_pending tpl a ha] at hs
    cases hs

/-- For a workflow with actions in at most one task, created and initialised from one template: every sequence of
reports that keeps to the course is accepted by both servers, and both show the state of the course after it. -/
theorem backends_in_lockstep (r : Template.Renderer Kube.TemplateData) (reg : Db.Registry) (cenv : Db.CreateEnv)
    (s₀ s₁ : Db.Store) (template devices text data : String) (id : Pg.UUID) (tpl : Template.Workflow)
    (wf : Kube.Workflow)
    (hcreate : Db.createWorkflow r reg cenv s₀ template devices = .ok (s₁, id)) (htext : cenv.template = .ok text)
    (hdata : Template.renderTemplate r template text devices = .ok data) (hparse : Template.parse r data = .ok tpl)
    (hwf : Kube.InitialisedFrom tpl wf) (hone : (tpl.tasks.filter fun t => !t.actions.isEmpty).length ≤ 1)
    (qs : List (GoTime.Time × WorkflowActionStatus)) (c : Course)
    (hcourse : qs.foldlM (fun c q => c.report tpl.actionNames q.2) {} = some c)
    (hrec : ∀ q ∈ qs, Db.Recordable {} (dbReport id q).2) :
    Every Db.step (fun s report => (Db.reportActionStatus report.1 s report.2).2 = .ok ()) s₁ (qs.map (dbReport id)) ∧
      Every (Kube.step r) Kube.Event.Accepted wf (qs.map (kubeReport wf.name)) ∧
      Db.getWorkflowState none (run Db.step s₁ (qs.map (dbReport id))) id.toString = c.state tpl.actionNames.length ∧
      (run (Kube.step r) wf (qs.map (kubeReport wf.name))).status.state =
        stateName (c.state tpl.actionNames.length) := by
  have hdb := follows_run
    (R := fun c (s : Db.Store) => ∃ row, s.workflowState id = some row ∧ row.Follows tpl.actionNames c)
    (C := fun s report => (Db.reportActionStatus report.1 s report.2).2 = .ok ()) (dbReport id)
    (follows_created hcreate htext hdata hparse) hcourse fun q hq c s c' h hr => db_follows (hrec q hq) h hr
  have hkube := follows_run (R := fun c (wf' : Kube.Workflow) => wf'.Follows tpl.actionNames c ∧ wf'.name = wf.name)
    (C := fun wf e => e.Accepted wf) (kubeReport wf.name)
    ⟨follows_initialised (Template.parse_accepted hparse) hwf hone, rfl⟩ hcourse
    fun q _ c wf' c' h hr => kube_follows (r := r) h hr
  obtain ⟨hdbok, row, hrow, hf⟩ := hdb
  obtain ⟨hkubeok, hf', -⟩ := hkube
  refine ⟨hdbok, hkubeok, ?_, hf'.shows⟩
  rw [Db.getWorkflowState_eq (Pg.UUID.ofString?_toString id) hrow, state_of_follows hf]

/-- The first of two actions succeeds and the second one fails. -/
theorem backends_in_lockstep_second_fails :
    let tpl := Template.Workflow.ofNames [("os", Db.machine1, ["stream", "boot"])]
    let r : Template.Renderer Kube.TemplateData :=
      { Template.Renderer.reading Kube.TemplateData tpl with unmarshalDevices := fun _ => .ok ∅ }
    let qs : List (GoTime.Time × WorkflowActionStatus) := [(0, Db.reportOf "os" "stream" .running),
      (5, Db.reportOf "os" "stream" .success), (5, Db.reportOf "os" "boot" .running),
      (9, Db.reportOf "os" "boot" .failed)]
    let wf := Kube.Workflow.ofNames [("os", Db.machine1, ["stream", "boot"])]
    ∃ s₁, Db.createWorkflow r { getWorkerID := .ok, parse := Db.uuidColumn } Db.sampleEnv {} "template" "devices" =
        .ok (s₁, Db.sampleID) ∧
      Db.getWorkflowState none (run Db.step s₁ (qs.map (dbReport Db.sampleID))) Db.sampleID.toString = .failed ∧
      (run (Kube.step r) wf (qs.map (kubeReport wf.name))).status.state = .failed := by
  intro tpl r qs wf
  obtain ⟨s₁, hcreate⟩ : ∃ s₁,
      Db.createWorkflow r { getWorkerID := .ok, parse := Db.uuidColumn } Db.sampleEnv {} "template" "devices" =
        .ok (s₁, Db.sampleID) := ⟨_, rfl⟩
  have hrec : ∀ q ∈ qs, Db.Recordable {} (dbReport Db.sampleID q).2 := by
    intro q hq
    simp only [qs, List.mem_cons, List.not_mem_nil, or_false] at hq
    rcases hq with rfl | rfl | rfl | rfl <;> exact ⟨rfl, _, rfl⟩
  have hstate : (Course.mk 1 .failed).state tpl.actionNames.length = .failed := rfl
  obtain ⟨-, -, hdb, hkube⟩ := backends_in_lockstep r _ Db.sampleEnv {} s₁ "template" "devices" "template" "template"
    Db.sampleID tpl wf hcreate rfl rfl rfl rfl (by decide) qs ⟨1, .failed⟩ (by decide) hrec
  rw [hstate] at hdb hkube
  rw [show stateName .failed = .failed from rfl] at hkube
  exact ⟨s₁, hcreate, hdb, hkube⟩

end Tink
