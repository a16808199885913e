import Mathlib.Data.List.Sort
import Tink.Kube.Protocol
import Tink.Kube.States
import Tink.Worker.Turn

/-!
# What a worker is told by the Kubernetes-backed server

`GetWorkflowContexts` and `GetWorkflowActions` of `server/kubernetes_api_workflow.go`, with the flattening
`WorkflowActionListCRDToProto` of `pkg/convert` and the index function of `pkg/controllers/manager.go`.  A context is
the result of a nested scan with an early exit, and the action list is a flattening done elsewhere; a worker looks the
index of the one up in the other.

The cursor of the scan is a position in the flattened list as well (`Cursor.entriesOf_tasks`).  So the two agree for
any tasks with declared statuses (`context_agrees`), and a workflow is streamed to the worker of its current action
and to no other, who starts at that action (`dispatched_to_current_worker`).
-/

namespace Tink.Kube

open GoTime Machine

/-- `fmt.Sprintf("%s=%s", k, v)` for every entry of the task and of the action, the latter overriding, sorted. -/
def mergedEnvironment (task action : StringMap) : List String :=
  let merged := action.foldl (fun merged k v => merged.insert k v) task
  (merged.entries.map fun e => e.1 ++ "=" ++ e.2).insertionSort (· ≤ ·)

/-- One element of the list that `WorkflowActionListCRDToProto` builds. -/
def actionCRDToProto (task : Task) (action : Action) : WorkflowAction where
  taskName := task.name
  name := action.name
  image := action.image
  timeout := action.timeout
  command := action.command
  workerId := task.workerAddr
  volumes := task.volumes ++ action.volumes
  environment := mergedEnvironment task.environment action.environment
  pid := action.pid

def workflowActionListCRDToProto (wf : Workflow) : List WorkflowAction :=
  wf.status.tasks.flatMap fun task => task.actions.map fun action => actionCRDToProto task action

/-- The values a workflow is indexed under: the addresses of its workers while it is pending or running. -/
def workflowWorkerNonTerminalStateIndexFunc (wf : Workflow) : List String :=
  if ¬ (wf.status.state = .running ∨ wf.status.state = .pending) then []
  else (wf.status.tasks.map Task.workerAddr).filter fun addr => addr ≠ ""

/-- The errors of the API server and of the stream during one `GetWorkflowContexts`, the latter by workflow. -/
structure StreamEnv where
  listErr : Option String := none
  sendErr : String → Option String := fun _ => none

/-- An error returned to the client: a gRPC status, or an error passed on. -/
inductive StreamError where
  | status (s : GrpcStatus)
  | other (message : String)
deriving DecidableEq

/-- The loop over the listed workflows. -/
def currentlyAssigned (workerID : String) : List Workflow → Outcome StreamError (List Workflow)
  | [] => pure []
  | wf :: items => do
    let task ← Outcome.index wf.status.tasks wf.getCurrentTaskIndex
    let wfs ← currentlyAssigned workerID items
    pure (if task.workerAddr = workerID then wf :: wfs else wfs)

/-- On a store that holds the workflows `stored`; the field index returns every object once, for exactly the values
the index function yields. -/
def getCurrentAssignedNonTerminalWorkflowsForWorker (listErr : Option String) (stored : List Workflow)
    (workerID : String) : Outcome StreamError (List Workflow) :=
  match listErr with
  | some e => .error (.other e)
  | none => currentlyAssigned workerID
      (stored.filter fun wf => workerID ∈ workflowWorkerNonTerminalStateIndexFunc wf)

/-- The loop of `GetWorkflowContexts`: the contexts sent, and the answer. -/
def sendContexts (env : StreamEnv) : List Workflow → List WorkflowContext × Outcome StreamError Unit
  | [] => ([], .ok ())
  | wf :: wfs =>
    match env.sendErr wf.name with
    | some e => ([], .error (.other e))
    | none => (getWorkflowContext wf :: (sendContexts env wfs).1, (sendContexts env wfs).2)

/-- `KubernetesBackedServer.GetWorkflowContexts`. -/
def getWorkflowContexts (env : StreamEnv) (stored : List Workflow) (workerID : String) :
    List WorkflowContext × Outcome StreamError Unit :=
  if workerID = "" then ([], .error (.status ⟨.invalidArgument, errInvalidWorkflowID⟩))
  else
    match getCurrentAssignedNonTerminalWorkflowsForWorker env.listErr stored workerID with
    | .panic => ([], .panic)
    | .error e => ([], .error e)
    | .ok wflows => sendContexts env wflows

/-! ### The scan and the flattened list -/

/-- The actions of all tasks, in order, each with its task. -/
def entriesOf (tasks : List Task) : List (Task × Action) := tasks.flatMap fun t => t.actions.map (Prod.mk t)

variable {wf : Workflow} {c : Cursor} {w : String}

theorem workflowActionListCRDToProto_eq (wf : Workflow) :
    workflowActionListCRDToProto wf = (entriesOf wf.status.tasks).map fun e => actionCRDToProto e.1 e.2 := by
  simp [workflowActionListCRDToProto, entriesOf, List.map_flatMap, Function.comp_def]

theorem map_snd_entriesOf (tasks : List Task) : (entriesOf tasks).map Prod.snd = actionsOf tasks := by
  simp [entriesOf, actionsOf, List.map_flatMap, Function.comp_def]

theorem length_actionList (wf : Workflow) :
    (workflowActionListCRDToProto wf).length = (actionsOf wf.status.tasks).length := by
  rw [workflowActionListCRDToProto_eq, ← map_snd_entriesOf, List.length_map, List.length_map]

/-- The entries in front of the cursor. -/
def Cursor.frontEntries (c : Cursor) : List (Task × Action) := entriesOf c.before ++ c.done.map (Prod.mk c.task)

/-- The entries behind the cursor. -/
def Cursor.backEntries (c : Cursor) : List (Task × Action) := c.rest.map (Prod.mk c.task) ++ entriesOf c.after

theorem Cursor.entriesOf_tasks (c : Cursor) :
    entriesOf c.tasks = c.frontEntries ++ (c.task, c.action) :: c.backEntries := by
  simp [entriesOf, Cursor.tasks, frontEntries, backEntries, c.actions_eq]

private theorem Cursor.map_snd_frontEntries (c : Cursor) : c.frontEntries.map Prod.snd = c.front := by
  rw [frontEntries, front, List.map_append, map_snd_entriesOf]
  simp [Function.comp_def]

private theorem Cursor.length_frontEntries (c : Cursor) : c.frontEntries.length = c.front.length := by
  rw [← c.map_snd_frontEntries, List.length_map]

/-- The element of the action list at the cursor. -/
theorem Cursor.getElem?_actionList (hc : wf.status.tasks = c.tasks) :
    (workflowActionListCRDToProto wf)[c.front.length]? = some (actionCRDToProto c.task c.action) := by
  rw [workflowActionListCRDToProto_eq, hc, c.entriesOf_tasks, ← c.length_frontEntries]
  simp

/-- Without an open action, declared statuses are all successes. -/
theorem success_of_closed (hd : ∀ a ∈ actionsOf wf.status.tasks, a.status ≠ .unset)
    (h : ∀ a ∈ actionsOf wf.status.tasks, isOpen a.status = false) :
    ∀ a ∈ actionsOf wf.status.tasks, a.status = .success := by
  intro a ha
  have hne := hd a ha
  have hclosed := h a ha
  cases hs : a.status <;> simp [hs, isOpen] at hne hclosed ⊢

/-- The context and the action list of a workflow with declared statuses agree: on the total and, as long as some
action has not succeeded, on the first such action; after that the index is past the end and no names are given. -/
theorem context_agrees (wf : Workflow) (hd : ∀ a ∈ actionsOf wf.status.tasks, a.status ≠ .unset) :
    let c := wf.getTaskActionInfo
    let actions := workflowActionListCRDToProto wf
    actions.length = c.totalNumberOfActions ∧
      ((∃ a ∈ actionsOf wf.status.tasks, a.status ≠ .success) →
        c.currentActionIndex < actions.length ∧
        (∃ action, actions[c.currentActionIndex]? = some action ∧ action.taskName = c.currentTask ∧
          action.name = c.currentAction ∧ action.workerId = c.currentWorker) ∧
        (∀ a ∈ (actionsOf wf.status.tasks).take c.currentActionIndex, a.status = .success) ∧
        ∃ a, (actionsOf wf.status.tasks)[c.currentActionIndex]? = some a ∧ a.status = c.currentActionState) ∧
      ((∀ a ∈ actionsOf wf.status.tasks, a.status = .success) →
        c.currentActionIndex = actions.length ∧ c.currentTask = "" ∧ c.currentAction = "") := by
  intro info actions
  have hlen : actions.length = (actionsOf wf.status.tasks).length := length_actionList wf
  rcases closed_or_cursor wf.status.tasks with hclosed | ⟨c, hc⟩
  · have hinfo : info = _ := info_of_closed hclosed
    have hall := success_of_closed hd hclosed
    have hcount : successes (actionsOf wf.status.tasks) = (actionsOf wf.status.tasks).length := by
      rw [successes, List.countP_eq_length]
      intro a ha
      simpa using hall a ha
    rw [hinfo, hlen]
    refine ⟨rfl, ?_, fun _ => ⟨hcount, rfl, rfl⟩⟩
    rintro ⟨a, ha, hne⟩
    exact absurd (hall a ha) hne
  · have hindex : info.currentActionIndex = c.front.length := by
      rw [show info = _ from c.info hc, ← Cursor.index_eq hc hd]; rfl
    have hacts : actionsOf wf.status.tasks = c.front ++ c.action :: c.back := by rw [hc, c.actionsOf_tasks]
    refine ⟨?_, fun _ => ⟨?_, ⟨actionCRDToProto c.task c.action, ?_, ?_⟩, ?_, c.action, ?_, ?_⟩,
      fun hall => ?_⟩
    · rw [hlen, show info = _ from c.info hc, hc]
    · rw [hindex, hlen, hacts]; simp
    · rw [hindex]; exact Cursor.getElem?_actionList hc
    · rw [show info = _ from c.info hc]; exact ⟨rfl, rfl, rfl⟩
    · rw [hindex, hacts, List.take_left]; exact Cursor.front_success hc hd
    · rw [hindex, hacts]; simp
    · rw [show info = _ from c.info hc]
    · exact absurd (hall c.action (by rw [hacts]; simp)) c.action_ne_success

theorem context_agrees_second_task :
    let wf := Workflow.ofStatus { tasks := [
      { name := "wipe", workerAddr := "m1", actions := [{ name := "disks", status := .success }] },
      { name := "idle", workerAddr := "m2", actions := [] },
      { name := "os", workerAddr := "m3",
        actions := [{ name := "stream", status := .failed }, { name := "boot", status := .pending }] }] }
    ∃ action, (workflowActionListCRDToProto wf)[1]? = some action ∧ action.taskName = "os" ∧ action.name = "stream" ∧
      action.workerId = "m3" :=
  ((context_agrees _ (by decide)).2.1 (by decide)).2.1

/-! ### Dispatch -/

/-- The current action with its task: the first one that has not succeeded. -/
def Workflow.current? (wf : Workflow) : Option (Task × Action) :=
  (entriesOf wf.status.tasks).find? fun e => e.2.status ≠ .success

/-- The position of the current action among all actions. -/
def Workflow.currentPosition (wf : Workflow) : Nat :=
  (entriesOf wf.status.tasks).findIdx fun e => e.2.status ≠ .success

/-- The workflow was stored without a status and has since seen reports with declared states and reconciliations. -/
def Reached (r : Template.Renderer TemplateData) (wf : Workflow) : Prop :=
  ∃ wf₀ es, wf₀.status = {} ∧ (∀ e ∈ es, e.Declared) ∧ wf = run (step r) wf₀ es

/-- What every initialised workflow satisfies. -/
structure Steady (wf : Workflow) : Prop extends WellStaged wf where
  names : NonemptyNames wf.status.tasks
  quiet : wf.status.state = .pending ∨ wf.status.state = .running →
    ∀ a ∈ actionsOf wf.status.tasks, a.status ≠ .failed ∧ a.status ≠ .timeout

section

variable {r : Template.Renderer TemplateData} {e : Event}

theorem Steady.initial {tpl : Template.Workflow} (h : Template.Accepted r tpl) (hwf : InitialisedFrom tpl wf) :
    Steady wf := by
  have htasks : wf.status.tasks = (workflowYAMLToStatus tpl).tasks := by rw [hwf]; rfl
  refine { WellStaged.initial h hwf with names := ?_, quiet := fun _ a ha => ?_ }
  · rw [htasks]; exact initial_nonempty h
  · rw [htasks] at ha
    rw [initial_pending tpl a ha]; simp

/-- A report of a failure or a timeout takes the workflow along; all other actions have succeeded or are pending. -/
private theorem Steady.reported (hg : Steady wf) (hc : wf.status.tasks = c.tasks) {s : State} (now : Time)
    (hstaged : WellStaged (c.reported now s wf)) : Steady (c.reported now s wf) := by
  refine { hstaged with names := ?_, quiet := fun hstate a ha => ?_ }
  · exact NonemptyNames.congr (c.skeleton_replace (by simp)) (hc ▸ hg.names)
  · have hback : ∀ b ∈ c.back, b.status = .pending := by
      have hst := hg.staged
      rw [statuses, hc, c.actionsOf_tasks, List.map_append, List.map_cons] at hst
      intro b hb
      exact hst.after c.action_ne_success b.status (List.mem_map_of_mem hb)
    rw [show (c.reported now s wf).status.tasks = c.replace _ from rfl, c.actionsOf_replace] at ha
    rcases List.mem_append.1 ha with ha | ha
    · rw [hg.front_success hc a ha]; simp
    · rcases List.mem_cons.1 ha with rfl | ha
      · rw [reportedAction_status]
        cases s <;> simp [Cursor.reported, reportedState, stateName] at hstate ⊢
      · rw [hback a ha]; simp

theorem Steady.step (hg : Steady wf) (he : e.Declared) : Steady (step r wf e) := by
  have hstaged := hg.toWellStaged.step (r := r) he
  cases e with
  | reconcile env =>
    rcases reconcile_times_out (r := r) hg.state env with h | h
    · rw [h]; exact hg
    · refine { hstaged with names := ?_, quiet := fun hs => ?_ }
      · rcases step_cases (r := r) hg.unique (.reconcile env) with h | ⟨_, _, _, h, -⟩ | ⟨h, -⟩ | ⟨-, -, hch⟩
        · rw [h]; exact hg.names
        · cases h
        · exact absurd h hg.state
        · obtain ⟨tasks, state, htasks, -, hwf⟩ := hch
          rw [hwf]; exact NonemptyNames.congr (skeleton_of_timed htasks) hg.names
      · rw [h] at hs; simp at hs
  | report env req =>
    rcases closed_or_cursor wf.status.tasks with hclosed | ⟨c, hc⟩
    · have hstep : Kube.step r wf (.report env req) = wf := by
        cases hr : reportActionStatus env wf req with
        | error _ => simp only [Kube.step, hr]
        | ok wf' => exact absurd hr (report_closed hclosed env req)
      rw [hstep]; exact hg
    · by_cases hacc : c.Accepts wf env req
      · rw [step_report_of_accepts hc hg.unique hacc] at hstaged ⊢
        exact hg.reported hc _ hstaged
      · rw [step_report_of_not_accepts hc hg.unique hacc]; exact hg

/-- A workflow without a status is left alone or initialised. -/
private theorem step_of_no_status (h : wf.status = {}) (e : Event) :
    (step r wf e).status = {} ∨ Steady (step r wf e) := by
  have htasks : wf.status.tasks = [] := by rw [h]
  have hu : UniqueNames wf.status.tasks := by rw [htasks]; exact ⟨List.nodup_nil, by simp⟩
  rcases step_cases (r := r) hu e with hs | ⟨_, _, c, -, hc, -⟩ | ⟨-, hpop⟩ | ⟨hs, -⟩
  · left; rw [hs]; exact h
  · rw [htasks] at hc; simp [Cursor.tasks] at hc
  · right
    obtain ⟨tpl, hacc, hinit⟩ := hpop.exists_template
    exact Steady.initial hacc hinit
  · rw [h] at hs; cases hs

private theorem Reached.steady (h : Reached r wf) : wf.status = {} ∨ Steady wf := by
  obtain ⟨wf₀, es, h0, hes, rfl⟩ := h
  refine (always_of_every (I := fun w => w.status = {} ∨ Steady w) (C := fun _ e => e.Declared) (Or.inl h0)
    (every_of_forall_mem fun e he _ => hes e he) fun w e hw hd => ?_).last
  rcases hw with hw | hw
  · exact step_of_no_status hw e
  · right; exact hw.step hd

end

private theorem Cursor.currentTask_eq (hc : wf.status.tasks = c.tasks) :
    wf.status.tasks[wf.getCurrentTaskIndex]? = some c.task := by
  rw [Workflow.getCurrentTaskIndex, c.info hc, hc]
  simp [Cursor.tasks]

/-- The current task exists as soon as there are tasks. -/
private theorem exists_currentTask (h : wf.status.tasks ≠ []) :
    ∃ t, wf.status.tasks[wf.getCurrentTaskIndex]? = some t := by
  rcases closed_or_cursor wf.status.tasks with hclosed | ⟨c, hc⟩
  · obtain ⟨t, ts, hts⟩ := List.exists_cons_of_ne_nil h
    refine ⟨t, ?_⟩
    rw [Workflow.getCurrentTaskIndex, info_of_closed hclosed, hts]; rfl
  · exact ⟨c.task, Cursor.currentTask_eq hc⟩

/-- The workflow is indexed under `w`, and its current task is that of `w`. -/
def Assigned (w : String) (wf : Workflow) : Bool :=
  decide (w ∈ workflowWorkerNonTerminalStateIndexFunc wf) &&
    (wf.status.tasks[wf.getCurrentTaskIndex]?).any fun t => t.workerAddr = w

theorem mem_workflowWorkerNonTerminalStateIndexFunc :
    w ∈ workflowWorkerNonTerminalStateIndexFunc wf ↔
      (wf.status.state = .pending ∨ wf.status.state = .running) ∧ w ≠ "" ∧
        ∃ t ∈ wf.status.tasks, t.workerAddr = w := by
  unfold workflowWorkerNonTerminalStateIndexFunc
  split
  · rename_i h
    have h' : ¬ (wf.status.state = .pending ∨ wf.status.state = .running) := fun hs => h hs.symm
    simp [h']
  · rename_i h
    have h' : wf.status.state = .pending ∨ wf.status.state = .running := (not_not.1 h).symm
    simp [h', and_comm]

private theorem currentlyAssigned_eq {items : List Workflow} (h : ∀ wf ∈ items, wf.status.tasks ≠ []) :
    currentlyAssigned w items =
      .ok (items.filter fun wf => (wf.status.tasks[wf.getCurrentTaskIndex]?).any fun t => t.workerAddr = w) := by
  induction items with
  | nil => rfl
  | cons wf items ih =>
    obtain ⟨hwf, hitems⟩ := List.forall_mem_cons.1 h
    obtain ⟨t, ht⟩ := exists_currentTask hwf
    have hindex : (Outcome.index wf.status.tasks wf.getCurrentTaskIndex : Outcome StreamError Task) = .ok t :=
      Outcome.index_eq_ok.2 ⟨Int.natCast_nonneg _, ht⟩
    rw [currentlyAssigned, hindex, ih hitems]
    simp only [Outcome.ok_bind, Outcome.pure_def, List.filter_cons, ht, Option.any_some, decide_eq_true_eq]

/-- The access to the current task never fails, and the workflows found are those assigned to the worker. -/
theorem getCurrentAssignedNonTerminalWorkflowsForWorker_eq (stored : List Workflow) (w : String) :
    getCurrentAssignedNonTerminalWorkflowsForWorker none stored w = .ok (stored.filter (Assigned w)) := by
  rw [getCurrentAssignedNonTerminalWorkflowsForWorker, currentlyAssigned_eq, List.filter_filter]
  · congr 2
    funext wf
    rw [Assigned, Bool.and_comm]
  · intro wf hwf hnil
    have hmem := (List.mem_filter.1 hwf).2
    rw [decide_eq_true_eq, mem_workflowWorkerNonTerminalStateIndexFunc, hnil] at hmem
    obtain ⟨-, -, t, ht, -⟩ := hmem
    cases ht

private theorem sendContexts_still (wfs : List Workflow) :
    sendContexts {} wfs = (wfs.map getWorkflowContext, .ok ()) := by
  induction wfs with
  | nil => rfl
  | cons wf wfs ih => rw [sendContexts]; simp only [ih, List.map_cons]

theorem getWorkflowContexts_still (stored : List Workflow) (hw : w ≠ "") :
    getWorkflowContexts {} stored w = ((stored.filter (Assigned w)).map getWorkflowContext, .ok ()) := by
  rw [getWorkflowContexts, if_neg hw]
  simp only [getCurrentAssignedNonTerminalWorkflowsForWorker_eq, sendContexts_still]

/-! ### The current action, by the cursor -/

private theorem WellStaged.frontEntries_success (hg : WellStaged wf) (hc : wf.status.tasks = c.tasks) :
    ∀ e ∈ c.frontEntries, e.2.status = .success := by
  intro e he
  refine hg.front_success hc e.2 ?_
  rw [← c.map_snd_frontEntries]
  exact List.mem_map_of_mem he

theorem WellStaged.current?_eq (hg : WellStaged wf) (hc : wf.status.tasks = c.tasks) :
    wf.current? = some (c.task, c.action) := by
  have hfront := hg.frontEntries_success hc
  rw [Workflow.current?, hc, c.entriesOf_tasks, List.find?_eq_some_iff_append]
  refine ⟨by simpa using c.action_ne_success, _, _, rfl, fun e he => ?_⟩
  simpa using hfront e he

theorem WellStaged.currentPosition_eq (hg : WellStaged wf) (hc : wf.status.tasks = c.tasks) :
    wf.currentPosition = c.front.length := by
  have hfront : c.frontEntries.findIdx (fun e => e.2.status ≠ .success) = c.frontEntries.length := by
    rw [List.findIdx_eq_length]
    intro e he
    simpa using hg.frontEntries_success hc e he
  rw [Workflow.currentPosition, hc, c.entriesOf_tasks, List.findIdx_append, hfront, if_neg (lt_irrefl _),
    List.findIdx_cons, ← c.length_frontEntries]
  simp [c.action_ne_success]

/-- A workflow with a current action is initialised, and the scan finds that action. -/
private theorem Reached.cursor {r : Template.Renderer TemplateData} (h : Reached r wf) (hcur : wf.current?.isSome) :
    Steady wf ∧ ∃ c : Cursor, wf.status.tasks = c.tasks := by
  rcases h.steady with h | h
  · rw [Workflow.current?, h] at hcur; cases hcur
  · refine ⟨h, ?_⟩
    rcases closed_or_cursor wf.status.tasks with hclosed | hc
    · have hall := success_of_closed h.declared hclosed
      obtain ⟨e, he⟩ := Option.isSome_iff_exists.1 hcur
      have hmem : e.2 ∈ actionsOf wf.status.tasks := by
        rw [← map_snd_entriesOf]; exact List.mem_map_of_mem (List.mem_of_find?_eq_some he)
      have hne := List.find?_some he
      simp [hall e.2 hmem] at hne
    · exact hc

/-- The current task is that of the current action. -/
theorem WellStaged.assigned_iff (hg : WellStaged wf) (hc : wf.status.tasks = c.tasks) (hw : w ≠ "") :
    Assigned w wf = true ↔
      (wf.status.state = .pending ∨ wf.status.state = .running) ∧ (wf.current?.any fun e => e.1.workerAddr = w) := by
  rw [Assigned, Bool.and_eq_true, decide_eq_true_eq, mem_workflowWorkerNonTerminalStateIndexFunc,
    Cursor.currentTask_eq hc, hg.current?_eq hc, Option.any_some, Option.any_some, decide_eq_true_eq]
  constructor
  · rintro ⟨⟨hs, -, -⟩, hw'⟩
    exact ⟨hs, hw'⟩
  · rintro ⟨hs, hw'⟩
    exact ⟨⟨hs, hw, c.task, by rw [hc]; simp [Cursor.tasks], hw'⟩, hw'⟩

private theorem Steady.currentAction_ne (hg : Steady wf) (hc : wf.status.tasks = c.tasks) :
    (getWorkflowContext wf).currentAction ≠ "" := by
  show wf.getTaskActionInfo.currentAction ≠ ""
  rw [c.info hc]
  exact hg.names.action c.task (by rw [hc]; simp [Cursor.tasks]) c.action (by rw [c.actions_eq]; simp)

/-- A context that names an action names the worker it is streamed to. -/
private theorem currentWorker_of_assigned (h : Assigned w wf = true)
    (hne : (getWorkflowContext wf).currentAction ≠ "") :
    (getWorkflowContext wf).currentWorker = w := by
  rcases closed_or_cursor wf.status.tasks with hclosed | ⟨c, hc⟩
  · rw [show (getWorkflowContext wf).currentAction = wf.getTaskActionInfo.currentAction from rfl,
      info_of_closed hclosed] at hne
    exact absurd rfl hne
  · rw [Assigned, Bool.and_eq_true, Cursor.currentTask_eq hc, Option.any_some] at h
    show wf.getTaskActionInfo.currentWorker = w
    rw [c.info hc]
    exact of_decide_eq_true h.2

/-- The worker of the current action of a pending or running workflow starts at that action. -/
theorem Steady.turn_eq (hg : Steady wf) (hc : wf.status.tasks = c.tasks)
    (hs : wf.status.state = .pending ∨ wf.status.state = .running) (hw : c.task.workerAddr = w) :
    Worker.turn w (getWorkflowContext wf) (workflowActionListCRDToProto wf) = .ok (some wf.currentPosition) := by
  have hinfo := c.info hc
  have hstate : (getWorkflowContext wf).currentActionState = stateValue c.action.status := by
    show stateValue wf.getTaskActionInfo.currentActionState = _
    rw [hinfo]
  have hindex : (getWorkflowContext wf).currentActionIndex = wf.currentPosition := by
    rw [hg.currentPosition_eq hc, ← hg.index_eq hc]
    show ((wf.getTaskActionInfo.currentActionIndex : Nat) : Int) = _
    rw [hinfo]; rfl
  -- the action is open, and no action of such a workflow has failed or timed out
  have hquiet := hg.quiet hs c.action (by rw [hc, c.actionsOf_tasks]; simp)
  have hopen : c.action.status = .pending ∨ c.action.status = .running := by
    have := c.action_open
    cases ha : c.action.status <;> simp [ha, isOpen] at this hquiet ⊢
  rw [Worker.turn_of_reported (hg.currentAction_ne hc), hstate, hindex, if_neg, if_neg]
  · refine Worker.startAt_of_get (a := actionCRDToProto c.task c.action) (Int.natCast_nonneg _) ?_ hw
    rw [Int.toNat_natCast, hg.currentPosition_eq hc]
    exact Cursor.getElem?_actionList hc
  · rcases hopen with h | h <;> rw [h] <;> simp [stateValue]
  · rcases hopen with h | h <;> rw [h] <;> simp [stateValue]

/-- Among the workflows that have a current action, those streamed to `w` are the pending and running ones whose
current action is in a task of `w`, each once; the worker `w` starts each at its current action, and no other worker
is streamed it. -/
theorem dispatched_to_current_worker {r : Template.Renderer TemplateData} (stored : List Workflow)
    (hr : ∀ wf ∈ stored, Reached r wf) (w : String) (hw : w ≠ "") :
    ∃ sent, getCurrentAssignedNonTerminalWorkflowsForWorker none stored w = .ok sent ∧
      getWorkflowContexts {} stored w = (sent.map getWorkflowContext, .ok ()) ∧
      (sent.filter fun wf => wf.current?.isSome) = (stored.filter fun wf =>
        (wf.status.state = .pending ∨ wf.status.state = .running) ∧ wf.current?.any fun e => e.1.workerAddr = w) ∧
      ∀ wf ∈ sent, wf.current?.isSome →
        Worker.turn w (getWorkflowContext wf) (workflowActionListCRDToProto wf) = .ok (some wf.currentPosition) ∧
        ∀ w', w' ≠ w → getWorkflowContext wf ∉ (getWorkflowContexts {} stored w').1 := by
  refine ⟨stored.filter (Assigned w), getCurrentAssignedNonTerminalWorkflowsForWorker_eq stored w,
    getWorkflowContexts_still stored hw, ?_, ?_⟩
  · rw [List.filter_filter]
    refine List.filter_congr fun wf hwf => ?_
    rw [Bool.eq_iff_iff, Bool.and_eq_true, decide_eq_true_eq]
    constructor
    · rintro ⟨hcur, hass⟩
      obtain ⟨hg, c, hc⟩ := (hr wf hwf).cursor hcur
      exact (hg.assigned_iff hc hw).1 hass
    · rintro ⟨hs, hany⟩
      have hcur : wf.current?.isSome := by
        cases h : wf.current? with
        | none => rw [h] at hany; cases hany
        | some e => rfl
      obtain ⟨hg, c, hc⟩ := (hr wf hwf).cursor hcur
      exact ⟨hcur, (hg.assigned_iff hc hw).2 ⟨hs, hany⟩⟩
  · intro wf hwf hcur
    obtain ⟨hmem, hass⟩ := List.mem_filter.1 hwf
    obtain ⟨hg, c, hc⟩ := (hr wf hmem).cursor hcur
    obtain ⟨hs, hany⟩ := (hg.assigned_iff hc hw).1 hass
    rw [hg.current?_eq hc, Option.any_some, decide_eq_true_eq] at hany
    have hworker := currentWorker_of_assigned hass (hg.currentAction_ne hc)
    refine ⟨hg.turn_eq hc hs hany, fun w' hw' hin => ?_⟩
    by_cases hempty : w' = ""
    · rw [getWorkflowContexts, if_pos hempty] at hin; cases hin
    · rw [getWorkflowContexts_still stored hempty] at hin
      obtain ⟨wf', hwf', he⟩ := List.mem_map.1 hin
      have hworker' := currentWorker_of_assigned (List.mem_filter.1 hwf').2 (he ▸ hg.currentAction_ne hc)
      rw [he, hworker] at hworker'
      exact hw' hworker'.symm

theorem dispatched_to_current_worker_second_task :
    let r := Template.Renderer.reading TemplateData (.ofNames [("wipe", "m1", ["disks"]), ("os", "m2", ["stream"])])
    let wf := run (step r) (.ofStatus {}) [.reconcile (.still 0), .reportOf 0 "wipe" "disks" .success]
    ∃ sent, getCurrentAssignedNonTerminalWorkflowsForWorker none [wf] "m2" = .ok sent ∧ wf ∈ sent ∧
      Worker.turn "m2" (getWorkflowContext wf) (workflowActionListCRDToProto wf) = .ok (some 1) := by
  intro r wf
  obtain ⟨sent, hsent, -, hexact, hturn⟩ := dispatched_to_current_worker (r := r) [wf]
    (fun w hw => ⟨.ofStatus {}, _, rfl, by decide, List.mem_singleton.1 hw⟩) "m2" (by decide)
  have hmem : wf ∈ sent := by
    have hin : wf ∈ sent.filter fun wf => wf.current?.isSome := by rw [hexact]; decide
    exact (List.mem_filter.1 hin).1
  exact ⟨sent, hsent, hmem, (hturn wf hmem rfl).1⟩

end Tink.Kube
