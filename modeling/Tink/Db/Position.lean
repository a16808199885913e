import Tink.Db.Server

/-!
# The position a state row denotes

`CreateWorkflow` stores an action list with its length and an empty context, and every report moves the context to an
action of the list.  So in every reachable store a row either has had no report, and stands at index 0, or denotes an
action of its list, whose names and worker it repeats (`Positioned`, `reachable_row`, `Reachable.positioned`).  For
such a row, the reports that are stored are those that name the action at their position (`Positioned.updates_iff`).

The handlers index the list without a check of their own where it has fewer than two actions, and a query for the list
that fails gives an empty one.  `out_of_range_iff` says exactly when a report or the dispatch runs out of the list.
-/

namespace Tink.Db

open Pg Machine

/-- Nothing has been reported. -/
structure StateRow.Unreported (row : StateRow) : Prop where
  task : row.currentTaskName = ""
  action : row.currentActionName = ""
  state : row.currentActionState = .pending
  worker : row.currentWorker = ""
  index : row.currentActionIndex = 0

/-- The row denotes the action at its index. -/
def StateRow.Reported (row : StateRow) : Prop :=
  row.currentActionName ≠ "" ∧ ∃ (i : Nat) (action : WorkflowAction), row.currentActionIndex = i ∧
    row.actionList[i]? = some action ∧ row.currentTaskName = action.taskName ∧
    row.currentActionName = action.name ∧ row.currentWorker = action.workerId

/-- What every reachable row satisfies. -/
structure Positioned (row : StateRow) : Prop where
  total : row.totalNumberOfActions = row.actionList.length
  int : isInt row.actionList.length = true
  texts : ∀ a ∈ row.actionList, varchar 200 a.taskName = some a.taskName ∧ varchar 200 a.name = some a.name ∧
    varchar 200 a.workerId = some a.workerId
  place : row.Unreported ∨ row.Reported

variable {H : Type} {r : Template.Renderer H} {reg : Registry} {s s' : Store} {row row' : StateRow} {id : UUID}
  {req : WorkflowActionStatus}

/-- Without an action nothing can be reported. -/
theorem Positioned.unreported_of_nil (hp : Positioned row) (hnil : row.actionList = []) : row.Unreported := by
  rcases hp.place with h | ⟨-, i, action, -, hget, -⟩
  · exact h
  · simp [hnil] at hget

theorem Positioned.action_ne (hp : Positioned row) (h : ¬ row.Unreported) : row.currentActionName ≠ "" :=
  (hp.place.resolve_left h).1

/-- A report that moves a row moves it to the action it names, and keeps the list. -/
theorem Positioned.applied (hp : Positioned row) (h : Applied req row row') :
    ∃ (i : Nat) (action : WorkflowAction), row.reportIndex req = i ∧ row.actionList[i]? = some action ∧
      action.taskName = req.taskName ∧ action.name = req.actionName ∧
      row' = { row with
        currentTaskName := req.taskName
        currentActionName := req.actionName
        currentActionState := req.actionStatus
        currentWorker := action.workerId
        currentActionIndex := i } := by
  obtain ⟨action, task, name, worker, hpos, hget, htask, hname, ht, hn, hw, hrow'⟩ := h.moved
  obtain ⟨ht', hn', hw'⟩ := hp.texts action (List.mem_of_getElem? hget)
  rw [htask, ht] at ht'
  rw [hname, hn] at hn'
  rw [hw] at hw'
  cases ht'
  cases hn'
  cases hw'
  have hidx : row.reportIndex req = (row.reportIndex req).toNat := by omega
  refine ⟨(row.reportIndex req).toNat, action, hidx, hget, htask, hname, ?_⟩
  rw [hrow', ← hidx]

theorem Positioned.of_applied (hp : Positioned row) (h : Applied req row row') :
    Positioned row' ∧ row'.actionList = row.actionList := by
  obtain ⟨i, action, -, hget, htask, hname, rfl⟩ := hp.applied h
  refine ⟨⟨hp.total, hp.int, hp.texts, Or.inr ⟨h.action_ne, i, action, rfl, hget, ?_, ?_, rfl⟩⟩, rfl⟩
  · exact htask.symm
  · exact hname.symm

/-! ### Created workflows -/

/-- The hardware table has a worker with the address, and its id is `u`. -/
def Registry.Resolves (reg : Registry) (addr : String) (u : UUID) : Prop :=
  ∃ workerID, reg.getWorkerID addr = .ok workerID ∧ reg.parse workerID = .ok u

theorem collectTasks_cons {unique : UUID} {task : Template.Task} {tasks : List Template.Task}
    {actions : List WorkflowAction} {workers : List UUID}
    (h : collectTasks reg unique (task :: tasks) = .ok (actions, workers)) :
    ∃ u actions' workers', collectTasks reg u tasks = .ok (actions', workers') ∧
      actions = task.actions.map (workflowAction task u) ++ actions' ∧
      workers = (if unique ≠ u then u :: workers' else workers') ∧ reg.Resolves task.workerAddr u := by
  rw [collectTasks] at h
  cases hg : reg.getWorkerID task.workerAddr with
  | error e => simp [hg, bind, Except.bind] at h
  | ok workerID =>
    cases hp : reg.parse workerID with
    | error e => simp [hg, hp, bind, Except.bind] at h
    | ok u =>
      cases hrest : collectTasks reg u tasks with
      | error e => simp [hg, hp, hrest, bind, Except.bind] at h
      | ok p =>
        simp only [hg, hp, hrest, bind, Except.bind, pure, Except.pure, Except.ok.injEq, Prod.mk.injEq] at h
        exact ⟨u, p.1, p.2, hrest, h.1.symm, h.2.symm, workerID, hg, hp⟩

theorem collectTasks_mem {unique : UUID} {tasks : List Template.Task} {actions : List WorkflowAction}
    {workers : List UUID} (h : collectTasks reg unique tasks = .ok (actions, workers)) :
    ∀ a ∈ actions, ∃ task ∈ tasks, ∃ ac ∈ task.actions, ∃ u, a = workflowAction task u ac := by
  induction tasks generalizing unique actions workers with
  | nil =>
    cases h
    simp
  | cons task tasks ih =>
    obtain ⟨u, actions', workers', hrest, rfl, -⟩ := collectTasks_cons h
    intro a ha
    rcases List.mem_append.1 ha with ha | ha
    · obtain ⟨ac, hac, rfl⟩ := List.mem_map.1 ha
      exact ⟨task, List.mem_cons_self, ac, hac, u, rfl⟩
    · obtain ⟨t, ht, hrest'⟩ := ih hrest a ha
      exact ⟨t, List.mem_cons_of_mem task ht, hrest'⟩

private theorem jsonbColumn_eq_ok {actions data : List WorkflowAction} :
    jsonbColumn actions = .ok data ↔ (∀ a ∈ actions, ∀ t ∈ texts a, '\x00' ∉ t.toList) ∧ actions = data := by
  unfold jsonbColumn
  split
  · rename_i h
    simp only [List.any_eq_true, decide_eq_true_eq] at h
    obtain ⟨a, ha, t, ht, c, hc, rfl⟩ := h
    refine iff_of_false (by simp) ?_
    rintro ⟨hnone, -⟩
    exact hnone a ha t ht hc
  · rename_i h
    simp only [List.any_eq_true, decide_eq_true_eq, not_exists, not_and] at h
    have hnone : ∀ a ∈ actions, ∀ t ∈ texts a, '\x00' ∉ t.toList := fun a ha t ht hc => h a ha t ht _ hc rfl
    rw [and_iff_right hnone, Except.ok.injEq]

theorem insertActionList_ok {yaml : String} (h : insertActionList r reg s yaml id = .ok s') :
    ∃ wf actions workers, Template.parse r yaml = .ok wf ∧
      collectTasks reg UUID.zero wf.tasks = .ok (actions, workers) ∧
      (∀ a ∈ actions, ∀ t ∈ texts a, '\x00' ∉ t.toList) ∧ isInt actions.length = true ∧
      s' = { s with
        workflowWorkerMap := workers.foldl (insertIntoWfWorkerTable id) s.workflowWorkerMap
        workflowState := Function.update s.workflowState id
          (some { actionList := actions, totalNumberOfActions := actions.length }) } := by
  unfold insertActionList at h
  cases hparse : Template.parse r yaml with
  | error e => simp [hparse, bind, Except.bind] at h
  | ok wf =>
    cases hcol : collectTasks reg UUID.zero wf.tasks with
    | error e => simp [hparse, hcol, bind, Except.bind] at h
    | ok p =>
      obtain ⟨actions, workers⟩ := p
      refine ⟨wf, actions, workers, rfl, hcol, ?_⟩
      simp only [hparse, hcol, bind, Except.bind] at h
      split at h
      · rename_i data total hdata htotal
        cases h
        obtain ⟨hzero, rfl⟩ := jsonbColumn_eq_ok.1 hdata
        obtain ⟨hint, rfl⟩ := intColumn_eq_ok.1 htotal
        exact ⟨hzero, hint, rfl⟩
      · cases h
      · cases h

private theorem texts_of_accepted {wf : Template.Workflow} (h : Template.Accepted r wf)
    {actions : List WorkflowAction}
    {workers : List UUID} (hcol : collectTasks reg UUID.zero wf.tasks = .ok (actions, workers))
    (hzero : ∀ a ∈ actions, ∀ t ∈ texts a, '\x00' ∉ t.toList) :
    ∀ a ∈ actions, varchar 200 a.taskName = some a.taskName ∧ varchar 200 a.name = some a.name ∧
      varchar 200 a.workerId = some a.workerId := by
  intro a ha
  have hz := hzero a ha
  obtain ⟨task, ht, ac, hac, u, rfl⟩ := collectTasks_mem hcol a ha
  have htask := (h.taskName task ht).2
  have hname := (h.actionName task ht ac hac).2
  have h1 := length_le_utf8ByteSize task.name
  have h2 := length_le_utf8ByteSize ac.name
  have h3 := u.length_toString_le
  refine ⟨?_, ?_, ?_⟩
  · exact varchar_of_length_le (hz _ (by simp [texts])) (show task.name.length ≤ 200 by omega)
  · exact varchar_of_length_le (hz _ (by simp [texts])) (show ac.name.length ≤ 200 by omega)
  · exact varchar_of_length_le (hz _ (by simp [texts])) (show u.toString.length ≤ 200 by omega)

/-- A workflow created has its template rendered, and its list inserted under the fresh id. -/
theorem createWorkflow_eq_ok {env : CreateEnv} {template hardware : String}
    (h : createWorkflow r reg env s template hardware = .ok (s', id)) :
    id = env.id ∧ ∃ text data s₁, env.template = .ok text ∧
      Template.renderTemplate r template text hardware = .ok data ∧
      insertActionList r reg s data id = .ok s₁ ∧
      s' = { s₁ with
        workflow := Function.update s₁.workflow id (some { template := template, devices := hardware }) } := by
  unfold createWorkflow at h
  cases ht : env.template with
  | error e => simp [ht] at h
  | ok text =>
    cases hr : Template.renderTemplate r template text hardware with
    | error e => simp [ht, hr, bind, Except.bind] at h
    | ok data =>
      simp only [ht, hr, bind, Except.bind] at h
      split at h
      · cases h
      · rename_i s₁ htx
        cases h
        unfold createWorkflowTx at htx
        split at htx
        · cases htx
        · cases htx
        · rename_i hins
          cases htx
          exact ⟨rfl, text, data, _, rfl, hr, hins, rfl⟩

/-- What creating a workflow does to the state rows. -/
theorem createWorkflow_rows {env : CreateEnv} {template hardware : String}
    (h : createWorkflow r reg env s template hardware = .ok (s', id)) :
    ∃ row, s'.workflowState = Function.update s.workflowState id (some row) ∧ Positioned row ∧ row.Unreported := by
  obtain ⟨-, text, data, s₁, -, -, hins, rfl⟩ := createWorkflow_eq_ok h
  obtain ⟨wf, actions, workers, hparse, hcol, hzero, hint, rfl⟩ := insertActionList_ok hins
  refine ⟨_, rfl, ⟨rfl, hint, ?_, Or.inl ⟨rfl, rfl, rfl, rfl, rfl⟩⟩, ⟨rfl, rfl, rfl, rfl, rfl⟩⟩
  exact texts_of_accepted (Template.parse_accepted hparse) hcol hzero

/-- The row of a workflow just created. -/
theorem createWorkflow_ok {env : CreateEnv} {template hardware : String}
    (h : createWorkflow r reg env s template hardware = .ok (s', id)) :
    ∃ row, s'.workflowState id = some row ∧ Positioned row ∧ row.Unreported := by
  obtain ⟨row, hrows, hp, hun⟩ := createWorkflow_rows h
  exact ⟨row, by rw [hrows, Function.update_self], hp, hun⟩

/-- Reports keep the row of a workflow, its list and its place in the list. -/
theorem reachable_row (hrow : s.workflowState id = some row) (hp : Positioned row) (reports : List Report) :
    ∃ row', (run step s reports).workflowState id = some row' ∧ Positioned row' ∧
      row'.actionList = row.actionList := by
  refine run_inv (I := fun s : Store => ∃ row', s.workflowState id = some row' ∧ Positioned row' ∧
    row'.actionList = row.actionList) ⟨row, hrow, hp, rfl⟩ ?_
  rintro s report ⟨row', hrow', hp', hlist⟩
  obtain ⟨row'', hrow'', rfl | ⟨-, happ, -⟩⟩ := step_row hrow' report
  · exact ⟨row'', hrow'', hp', hlist⟩
  · obtain ⟨hp'', hlist'⟩ := hp'.of_applied happ
    exact ⟨row'', hrow'', hp'', hlist'.trans hlist⟩

/-- In every reachable store the row of the workflow has a place in its list. -/
private theorem positioned_of_created {cenv : CreateEnv} {s₀ s₁ : Store} {template hardware : String}
    (hcreate : createWorkflow r reg cenv s₀ template hardware = .ok (s₁, id)) (reports : List Report)
    (hrow : (run step s₁ reports).workflowState id = some row) : Positioned row := by
  obtain ⟨row₁, hrow₁, hp₁, -⟩ := createWorkflow_ok hcreate
  obtain ⟨row', hrow', hp, -⟩ := reachable_row hrow₁ hp₁ reports
  rw [hrow] at hrow'
  cases hrow'
  exact hp

/-- The stores the service can reach: workflows are created and reported on, in any order. -/
inductive Reachable : Store → Prop where
  | empty : Reachable {}
  | create {H : Type} {r : Template.Renderer H} {reg : Registry} {env : CreateEnv} {s s' : Store}
      {template hardware : String} {id : UUID} (h : Reachable s)
      (hcreate : createWorkflow r reg env s template hardware = .ok (s', id)) : Reachable s'
  | report {s : Store} (h : Reachable s) (report : Report) : Reachable (step s report)

/-- What every new row satisfies and every stored report keeps holds of every row of a reachable store. -/
theorem Reachable.row_inv {P : StateRow → Prop} (h : Reachable s)
    (hcreate : ∀ {H : Type} {r : Template.Renderer H} {reg : Registry} {env : CreateEnv} {s s' : Store}
      {template hardware : String} {id : UUID}, createWorkflow r reg env s template hardware = .ok (s', id) →
        ∃ row, s'.workflowState = Function.update s.workflowState id (some row) ∧ P row)
    (happlied : ∀ req row row', P row → Applied req row row' → P row') (hrow : s.workflowState id = some row) :
    P row := by
  induction h generalizing id row with
  | empty => cases hrow
  | create _ hc ih =>
    obtain ⟨row₁, hrows, hP⟩ := hcreate hc
    rw [hrows, Function.update_apply] at hrow
    split at hrow
    · cases hrow
      exact hP
    · exact ih hrow
  | @report s _ report ih =>
    rcases step_workflowState (s := s) report with hsame | ⟨s', hu, hs'⟩
    · rw [hsame] at hrow
      exact ih hrow
    · obtain ⟨id', row₁, row', -, hrow₁, -, happ, rfl⟩ := reportUpdate_eq_ok.1 hu
      rw [hs'] at hrow
      simp only [Function.update_apply] at hrow
      split at hrow
      · cases hrow
        exact happlied _ _ _ (ih hrow₁) happ
      · exact ih hrow

theorem Reachable.positioned (h : Reachable s) (hrow : s.workflowState id = some row) : Positioned row := by
  refine h.row_inv ?_ (fun _ _ _ hp happ => (hp.of_applied happ).1) hrow
  intro H r reg env s s' template hardware id hcreate
  obtain ⟨row, hrows, hp, -⟩ := createWorkflow_rows hcreate
  exact ⟨row, hrows, hp⟩

/-! ### Reports that are stored -/

/-- What a reachable row asks of a report: it is complete, the database answers, the state fits its column and the
report names the action at its position. -/
structure Admits (env : ReportEnv) (row : StateRow) (req : WorkflowActionStatus) : Prop where
  task_ne : req.taskName ≠ ""
  action_ne : req.actionName ≠ ""
  contexts : env.contextsErr = none
  actions : env.actionsErr = none
  update : env.updateErr = none
  state : isSmallint req.actionStatus.value = true
  action : ∃ a, row.actionList[(row.reportIndex req).toNat]? = some a ∧ a.taskName = req.taskName ∧
    a.name = req.actionName

theorem Positioned.index_bounds (hp : Positioned row) :
    0 ≤ row.currentActionIndex ∧
      (row.currentActionName = "" → row.currentActionIndex = 0) ∧
      (row.currentActionName ≠ "" → row.currentActionIndex < row.actionList.length) := by
  rcases hp.place with h | ⟨hne, i, action, hidx, hget, -⟩
  · exact ⟨by rw [h.index], fun _ => h.index, fun hne => absurd h.action hne⟩
  · have hi : i < row.actionList.length := (List.getElem?_eq_some_iff.1 hget).1
    exact ⟨by omega, fun he => absurd he hne, fun _ => by omega⟩

theorem Positioned.admits_iff_applied (hp : Positioned row) {env : ReportEnv} :
    Admits env row req ↔ Passes env req row ∧ ∃ row', Applied req row row' := by
  constructor
  · rintro ⟨htask, hname, hctx, hacts, hup, hstate, a, hget, hat, han⟩
    obtain ⟨hzero, -⟩ := hp.index_bounds
    have hpos : 0 ≤ row.reportIndex req := by
      have hindex := row.reportIndex_eq req
      split at hindex <;> omega
    have hlt := (List.getElem?_eq_some_iff.1 hget).1
    have hint := hp.int
    simp only [isInt, decide_eq_true_eq] at hint
    obtain ⟨ht, hn, hw⟩ := hp.texts a (List.mem_of_getElem? hget)
    rw [hat] at ht
    rw [han] at hn
    refine ⟨⟨hctx, hacts, hup, ?_, hstate, ?_⟩, _, htask, hname, a, _, _, _, hpos, hget, hat, han, ht, hn, hw, rfl⟩
    · rw [hp.total]
      omega
    · simp only [isInt, decide_eq_true_eq]
      omega
  · rintro ⟨hpass, row', happ⟩
    obtain ⟨a, -, -, -, -, hget, hat, han, -⟩ := happ.moved
    exact ⟨happ.task_ne, happ.action_ne, hpass.contexts, hpass.actions, hpass.update, hpass.state, a, hget, hat, han⟩

/-- The reports about a row that are stored. -/
theorem Positioned.updates_iff (hp : Positioned row) {env : ReportEnv} (hid : UUID.ofString? req.workflowId = some id)
    (hrow : s.workflowState id = some row) : (∃ s', reportUpdate env s req = .ok s') ↔ Admits env row req := by
  rw [hp.admits_iff_applied]
  constructor
  · rintro ⟨s', hu⟩
    obtain ⟨id', row₁, row', hid', hrow₁, hpass, happ, -⟩ := reportUpdate_eq_ok.1 hu
    rw [hid] at hid'
    cases hid'
    rw [hrow] at hrow₁
    cases hrow₁
    exact ⟨hpass, row', happ⟩
  · rintro ⟨hpass, row', happ⟩
    exact ⟨_, reportUpdate_eq_ok.2 ⟨id, row, row', hid, hrow, hpass, happ, rfl⟩⟩

theorem Positioned.admits_of_ok (hp : Positioned row) {env : ReportEnv}
    (hid : UUID.ofString? req.workflowId = some id)
    (hrow : s.workflowState id = some row) (hok : (reportActionStatus env s req).2 = .ok ()) :
    Admits env row req := by
  apply (hp.updates_iff hid hrow).1
  by_contra hno
  exact reportActionStatus_ne_ok hno hok

/-! ### Indexing the action list -/

/-- A report about the workflow does not run out of the action list: the request is incomplete, the context cannot be
read, or the list is read and has two actions or more, or one action and the report is not a further `RUNNING`; or the
list cannot be read and the report is refused because the last of several actions is the current one. -/
def ReportInRange (env : ReportEnv) (row : StateRow) (req : WorkflowActionStatus) : Prop :=
  req.taskName = "" ∨ req.actionName = "" ∨ env.contextsErr ≠ none ∨
    (env.actionsErr = none ∧ (2 ≤ row.actionList.length ∨
      (row.actionList.length = 1 ∧ ¬ (req.actionStatus = .running ∧ row.currentActionName ≠ "")))) ∨
    (env.actionsErr ≠ none ∧ 2 ≤ row.actionList.length ∧ req.actionStatus = .running ∧ row.currentActionName ≠ "" ∧
      row.currentActionIndex + 1 = row.actionList.length)

/-- The dispatch of the workflow does not run out of the action list. -/
def DispatchInRange (failure : Option String) (row : StateRow) : Prop :=
  row.currentActionState = .failed ∨ row.currentActionState = .timeout ∨ (failure = none ∧ row.actionList ≠ []) ∨
    (failure ≠ none ∧ row.currentActionState = .success ∧ row.currentActionIndex ≠ 0)

private theorem reportContext_eq_panic {c : WorkflowContext} {actions : List WorkflowAction} :
    reportContext c actions req = .panic ↔
      ¬ (c.totalNumberOfActions > 1 ∧ reportIndex c req ≥ c.totalNumberOfActions) ∧
        (reportIndex c req < 0 ∨ (actions.length : Int) ≤ reportIndex c req) := by
  unfold reportContext
  split
  · rename_i h; simp [h]
  · rename_i h
    rw [Outcome.bind_eq_panic, Outcome.index_eq_panic]
    simp only [h, not_false_eq_true, true_and]
    constructor
    · rintro (h | ⟨action, -, h⟩)
      · exact h
      · split at h
        · cases h
        · split at h <;> cases h
    · intro h; left; exact h

private theorem report_eq_panic {env : ReportEnv} (hid : UUID.ofString? req.workflowId = some id)
    (hrow : s.workflowState id = some row) :
    (reportActionStatus env s req).2 = .panic ↔
      req.taskName ≠ "" ∧ req.actionName ≠ "" ∧ env.contextsErr = none ∧
        reportContext (row.context req.workflowId) (if env.actionsErr = none then row.actionList else []) req =
          .panic := by
  have hne := ne_empty_of_ofString? hid
  have hactions : getWorkflowActions env.actionsErr s req.workflowId =
      .ok (if env.actionsErr = none then row.actionList else []) := getWorkflowActions_eq hid hrow
  have hupdate : (reportActionStatus env s req).2 = .panic ↔ reportUpdate env s req = .panic := by
    unfold reportActionStatus
    cases hu : reportUpdate env s req with
    | panic => simp
    | error e => simp
    | ok s' => cases hi : insertIntoWorkflowEventTable env.eventErr s' req <;> simp [hi]
  rw [hupdate, reportUpdate, Outcome.bind_eq_panic]
  constructor
  · rintro (h | ⟨⟨⟩, hcheck, h⟩)
    · unfold checkRequest at h
      split at h
      · cases h
      · split at h
        · cases h
        · split at h <;> cases h
    · obtain ⟨-, htask, hname⟩ := checkRequest_eq_ok.1 hcheck
      obtain ⟨c, hc, h⟩ := (Outcome.bind_eq_panic.1 h).resolve_left aborted_ne_panic
      obtain ⟨hctx, rfl⟩ := getWorkflowContexts_row hid hrow (aborted_eq_ok.1 hc)
      obtain ⟨actions, hacts, h⟩ := (Outcome.bind_eq_panic.1 h).resolve_left aborted_ne_panic
      rw [aborted_eq_ok, hactions] at hacts
      cases hacts
      rcases Outcome.bind_eq_panic.1 h with h | ⟨c', -, h⟩
      · exact ⟨htask, hname, hctx, h⟩
      · exact absurd h aborted_ne_panic
  · rintro ⟨htask, hname, hctx, h⟩
    right
    have hc : getWorkflowContexts env.contextsErr s req.workflowId = .ok (row.context req.workflowId) :=
      getWorkflowContexts_eq_ok.2 ⟨hctx, id, row, hid, hrow, rfl⟩
    refine ⟨(), checkRequest_eq_ok.2 ⟨hne, htask, hname⟩, ?_⟩
    rw [hc, hactions]
    simp only [aborted, Outcome.ok_bind, h, Outcome.panic_bind]

private theorem Positioned.report_panics_iff (hp : Positioned row) {env : ReportEnv}
    (hid : UUID.ofString? req.workflowId = some id) (hrow : s.workflowState id = some row) :
    (reportActionStatus env s req).2 ≠ .panic ↔ ReportInRange env row req := by
  obtain ⟨hpos, hzero, hlt⟩ := hp.index_bounds
  have hindex := row.reportIndex_eq req
  -- past the checks of the request, only the numbers matter
  have hout : (¬ (row.totalNumberOfActions > 1 ∧ row.reportIndex req ≥ row.totalNumberOfActions) ∧
      (row.reportIndex req < 0 ∨
        ((if env.actionsErr = none then row.actionList else []).length : Int) ≤ row.reportIndex req)) ↔
      ¬ ((env.actionsErr = none ∧ (2 ≤ row.actionList.length ∨
          (row.actionList.length = 1 ∧ ¬ (req.actionStatus = .running ∧ row.currentActionName ≠ "")))) ∨
        (env.actionsErr ≠ none ∧ 2 ≤ row.actionList.length ∧ req.actionStatus = .running ∧
          row.currentActionName ≠ "" ∧ row.currentActionIndex + 1 = row.actionList.length)) := by
    rw [hindex, hp.total]
    clear hindex
    by_cases hne : row.currentActionName = ""
    · have hidx := hzero hne
      cases env.actionsErr <;>
        simp only [hne, if_true, if_false, reduceCtorEq, List.length_nil, ne_eq, not_true_eq_false,
          not_false_eq_true, and_true, true_and, and_false, false_and, or_self, or_false, iff_true] <;> omega
    · have hidx := hlt hne
      by_cases hr : req.actionStatus = .running
      · cases env.actionsErr <;>
          simp only [hr, hne, if_true, if_false, reduceCtorEq, List.length_nil, ne_eq, not_true_eq_false,
            not_false_eq_true, and_self, true_and, and_false, false_and, or_false, false_or] <;> omega
      · cases env.actionsErr <;>
          simp only [hr, if_true, if_false, reduceCtorEq, List.length_nil, ne_eq, not_true_eq_false,
            not_false_eq_true, and_true, true_and, and_false, false_and, or_self, or_false, iff_true] <;> omega
  rw [ne_eq, report_eq_panic hid hrow, reportContext_eq_panic]
  show ¬ (_ ∧ _ ∧ _ ∧ ¬ (row.totalNumberOfActions > 1 ∧ row.reportIndex req ≥ row.totalNumberOfActions) ∧
    (row.reportIndex req < 0 ∨ _ ≤ row.reportIndex req)) ↔ _
  rw [hout]
  simp only [not_and_or, not_not, ReportInRange, ne_eq]

private theorem applicableTo_eq_panic {c : WorkflowContext} {actions : List WorkflowAction} {workerID : String} :
    applicableTo c actions workerID = .panic ↔
      (c.currentActionState = .success ∧ c.currentActionIndex = 0 ∧ actions = []) ∨
        (c.currentActionState ≠ .success ∧
          (c.currentActionIndex < 0 ∨ (actions.length : Int) ≤ c.currentActionIndex)) := by
  have hempty : actions = [] ↔ actions.length = 0 := List.length_eq_zero_iff.symm
  unfold applicableTo
  by_cases hs : c.currentActionState = .success
  · rw [if_pos hs]
    by_cases hlast : isLastAction c actions = true
    · have hl : c.currentActionIndex = (actions.length : Int) - 1 := by simpa [isLastAction] using hlast
      rw [if_pos hlast, hempty]
      simp only [reduceCtorEq, hs, true_and, ne_eq, not_true_eq_false, false_and, or_false, false_iff]
      omega
    · have hl : c.currentActionIndex ≠ (actions.length : Int) - 1 := by simpa [isLastAction] using hlast
      rw [if_neg hlast, hempty]
      by_cases hz : c.currentActionIndex = 0
      · rw [if_pos hz, Outcome.bind_eq_panic, Outcome.index_eq_panic]
        simp only [Outcome.pure_def, reduceCtorEq, and_false, exists_false, or_false, hs, hz, true_and, ne_eq,
          not_true_eq_false, false_and]
        omega
      · rw [if_neg hz]
        simp [hs, hz]
  · rw [if_neg hs, Outcome.bind_eq_panic, Outcome.index_eq_panic]
    simp [hs]

theorem Positioned.dispatch_panics_iff (hp : Positioned row) {failure : Option String} {wfID : String}
    (hid : UUID.ofString? wfID = some id) (hrow : s.workflowState id = some row) (workerID : String) :
    isApplicableToSend failure s (row.context wfID) workerID ≠ .panic ↔ DispatchInRange failure row := by
  obtain ⟨hpos, hzero, hlt⟩ := hp.index_bounds
  have hactions : getWorkflowActions failure s (row.context wfID).workflowId =
      .ok (if failure = none then row.actionList else []) := getWorkflowActions_eq hid hrow
  have hstate : (row.context wfID).currentActionState = row.currentActionState := rfl
  have hindex : (row.context wfID).currentActionIndex = row.currentActionIndex := rfl
  unfold isApplicableToSend DispatchInRange
  rw [hactions, hstate]
  by_cases hfinal : row.currentActionState = .failed ∨ row.currentActionState = .timeout
  · rw [if_pos hfinal]
    refine iff_of_true (by simp) ?_
    rcases hfinal with h | h
    · left; exact h
    · right; left; exact h
  · obtain ⟨hnf, hnt⟩ := not_or.1 hfinal
    rw [if_neg hfinal]
    dsimp only
    rw [ne_eq, applicableTo_eq_panic, hstate, hindex]
    cases failure with
    | none =>
      -- a row of an empty list has had no report, so its state is pending
      by_cases hnil : row.actionList = []
      · have hun := hp.unreported_of_nil hnil
        simp [hnil, hun.state, hun.index]
      · have hlen := List.length_pos_iff.2 hnil
        by_cases hne : row.currentActionName = ""
        · have hidx := hzero hne
          simp [hnil, hidx]
        · have hidx := hlt hne
          simp [hnil]; omega
    | some e =>
      simp only [reduceCtorEq, if_false, List.length_nil, hnf, hnt, false_and, false_or, ne_eq, not_false_eq_true,
        true_and, and_true]
      by_cases hs : row.currentActionState = .success
      · simp [hs]
      · simp [hs]

/-- In every reachable store, exactly when a report about the workflow and the dispatch of it keep to the action
list. -/
theorem out_of_range_iff {cenv : CreateEnv} {s₀ s₁ : Store} {template hardware : String}
    (hcreate : createWorkflow r reg cenv s₀ template hardware = .ok (s₁, id)) (reports : List Report)
    (hrow : (run step s₁ reports).workflowState id = some row) (env : ReportEnv) (req : WorkflowActionStatus)
    (hid : UUID.ofString? req.workflowId = some id) :
    ((reportActionStatus env (run step s₁ reports) req).2 ≠ .panic ↔ ReportInRange env row req) ∧
      ∀ failure workerID,
        isApplicableToSend failure (run step s₁ reports) (row.context req.workflowId) workerID ≠ .panic ↔
          DispatchInRange failure row := by
  have hp := positioned_of_created hcreate reports hrow
  exact ⟨hp.report_panics_iff hid hrow, fun failure workerID => hp.dispatch_panics_iff hid hrow workerID⟩

theorem out_of_range_two_actions :
    ∃ s₁ row, createSample [("os", machine1, ["stream", "boot"])] = .ok (s₁, sampleID) ∧
      (run step s₁ [({}, reportOf "os" "stream" .running)]).workflowState sampleID = some row ∧
      (reportActionStatus {} (run step s₁ [({}, reportOf "os" "stream" .running)])
        (reportOf "os" "stream" .running)).2 ≠
        .panic := by
  have hcreate : createSample [("os", machine1, ["stream", "boot"])] = .ok (_, sampleID) := rfl
  refine ⟨_, _, hcreate, rfl, (out_of_range_iff hcreate _ rfl {} _ rfl).1.2 ?_⟩
  right; right; right; left
  exact ⟨rfl, Or.inl (Nat.le_refl 2)⟩

/-- A workflow of one action panics on a `RUNNING` report that is repeated, and a workflow without actions on the
first poll of its worker. -/
theorem repeated_running_panics :
    (∃ s₁, createSample [("os", machine1, ["stream"])] = .ok (s₁, sampleID) ∧
      (reportActionStatus {} s₁ (reportOf "os" "stream" .running)).2 = .ok () ∧
      (reportActionStatus {} (step s₁ ({}, reportOf "os" "stream" .running)) (reportOf "os" "stream" .running)).2 =
        .panic) ∧
    (∃ s₁ row, createSample [("os", machine1, [])] = .ok (s₁, sampleID) ∧ s₁.workflowState sampleID = some row ∧
      isApplicableToSend none s₁ (row.context sampleID.toString) machine1 = .panic) :=
  ⟨⟨_, rfl, rfl, rfl⟩, ⟨_, _, rfl, rfl, rfl⟩⟩

end Tink.Db
