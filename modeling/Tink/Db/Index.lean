import Tink.Db.Trace

/-!
# The index of a state row

A template has no two tasks of one name, and a task no two actions of one name, so an action list has no two actions
with the same pair of names.  A row with such a list (`Placed`) stands at the only position its names fit, and a
report can move it in two ways: to the next position, if it is a `RUNNING` report and something was reported before,
or not at all.  Hence the index never decreases and grows by at most one with a report (`context_denotes_position`).
It can grow with a report that is answered with an error, since the row is updated before the event is recorded; these
reports are the only ones that move it and are not acknowledged (`TornMove`).

A report delivered twice is looked for at the next position the second time if it is a `RUNNING` report, and is not
there (`retry_iff_not_running`).
-/

namespace Tink.Db

open Pg Machine

/-- The names the actions of a list are reported by. -/
def keys (actions : List WorkflowAction) : List (String × String) := actions.map fun a => (a.taskName, a.name)

/-- A row whose list comes from an accepted template. -/
structure Placed (row : StateRow) : Prop extends Positioned row where
  unique : (keys row.actionList).Nodup
  names : ∀ a ∈ row.actionList, a.taskName ≠ "" ∧ a.name ≠ ""
  workers : ∀ a ∈ row.actionList, ∃ u : UUID, a.workerId = u.toString

variable {H : Type} {r : Template.Renderer H} {reg : Registry} {env : ReportEnv} {s s' : Store}
  {row row' : StateRow} {id : UUID} {req : WorkflowActionStatus}

/-- Two positions with the same names are one. -/
theorem Placed.position_unique (hp : Placed row) {i j : Nat} {a b : WorkflowAction}
    (hi : row.actionList[i]? = some a) (hj : row.actionList[j]? = some b) (htask : a.taskName = b.taskName)
    (hname : a.name = b.name) : i = j := by
  have hlt : i < (keys row.actionList).length := by
    rw [keys, List.length_map]
    exact (List.getElem?_eq_some_iff.1 hi).1
  apply (List.getElem?_inj hlt hp.unique).1
  simp [keys, hi, hj, htask, hname]

private theorem Placed.of_applied (hp : Placed row) (h : Applied req row row') : Placed row' := by
  obtain ⟨hp', hlist⟩ := hp.toPositioned.of_applied h
  refine ⟨hp', ?_, ?_, ?_⟩
  · rw [hlist]; exact hp.unique
  · rw [hlist]; exact hp.names
  · rw [hlist]; exact hp.workers

/-! ### Lists of accepted templates -/

theorem collectTasks_keys {unique : UUID} {tasks : List Template.Task} {actions : List WorkflowAction}
    {workers : List UUID} (h : collectTasks reg unique tasks = .ok (actions, workers)) :
    keys actions = tasks.flatMap fun t => t.actions.map fun a => (t.name, a.name) := by
  induction tasks generalizing unique actions workers with
  | nil =>
    cases h
    rfl
  | cons task tasks ih =>
    obtain ⟨u, actions', workers', hrest, rfl, -⟩ := collectTasks_cons h
    rw [List.flatMap_cons, ← ih hrest, keys, List.map_append, List.map_map]
    rfl

private theorem templateKeys_nodup {tasks : List Template.Task} (h : Template.ValidTasks r tasks) :
    (tasks.flatMap fun t => t.actions.map fun a => (t.name, a.name)).Nodup := by
  rw [List.nodup_flatMap]
  constructor
  · intro t ht
    have hnames := h.actionNodup t ht
    refine List.Nodup.of_map Prod.snd ?_
    rw [List.map_map]
    exact hnames
  · have hnames := h.taskNodup
    rw [List.Nodup, List.pairwise_map] at hnames
    refine hnames.imp ?_
    intro t t' hne p hp hp'
    obtain ⟨a, -, rfl⟩ := List.mem_map.1 hp
    obtain ⟨a', -, heq⟩ := List.mem_map.1 hp'
    exact hne (Prod.mk.inj heq).1.symm

/-- Creating a workflow adds a row whose list comes from an accepted template. -/
theorem createWorkflow_placed {cenv : CreateEnv} {template hardware : String}
    (h : createWorkflow r reg cenv s template hardware = .ok (s', id)) :
    ∃ row, s'.workflowState = Function.update s.workflowState id (some row) ∧ Placed row ∧ row.Unreported := by
  obtain ⟨row, hrows, hp, hun⟩ := createWorkflow_rows h
  refine ⟨row, hrows, ?_, hun⟩
  obtain ⟨-, text, data, s₁, -, -, hins, rfl⟩ := createWorkflow_eq_ok h
  obtain ⟨wf, actions, workers, hparse, hcol, -, -, rfl⟩ := insertActionList_ok hins
  have hlist : actions = row.actionList := by
    have hrow := congrFun hrows id
    simp only [Function.update_self, Option.some.injEq] at hrow
    rw [← hrow]
  rw [hlist] at hcol
  have hacc := Template.parse_accepted hparse
  refine ⟨hp, ?_, ?_, ?_⟩
  · rw [collectTasks_keys hcol]
    exact templateKeys_nodup hacc.toValidTasks
  · intro a ha
    obtain ⟨task, ht, ac, hac, u, rfl⟩ := collectTasks_mem hcol a ha
    exact ⟨(hacc.taskName task ht).1, (hacc.actionName task ht ac hac).1⟩
  · intro a ha
    obtain ⟨task, ht, ac, hac, u, rfl⟩ := collectTasks_mem hcol a ha
    exact ⟨u, rfl⟩

theorem Reachable.placed (h : Reachable s) (hrow : s.workflowState id = some row) : Placed row := by
  refine h.row_inv ?_ (fun _ _ _ hp happ => hp.of_applied happ) hrow
  intro H r reg env s s' template hardware id hcreate
  obtain ⟨row, hrows, hp, -⟩ := createWorkflow_placed hcreate
  exact ⟨row, hrows, hp⟩

/-! ### Where a report leads -/

/-- The row after a report, if the report is stored. -/
def StateRow.after (row : StateRow) (req : WorkflowActionStatus) : StateRow :=
  { row with
    currentTaskName := req.taskName
    currentActionName := req.actionName
    currentActionState := req.actionStatus
    currentWorker := (row.actionList[(row.reportIndex req).toNat]?.map WorkflowAction.workerId).getD ""
    currentActionIndex := row.reportIndex req }

theorem Positioned.eq_after (hp : Positioned row) (h : Applied req row row') : row' = row.after req := by
  obtain ⟨i, action, hidx, hget, -, -, rfl⟩ := hp.applied h
  unfold StateRow.after
  rw [hidx, Int.toNat_natCast, hget]
  rfl

/-- A report that a row admits is about the only position with its names. -/
theorem Placed.reportIndex_of_admits (hp : Placed row) (hadm : Admits env row req) {n : Int} {a : WorkflowAction}
    (hn : 0 ≤ n) (hget : row.actionList[n.toNat]? = some a) (htask : a.taskName = req.taskName)
    (hname : a.name = req.actionName) : row.reportIndex req = n := by
  obtain ⟨b, hget', htask', hname'⟩ := hadm.action
  have heq := hp.position_unique hget' hget (htask'.trans htask.symm) (hname'.trans hname.symm)
  have hbounds := hp.index_bounds.1
  have hindex := row.reportIndex_eq req
  split at hindex <;> omega

theorem Placed.after (hp : Placed row) (hadm : Admits env row req) : Placed (row.after req) := by
  obtain ⟨-, row', happ⟩ := hp.admits_iff_applied.1 hadm
  rw [← hp.eq_after happ]
  exact hp.of_applied happ

/-- A report that the row admits is stored. -/
theorem Positioned.reportUpdate_eq (hp : Positioned row) (hid : UUID.ofString? req.workflowId = some id)
    (hrow : s.workflowState id = some row) (hadm : Admits env row req) :
    reportUpdate env s req =
      .ok { s with workflowState := Function.update s.workflowState id (some (row.after req)) } := by
  obtain ⟨s', hu⟩ := (hp.updates_iff hid hrow).2 hadm
  rw [hu]
  obtain ⟨id', row₁, row', hid', hrow₁, -, happ, rfl⟩ := reportUpdate_eq_ok.1 hu
  rw [hid] at hid'
  cases hid'
  rw [hrow] at hrow₁
  cases hrow₁
  rw [hp.eq_after happ]

/-- What a report can do to the row of a workflow, by what the row admits. -/
theorem Placed.step_cases (hp : Placed row) (hrow : s.workflowState id = some row) (report : Report) :
    ∃ row', (step s report).workflowState id = some row' ∧ Placed row' ∧
      (row' = row ∨
        (UUID.ofString? report.2.workflowId = some id ∧ Admits report.1 row report.2 ∧
          row' = row.after report.2)) := by
  obtain ⟨row', hrow', rfl | ⟨hid, happ, hu⟩⟩ := step_row hrow report
  · exact ⟨row', hrow', hp, Or.inl rfl⟩
  · exact ⟨row', hrow', hp.of_applied happ, Or.inr ⟨hid, (hp.updates_iff hid hrow).1 hu, hp.eq_after happ⟩⟩

theorem Positioned.step_of_admits (hp : Positioned row) (hrow : s.workflowState id = some row) {report : Report}
    (hid : UUID.ofString? report.2.workflowId = some id) (hadm : Admits report.1 row report.2) :
    (step s report).workflowState id = some (row.after report.2) := by
  rw [step_of_update (hp.reportUpdate_eq hid hrow hadm)]
  exact Function.update_self _ _ _

theorem Placed.step_of_not_admits (hp : Placed row) (hrow : s.workflowState id = some row) {report : Report}
    (h : ¬ (UUID.ofString? report.2.workflowId = some id ∧ Admits report.1 row report.2)) :
    (step s report).workflowState id = some row := by
  obtain ⟨row', hrow', -, rfl | ⟨hid, hadm, -⟩⟩ := hp.step_cases hrow report
  · exact hrow'
  · exact absurd ⟨hid, hadm⟩ h

/-- The event of a report about an action of the list can be recorded, if its numbers and its message fit. -/
theorem Placed.recordable (hp : Placed row) {a : WorkflowAction} (ha : a ∈ row.actionList)
    (hid : UUID.ofString? req.workflowId = some id) (htask : req.taskName = a.taskName)
    (hname : req.actionName = a.name)
    (hworker : req.workerId = a.workerId) (hseconds : isInt req.seconds = true) {m : String}
    (hmessage : varchar 200 req.message = some m) (hstate : isSmallint req.actionStatus.value = true) :
    Recordable {} req := by
  obtain ⟨u, hu⟩ := hp.workers a ha
  obtain ⟨ht, hn, -⟩ := hp.texts a ha
  have h₁ : uuidColumn req.workflowId = .ok id := uuidColumn_eq_ok.2 hid
  have h₂ : uuidColumn req.workerId = .ok u := by
    rw [uuidColumn_eq_ok, hworker, hu]
    exact u.ofString?_toString
  have h₃ : varcharColumn req.taskName = .ok a.taskName := by rw [varcharColumn_eq_ok, htask]; exact ht
  have h₄ : varcharColumn req.actionName = .ok a.name := by rw [varcharColumn_eq_ok, hname]; exact hn
  have h₅ : intColumn req.seconds = .ok req.seconds := intColumn_eq_ok.2 ⟨hseconds, rfl⟩
  have h₆ : varcharColumn req.message = .ok m := varcharColumn_eq_ok.2 hmessage
  have h₇ : smallintColumn req.actionStatus = .ok req.actionStatus := smallintColumn_eq_ok.2 ⟨hstate, rfl⟩
  refine ⟨rfl, ⟨id, u, a.taskName, a.name, req.seconds, m, req.actionStatus⟩, ?_⟩
  rw [eventColumns, h₁, h₂, h₃, h₄, h₅, h₆, h₇]
  rfl

/-- Over every run of reports after its creation, a workflow has a row with a list of an accepted template. -/
theorem placed_of_created {cenv : CreateEnv} {s₀ s₁ : Store} {template hardware : String}
    (hcreate : createWorkflow r reg cenv s₀ template hardware = .ok (s₁, id)) (reports : List Report) :
    ∃ row, (run step s₁ reports).workflowState id = some row ∧ Placed row := by
  obtain ⟨row, hrows, hp, -⟩ := createWorkflow_placed hcreate
  have hrow : s₁.workflowState id = some row := by rw [hrows, Function.update_self]
  refine run_inv (I := fun s : Store => ∃ row, s.workflowState id = some row ∧ Placed row) ⟨row, hrow, hp⟩ ?_
  rintro s report ⟨row, hrow, hp⟩
  obtain ⟨row', hrow', hp', -⟩ := hp.step_cases hrow report
  exact ⟨row', hrow', hp'⟩

private theorem StateRow.index_after (row : StateRow) (req : WorkflowActionStatus) :
    (row.after req).currentActionIndex = row.currentActionIndex ∨
      (row.after req).currentActionIndex = row.currentActionIndex + 1 := by
  have hafter : (row.after req).currentActionIndex = row.reportIndex req := rfl
  rw [hafter, row.reportIndex_eq]
  split
  · right; rfl
  · left; rfl

private theorem index_mono (hrow : s.workflowState id = some row) (hp : Placed row) (reports : List Report) :
    ∃ row', (run step s reports).workflowState id = some row' ∧ Placed row' ∧
      row.currentActionIndex ≤ row'.currentActionIndex ∧
      row'.currentActionIndex ≤ row.currentActionIndex + reports.length := by
  induction reports generalizing s row with
  | nil => exact ⟨row, hrow, hp, by omega, by simp⟩
  | cons report reports ih =>
    obtain ⟨row₁, hrow₁, hp₁, hcase⟩ := hp.step_cases hrow report
    have hindex : row.currentActionIndex ≤ row₁.currentActionIndex ∧
        row₁.currentActionIndex ≤ row.currentActionIndex + 1 := by
      rcases hcase with rfl | ⟨-, -, rfl⟩
      · omega
      · rcases row.index_after report.2 with h | h <;> omega
    obtain ⟨row', hrow', hp', hle, hge⟩ := ih hrow₁ hp₁
    refine ⟨row', hrow', hp', by omega, ?_⟩
    rw [List.length_cons]
    push_cast
    omega

/-- The report moves the index of the workflow by at most one, and only if it is acknowledged. -/
def MovesIfAccepted (id : UUID) (s : Store) (report : Report) : Prop :=
  ∀ row row', s.workflowState id = some row → (step s report).workflowState id = some row' →
    row'.currentActionIndex = row.currentActionIndex ∨
      (row'.currentActionIndex = row.currentActionIndex + 1 ∧ (reportActionStatus report.1 s report.2).2 = .ok ())

/-- The report is stored and its event cannot be recorded, and it is a `RUNNING` report about the next action. -/
def TornMove (id : UUID) (s : Store) (report : Report) : Prop :=
  ∃ row, s.workflowState id = some row ∧ UUID.ofString? report.2.workflowId = some id ∧
    Torn report.1 s report.2 row ∧ report.2.actionStatus = .running ∧ row.currentActionName ≠ ""

private theorem Placed.movesIfAccepted_iff (hp : Placed row) (hrow : s.workflowState id = some row)
    (report : Report) :
    MovesIfAccepted id s report ↔ ¬ TornMove id s report := by
  obtain ⟨env, req⟩ := report
  have hindex : (row.after req).currentActionIndex = row.reportIndex req := rfl
  rw [row.reportIndex_eq] at hindex
  constructor
  · rintro h ⟨row₀, hrow₀, hid, ⟨-, -, -, hadm, hnot⟩, hr, hne⟩
    obtain rfl : row₀ = row := Option.some.inj (hrow₀.symm.trans hrow)
    rw [if_pos ⟨hr, hne⟩] at hindex
    have hupdate := hp.reportUpdate_eq hid hrow hadm
    rcases h row₀ _ hrow (hp.step_of_admits hrow hid hadm) with hsame | ⟨-, hok⟩
    · rw [hindex] at hsame
      omega
    · rcases reportActionStatus_of_update hupdate with ⟨hrec, -⟩ | ⟨-, msg, hout⟩
      · exact hnot hrec
      · rw [hout] at hok
        cases hok
  · intro h row₀ row' hrow₀ hrow'
    obtain rfl : row₀ = row := Option.some.inj (hrow₀.symm.trans hrow)
    obtain ⟨row₁, hrow₁, -, hcase⟩ := hp.step_cases hrow (env, req)
    obtain rfl : row₁ = row' := Option.some.inj (hrow₁.symm.trans hrow')
    rcases hcase with rfl | ⟨hid, hadm, rfl⟩
    · left; rfl
    · by_cases hnext : req.actionStatus = .running ∧ row₀.currentActionName ≠ ""
      · right
        rw [if_pos hnext] at hindex
        refine ⟨hindex, ?_⟩
        rcases reportActionStatus_of_update (hp.reportUpdate_eq hid hrow hadm) with ⟨-, e, -, hout⟩ | ⟨hnot, -⟩
        · rw [hout]
        · exact absurd ⟨row₀, hrow, hid, ⟨id, hid, hrow, hadm, hnot⟩, hnext⟩ h
      · left
        rw [if_neg hnext] at hindex
        exact hindex

/-- Over every run of reports on a created workflow: the total is the length of the list; the row has had no report,
or stands at the only action with its names; the index never decreases, and grows by at most one with a report; and it
grows with acknowledged reports only exactly if no report about the next action is stored without its event. -/
theorem context_denotes_position {cenv : CreateEnv} {s₀ s₁ : Store} {template hardware : String}
    (hcreate : createWorkflow r reg cenv s₀ template hardware = .ok (s₁, id)) (reports : List Report) :
    (∃ row, (run step s₁ reports).workflowState id = some row ∧
      row.totalNumberOfActions = row.actionList.length ∧
      (row.Unreported ∨
        ∃ (i : Nat) (action : WorkflowAction), row.currentActionIndex = i ∧ row.actionList[i]? = some action ∧
          row.currentTaskName = action.taskName ∧ row.currentActionName = action.name ∧
          row.currentWorker = action.workerId ∧
          ∀ j b, row.actionList[j]? = some b → b.taskName = action.taskName → b.name = action.name → j = i) ∧
      ∀ more, ∃ row', (run step s₁ (reports ++ more)).workflowState id = some row' ∧
        row.currentActionIndex ≤ row'.currentActionIndex ∧
        row'.currentActionIndex ≤ row.currentActionIndex + more.length) ∧
    (Every step (MovesIfAccepted id) s₁ reports ↔ ¬ Once step (TornMove id) s₁ reports) := by
  constructor
  · obtain ⟨row, hrow, hp⟩ := placed_of_created hcreate reports
    refine ⟨row, hrow, hp.total, ?_, fun more => ?_⟩
    · rcases hp.place with hun | ⟨-, i, action, hidx, hget, htask, hname, hworker⟩
      · left; exact hun
      · right
        refine ⟨i, action, hidx, hget, htask, hname, hworker, ?_⟩
        intro j b hb hbt hbn
        exact hp.position_unique hb hget hbt hbn
    · obtain ⟨row', hrow', -, hle, hge⟩ := index_mono hrow hp more
      rw [run_append]
      exact ⟨row', hrow', hle, hge⟩
  · rw [once_iff_not_every, not_not]
    refine forall_congr' fun p => forall_congr' fun report => forall_congr' fun _ => ?_
    obtain ⟨row, hrow, hp⟩ := placed_of_created hcreate p
    exact hp.movesIfAccepted_iff hrow report

private theorem exists_second_running :
    ∃ s₁, createSample [("os", machine1, ["stream", "boot"])] = .ok (s₁, sampleID) ∧
      (run step s₁ [({}, reportOf "os" "stream" .running), ({}, reportOf "os" "stream" .success),
        ({}, reportOf "os" "boot" .running)]).workflowState sampleID =
        some (sampleRow [("os", machine1, ["stream", "boot"])] 1 .running) :=
  ⟨_, rfl, by decide +kernel⟩

/-- Two actions are reported; the row stands at the second one, and every report that moved it was acknowledged. -/
theorem context_denotes_position_two_actions :
    let reports : List Report := [({}, reportOf "os" "stream" .running), ({}, reportOf "os" "stream" .success),
      ({}, reportOf "os" "boot" .running)]
    ∃ s₁ row, createSample [("os", machine1, ["stream", "boot"])] = .ok (s₁, sampleID) ∧
      (run step s₁ reports).workflowState sampleID = some row ∧ row.totalNumberOfActions = row.actionList.length ∧
      row.currentActionIndex = 1 ∧ row.currentTaskName = "os" ∧ row.currentActionName = "boot" ∧
      row.currentWorker = machine1 ∧ Every step (MovesIfAccepted sampleID) s₁ reports := by
  intro reports
  obtain ⟨s₁, hcreate, hrow⟩ := exists_second_running
  obtain ⟨⟨row, hrow', htotal, -⟩, hmoves⟩ := context_denotes_position hcreate reports
  obtain rfl := Option.some.inj (hrow'.symm.trans hrow)
  have hrecordable : ∀ name state, name = "stream" ∨ name = "boot" → state = .running ∨ state = .success →
      Recordable {} (reportOf "os" name state) := by
    rintro name state (rfl | rfl) (rfl | rfl) <;> exact ⟨rfl, _, rfl⟩
  refine ⟨s₁, _, hcreate, hrow, htotal, rfl, rfl, rfl, rfl, hmoves.2 ?_⟩
  rw [once_iff_not_every, not_not]
  refine every_of_forall_mem fun report hmem s htorn => ?_
  obtain ⟨-, -, -, ⟨-, -, -, -, hnot⟩, -⟩ := htorn
  simp only [reports, List.mem_cons, List.not_mem_nil, or_false] at hmem
  rcases hmem with rfl | rfl | rfl
  · exact hnot (hrecordable _ _ (.inl rfl) (.inl rfl))
  · exact hnot (hrecordable _ _ (.inl rfl) (.inr rfl))
  · exact hnot (hrecordable _ _ (.inr rfl) (.inl rfl))

private theorem exists_torn_move :
    ∃ s₁, createSample [("os", machine1, ["stream", "boot"])] = .ok (s₁, sampleID) ∧
      (run step s₁ [({}, reportOf "os" "stream" .running),
        ({}, reportOf "os" "stream" .success)]).workflowState sampleID =
        some (sampleRow [("os", machine1, ["stream", "boot"])] 0 .success) ∧
      (step (run step s₁ [({}, reportOf "os" "stream" .running), ({}, reportOf "os" "stream" .success)])
        ({}, { reportOf "os" "boot" .running with workerId := "" })).workflowState sampleID =
        some (sampleRow [("os", machine1, ["stream", "boot"])] 1 .running) ∧
      (reportActionStatus {} (run step s₁ [({}, reportOf "os" "stream" .running),
        ({}, reportOf "os" "stream" .success)]) { reportOf "os" "boot" .running with workerId := "" }).2 =
        .error ⟨.aborted, "INSERT in to workflow_event: pq: invalid input syntax for type uuid: "⟩ :=
  ⟨_, rfl, by decide +kernel⟩

/-- The first of two actions has succeeded.  The report that the second one runs comes without the id of a worker: it
is answered with an error, and the index has moved. -/
theorem aborted_report_moves_index :
    let reports : List Report := [({}, reportOf "os" "stream" .running), ({}, reportOf "os" "stream" .success)]
    let req : WorkflowActionStatus := { reportOf "os" "boot" .running with workerId := "" }
    ∃ s₁ row row', createSample [("os", machine1, ["stream", "boot"])] = .ok (s₁, sampleID) ∧
      (run step s₁ reports).workflowState sampleID = some row ∧ row.currentActionIndex = 0 ∧
      (∃ msg, (reportActionStatus {} (run step s₁ reports) req).2 = .error ⟨.aborted, msg⟩) ∧
      (step (run step s₁ reports) ({}, req)).workflowState sampleID = some row' ∧ row'.currentActionIndex = 1 := by
  obtain ⟨s₁, hcreate, hrow, hmoved, herror⟩ := exists_torn_move
  exact ⟨s₁, _, _, hcreate, hrow, rfl, ⟨_, herror⟩, hmoved, rfl⟩

/-! ### Reports delivered twice -/

/-- After a report was stored, the row admits it again exactly if it is no `RUNNING` report and the database
answers. -/
private theorem Placed.admits_again_iff (hp : Placed row) (hadm : Admits env row req) (env' : ReportEnv) :
    Admits env' (row.after req) req ↔
      req.actionStatus ≠ .running ∧ env'.contextsErr = none ∧ env'.actionsErr = none ∧ env'.updateErr = none := by
  obtain ⟨a, hget, htask, hname⟩ := hadm.action
  have hindex := (row.after req).reportIndex_eq req
  have hcur : (row.after req).currentActionIndex = row.reportIndex req := rfl
  have hne : (row.after req).currentActionName ≠ "" := hadm.action_ne
  have hpos : 0 ≤ row.reportIndex req := by
    have := hp.index_bounds.1
    have := row.index_after req
    omega
  constructor
  · intro h
    refine ⟨fun hr => ?_, h.contexts, h.actions, h.update⟩
    rw [if_pos ⟨hr, hne⟩, hcur] at hindex
    obtain ⟨b, hget', htask', hname'⟩ := h.action
    have hget' : row.actionList[((row.after req).reportIndex req).toNat]? = some b := hget'
    have := hp.position_unique hget hget' (htask.trans htask'.symm) (hname.trans hname'.symm)
    omega
  · rintro ⟨hr, hctx, hacts, hup⟩
    rw [if_neg fun h => hr h.1, hcur] at hindex
    refine ⟨hadm.task_ne, hadm.action_ne, hctx, hacts, hup, hadm.state, a, ?_, htask, hname⟩
    rw [hindex]
    exact hget

private theorem StateRow.after_again (row : StateRow) (h : req.actionStatus ≠ .running) :
    (row.after req).after req = row.after req := by
  have hindex : (row.after req).reportIndex req = row.reportIndex req := by
    rw [(row.after req).reportIndex_eq, if_neg fun hr => h hr.1]
    rfl
  unfold StateRow.after at hindex ⊢
  rw [hindex]

/-- In every reachable store and for every report that is stored: delivered again, the report is answered without an
error and leaves the rows as they are exactly if it is no `RUNNING` report and the database answers and takes its
event. -/
theorem retry_iff_not_running (hs : Reachable s) (hstored : reportUpdate env s req = .ok s') (env' : ReportEnv) :
    ((reportActionStatus env' (step s (env, req)) req).2 = .ok () ∧
        (reportActionStatus env' (step s (env, req)) req).1.workflowState = (step s (env, req)).workflowState) ↔
      req.actionStatus ≠ .running ∧ env'.contextsErr = none ∧ env'.actionsErr = none ∧ env'.updateErr = none ∧
        Recordable env' req := by
  obtain ⟨id, row, row', hid, hrow, -, happ, hs'⟩ := reportUpdate_eq_ok.1 hstored
  have hp := hs.placed hrow
  have hadm := (hp.updates_iff hid hrow).1 ⟨s', hstored⟩
  have hp' := hp.of_applied happ
  rw [hp.eq_after happ] at hs' hp'
  have hrow' : (step s (env, req)).workflowState id = some (row.after req) := by
    rw [step_of_update hstored, hs']
    exact Function.update_self _ _ _
  have hagain := hp.admits_again_iff hadm env'
  by_cases h : Admits env' (row.after req) req
  · have hu := hp'.reportUpdate_eq hid hrow' h
    have hsame : Function.update (step s (env, req)).workflowState id (some ((row.after req).after req)) =
        (step s (env, req)).workflowState := by
      rw [row.after_again (hagain.1 h).1, Function.update_eq_self_iff, hrow']
    rw [hsame] at hu
    obtain ⟨hr, hctx, hacts, hup⟩ := hagain.1 h
    rcases reportActionStatus_of_update hu with ⟨hrec, e, -, hout⟩ | ⟨hrec, msg, hout⟩
    · rw [hout]
      simp [hr, hctx, hacts, hup, hrec]
    · rw [hout]
      simp [hrec]
  · refine iff_of_false ?_ ?_
    · rintro ⟨hok, -⟩
      exact h (hp'.admits_of_ok hid hrow' hok)
    · rintro ⟨hr, hctx, hacts, hup, -⟩
      exact h (hagain.2 ⟨hr, hctx, hacts, hup⟩)

theorem retry_iff_not_running_success :
    ∃ s₁ s', createSample [("os", machine1, ["stream"])] = .ok (s₁, sampleID) ∧
      reportUpdate {} s₁ (reportOf "os" "stream" .success) = .ok s' ∧
      (reportActionStatus {} (step s₁ ({}, reportOf "os" "stream" .success)) (reportOf "os" "stream" .success)).2 =
        .ok () := by
  have hcreate : createSample [("os", machine1, ["stream"])] = .ok (_, sampleID) := rfl
  have h := retry_iff_not_running (.create .empty hcreate) (show reportUpdate {} _ (reportOf "os" "stream" .success) =
    .ok _ from rfl) {}
  exact ⟨_, _, hcreate, rfl, (h.2 ⟨by decide, rfl, rfl, rfl, rfl, _, rfl⟩).1⟩

/-- The first report of a workflow, delivered twice: the second answer is an error. -/
theorem repeated_running_rejected :
    ∃ s₁ s' e, createSample [("os", machine1, ["stream", "boot"])] = .ok (s₁, sampleID) ∧
      reportUpdate {} s₁ (reportOf "os" "stream" .running) = .ok s' ∧
      (reportActionStatus {} s₁ (reportOf "os" "stream" .running)).2 = .ok () ∧
      (reportActionStatus {} (step s₁ ({}, reportOf "os" "stream" .running)) (reportOf "os" "stream" .running)).2 =
        .error e :=
  ⟨_, _, _, rfl, rfl, rfl, rfl⟩

end Tink.Db
