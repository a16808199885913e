import Tink.Db.Position

/-!
# The workflow tables over time

The tables `workflow`, `workflow_state` and `workflow_worker_map` under all calls that change them: `CreateWorkflow`,
`ReportActionStatus`, `UpdateWorkflow` and `DeleteWorkflow` (`db/workflow.go`).  A deleted workflow keeps its row in
the first table, marked, and loses those in the other two.  Every call but a report is one transaction, and a
statement of it that fails leaves the tables as they were.

Three tables are kept in step: `Intact` says how they belong together, and every call keeps it (`Tables.Intact.step`).
-/

namespace Tink.Db

open Pg Machine

/-- The tables, and the ids of the rows of `workflow` in the order in which a query meets them. -/
structure Tables where
  store : Store := {}
  workflowIds : List UUID := []

/-- The errors of the statements of `DeleteWorkflow`. -/
structure DeleteEnv where
  beginErr : Option String := none
  mapErr : Option String := none
  stateErr : Option String := none
  updateErr : Option String := none
  commitErr : Option String := none

/-- A statement: the tables after it, if it does not fail. -/
def exec (statement : String) (failure : Option String) (s : Store) : Except String Store :=
  match failure with
  | some e => .error (statement ++ ": " ++ e)
  | none => .ok s

/-- `TinkDB.DeleteWorkflow`; what it returns was committed. -/
def deleteWorkflow (env : DeleteEnv) (s : Store) (id : String) : Except String Store := do
  let s ← exec "BEGIN transaction" env.beginErr s
  match uuidColumn id with
  | .error e => .error ("Delete Workflow Error: " ++ e)
  | .ok u =>
    let s ← exec "Delete Workflow Error" env.mapErr
      { s with workflowWorkerMap := s.workflowWorkerMap.filter fun row => row.1 ≠ u }
    let s ← exec "Delete Workflow Error" env.stateErr
      { s with workflowState := Function.update s.workflowState u none }
    let s ← exec "UPDATE" env.updateErr
      { s with workflow := Function.update s.workflow u ((s.workflow u).map fun row => { row with deleted := true }) }
    if (s.workflow u).isNone then .error ("not found, id:" ++ id) else exec "COMMIT" env.commitErr s

/-- The columns set by `UpdateWorkflow`; whether the devices are JSON is up to the database. -/
def updateWorkflowColumns (template hardware : String) : Except String (WorkflowRow → WorkflowRow) :=
  if hardware = "" ∧ template ≠ "" then do
    let template ← uuidColumn template
    pure fun row => { row with template := template.toString }
  else if hardware ≠ "" ∧ template = "" then pure fun row => { row with devices := hardware }
  else do
    let template ← uuidColumn template
    pure fun row => { row with template := template.toString, devices := hardware }

/-- `TinkDB.UpdateWorkflow`. -/
def updateWorkflow (failure : Option String) (s : Store) (id template hardware : String) : Except String Store :=
  match failure with
  | some e => .error e
  | none =>
    match (do let u ← uuidColumn id; let set ← updateWorkflowColumns template hardware; pure (u, set)) with
    | .error e => .error ("UPDATE: " ++ e)
    | .ok (u, set) => .ok { s with workflow := Function.update s.workflow u ((s.workflow u).map set) }

/-- A call that changes the tables. -/
inductive WorkflowCall where
  | create (reg : Registry) (env : CreateEnv) (template hardware : String)
  | report (env : ReportEnv) (req : WorkflowActionStatus)
  | update (failure : Option String) (id template hardware : String)
  | delete (env : DeleteEnv) (id : String)

section

variable {H : Type} (r : Template.Renderer H)

/-- The tables after a call. -/
def Tables.step (t : Tables) : WorkflowCall → Tables
  | .create reg env template hardware =>
    match createWorkflow r reg env t.store template hardware with
    | .ok (s, id) =>
      { store := s, workflowIds := if id ∈ t.workflowIds then t.workflowIds else t.workflowIds ++ [id] }
    | .error _ => t
  | .report env req => { t with store := (reportActionStatus env t.store req).1 }
  | .update failure id template hardware =>
    { t with store := (updateWorkflow failure t.store id template hardware).toOption.getD t.store }
  | .delete env id => { t with store := (deleteWorkflow env t.store id).toOption.getD t.store }

end

/-- `pb.Workflow`, without the times. -/
structure WorkflowMessage where
  id : String
  template : String
  hardware : String
  state : State

/-- `DBServer.ListWorkflows`, if every message is sent. -/
def listWorkflows (failure : Option String) (t : Tables) : Except String (List WorkflowMessage) :=
  match failure with
  | some e => .error e
  | none => .ok (t.workflowIds.filterMap fun id =>
      match t.store.workflow id with
      | some row =>
        if row.deleted then none
        else some ⟨id.toString, row.template, row.devices, getWorkflowState none t.store id.toString⟩
      | none => none)

/-! ### How the tables belong together -/

/-- The workflow has a row that is not marked as deleted. -/
def Store.Live (s : Store) (id : UUID) : Prop := ∃ row, s.workflow id = some row ∧ row.deleted = false

/-- Exactly the live workflows have a state, and only they have workers. -/
structure Intact (s : Store) : Prop where
  state_iff : ∀ id, (∃ row, s.workflowState id = some row) ↔ s.Live id
  workers : ∀ row ∈ s.workflowWorkerMap, s.Live row.1

variable {H : Type} {r : Template.Renderer H} {reg : Registry} {s s' : Store} {id : UUID}

/-- Liveness after the row of one workflow was set. -/
theorem live_of_update {u : UUID} {x : Option WorkflowRow} (h : s'.workflow = Function.update s.workflow u x)
    (id : UUID) :
    s'.Live id ↔ if id = u then ∃ row, x = some row ∧ row.deleted = false else s.Live id := by
  unfold Store.Live
  rw [h]
  by_cases hid : id = u
  · rw [if_pos hid, hid, Function.update_self]
  · rw [if_neg hid, Function.update_of_ne hid]

private theorem Intact.create (h : Intact s) {env : CreateEnv} {template hardware : String}
    (hok : createWorkflow r reg env s template hardware = .ok (s', id)) : Intact s' := by
  obtain ⟨-, text, data, s₁, -, -, hins, rfl⟩ := createWorkflow_eq_ok hok
  obtain ⟨wf, actions, workers, -, -, -, -, rfl⟩ := insertActionList_ok hins
  refine ⟨fun id' => ?_, fun row hrow => ?_⟩
  · rw [live_of_update rfl]
    show (∃ row, Function.update s.workflowState id _ id' = some row) ↔ _
    by_cases hid : id' = id
    · rw [if_pos hid, hid, Function.update_self]
      exact iff_of_true ⟨_, rfl⟩ ⟨_, rfl, rfl⟩
    · rw [if_neg hid, Function.update_of_ne hid]
      exact h.state_iff id'
  · rw [live_of_update rfl]
    split
    · exact ⟨_, rfl, rfl⟩
    · rename_i hid
      rcases (mem_foldl_insertIntoWfWorkerTable id).1 hrow with hrow | ⟨hrow, -⟩
      · exact h.workers row hrow
      · exact absurd hrow hid

private theorem Intact.report (h : Intact s) (env : ReportEnv) (req : WorkflowActionStatus) :
    Intact (reportActionStatus env s req).1 := by
  rcases reportActionStatus_cases env s req with heq | ⟨u, row, row', events, hrow, heq⟩
  · rw [heq]
    exact h
  · rw [heq]
    refine ⟨fun id => ?_, h.workers⟩
    refine Iff.trans ?_ (h.state_iff id)
    show (∃ row, Function.update s.workflowState u (some row') id = some row) ↔ _
    by_cases hid : id = u
    · rw [hid, Function.update_self]
      exact iff_of_true ⟨row', rfl⟩ ⟨row, hrow⟩
    · rw [Function.update_of_ne hid]

private theorem updateWorkflow_eq_ok {failure : Option String} {wfID template hardware : String}
    (h : updateWorkflow failure s wfID template hardware = .ok s') :
    ∃ u set, (∀ row : WorkflowRow, (set row).deleted = row.deleted) ∧
      s' = { s with workflow := Function.update s.workflow u ((s.workflow u).map set) } := by
  unfold updateWorkflow at h
  split at h
  · cases h
  · split at h
    · cases h
    · rename_i u set hcols
      cases h
      refine ⟨u, set, fun row => ?_, rfl⟩
      obtain ⟨u', -, hcols⟩ := except_bind_eq_ok.1 hcols
      obtain ⟨set', hset, hcols⟩ := except_bind_eq_ok.1 hcols
      cases hcols
      unfold updateWorkflowColumns at hset
      split at hset
      · obtain ⟨_, -, hset⟩ := except_bind_eq_ok.1 hset
        cases hset
        rfl
      · split at hset
        · cases hset
          rfl
        · obtain ⟨_, -, hset⟩ := except_bind_eq_ok.1 hset
          cases hset
          rfl

private theorem Intact.update (h : Intact s) {failure : Option String} {wfID template hardware : String}
    (hok : updateWorkflow failure s wfID template hardware = .ok s') : Intact s' := by
  obtain ⟨u, set, hset, rfl⟩ := updateWorkflow_eq_ok hok
  have hlive : ∀ id, Store.Live { s with workflow := Function.update s.workflow u ((s.workflow u).map set) } id ↔
      s.Live id := by
    intro id
    rw [live_of_update rfl]
    split
    · rename_i hid
      rw [hid]
      unfold Store.Live
      cases s.workflow u with
      | none => simp
      | some row => simp [hset]
    · rfl
  exact ⟨fun id => (h.state_iff id).trans (hlive id).symm, fun row hrow => (hlive row.1).2 (h.workers row hrow)⟩

private theorem exec_eq_ok {statement : String} {failure : Option String} {s₁ : Store} :
    exec statement failure s = .ok s₁ ↔ failure = none ∧ s = s₁ := by
  unfold exec
  cases failure <;> simp

private theorem deleteWorkflow_eq_ok {env : DeleteEnv} {wfID : String} (h : deleteWorkflow env s wfID = .ok s') :
    ∃ u row, s.workflow u = some row ∧ s' = { s with
      workflowWorkerMap := s.workflowWorkerMap.filter fun row => row.1 ≠ u
      workflowState := Function.update s.workflowState u none
      workflow := Function.update s.workflow u (some { row with deleted := true }) } := by
  unfold deleteWorkflow at h
  obtain ⟨s₀, hbegin, h⟩ := except_bind_eq_ok.1 h
  obtain ⟨-, rfl⟩ := exec_eq_ok.1 hbegin
  cases hid : uuidColumn wfID with
  | error e => simp [hid] at h
  | ok u =>
    simp only [hid] at h
    obtain ⟨s₁, h1, h⟩ := except_bind_eq_ok.1 h
    obtain ⟨-, rfl⟩ := exec_eq_ok.1 h1
    obtain ⟨s₂, h2, h⟩ := except_bind_eq_ok.1 h
    obtain ⟨-, rfl⟩ := exec_eq_ok.1 h2
    obtain ⟨s₃, h3, h⟩ := except_bind_eq_ok.1 h
    obtain ⟨-, rfl⟩ := exec_eq_ok.1 h3
    split at h
    · cases h
    · rename_i hsome
      obtain ⟨-, rfl⟩ := exec_eq_ok.1 h
      cases hrow : s.workflow u with
      | none => simp [hrow] at hsome
      | some row => exact ⟨u, row, hrow, by simp⟩

private theorem Intact.delete (h : Intact s) {env : DeleteEnv} {wfID : String}
    (hok : deleteWorkflow env s wfID = .ok s') :
    Intact s' := by
  obtain ⟨u, row, hrow, rfl⟩ := deleteWorkflow_eq_ok hok
  refine ⟨fun id => ?_, fun p hp => ?_⟩
  · rw [live_of_update rfl]
    show (∃ row, Function.update s.workflowState u none id = some row) ↔ _
    by_cases hid : id = u
    · rw [if_pos hid, hid, Function.update_self]
      simp
    · rw [if_neg hid, Function.update_of_ne hid]
      exact h.state_iff id
  · obtain ⟨hp, hne⟩ := List.mem_filter.1 hp
    have hne' : p.1 ≠ u := by simpa using hne
    rw [live_of_update rfl, if_neg hne']
    exact h.workers p hp

/-! ### Runs -/

/-- The tables belong together, and the ids are those of the rows of `workflow`. -/
structure Tables.Intact (t : Tables) : Prop where
  store : Db.Intact t.store
  ids : ∀ id, id ∈ t.workflowIds ↔ ∃ row, t.store.workflow id = some row

variable {t : Tables}

private theorem Tables.Intact.step (h : t.Intact) (call : WorkflowCall) : (t.step r call).Intact := by
  cases call with
  | create reg env template hardware =>
    rw [Tables.step]
    cases hok : createWorkflow r reg env t.store template hardware with
    | error e => exact h
    | ok p =>
      obtain ⟨s, id⟩ := p
      refine ⟨h.store.create hok, fun id' => ?_⟩
      obtain ⟨-, text, data, s₁, -, -, hins, rfl⟩ := createWorkflow_eq_ok hok
      obtain ⟨wf, actions, workers, -, -, -, -, rfl⟩ := insertActionList_ok hins
      show id' ∈ (if id ∈ t.workflowIds then t.workflowIds else t.workflowIds ++ [id]) ↔
        ∃ row, Function.update t.store.workflow id _ id' = some row
      have hmem : id' ∈ (if id ∈ t.workflowIds then t.workflowIds else t.workflowIds ++ [id]) ↔
          id' = id ∨ id' ∈ t.workflowIds := by
        split
        · rename_i hin
          constructor
          · exact .inr
          · rintro (rfl | hin')
            · exact hin
            · exact hin'
        · rw [List.mem_append, List.mem_singleton, or_comm]
      rw [hmem, h.ids]
      by_cases hid : id' = id
      · rw [hid, Function.update_self]
        exact iff_of_true (.inl rfl) ⟨_, rfl⟩
      · rw [Function.update_of_ne hid]
        simp [hid]
  | report env req =>
    refine ⟨h.store.report env req, fun id => ?_⟩
    show id ∈ t.workflowIds ↔ ∃ row, (reportActionStatus env t.store req).1.workflow id = some row
    rw [h.ids]
    rcases reportActionStatus_cases env t.store req with heq | ⟨u, row, row', events, -, heq⟩
    · rw [heq]
    · rw [heq]
  | update failure wfID template hardware =>
    rw [Tables.step]
    cases hok : updateWorkflow failure t.store wfID template hardware with
    | error e => exact h
    | ok s =>
      refine ⟨h.store.update hok, fun id => ?_⟩
      obtain ⟨u, set, -, rfl⟩ := updateWorkflow_eq_ok hok
      show id ∈ t.workflowIds ↔ ∃ row, Function.update t.store.workflow u _ id = some row
      rw [h.ids]
      by_cases hid : id = u
      · rw [hid, Function.update_self]
        cases t.store.workflow u <;> simp
      · rw [Function.update_of_ne hid]
  | delete env wfID =>
    rw [Tables.step]
    cases hok : deleteWorkflow env t.store wfID with
    | error e => exact h
    | ok s =>
      refine ⟨h.store.delete hok, fun id => ?_⟩
      obtain ⟨u, row, hrow, rfl⟩ := deleteWorkflow_eq_ok hok
      show id ∈ t.workflowIds ↔ ∃ row, Function.update t.store.workflow u _ id = some row
      rw [h.ids]
      by_cases hid : id = u
      · rw [hid, Function.update_self, hrow]
        exact iff_of_true ⟨row, rfl⟩ ⟨_, rfl⟩
      · rw [Function.update_of_ne hid]

private theorem intact_run {H : Type} (r : Template.Renderer H) (calls : List WorkflowCall) :
    (run (Tables.step r) {} calls).Intact := by
  refine run_inv (I := Tables.Intact) ⟨⟨fun id => ?_, ?_⟩, fun id => ?_⟩ fun t call h => h.step call
  · refine iff_of_false ?_ ?_
    · rintro ⟨row, hrow⟩
      cases hrow
    · rintro ⟨row, hrow, -⟩
      cases hrow
  · simp
  · simp

/-- The calls create no workflow of this id. -/
def Fresh (id : UUID) (calls : List WorkflowCall) : Prop :=
  ∀ reg env template hardware, .create reg env template hardware ∈ calls → env.id ≠ id

/-- A workflow with a state has a context. -/
private theorem context_iff_state (s : Store) (id : UUID) :
    (∃ c, getWorkflowContexts none s id.toString = .ok c) ↔ ∃ row, s.workflowState id = some row := by
  constructor
  · rintro ⟨c, hc⟩
    obtain ⟨-, id', row, hid, hrow, -⟩ := getWorkflowContexts_eq_ok.1 hc
    rw [UUID.ofString?_toString, Option.some.injEq] at hid
    exact ⟨row, by rw [hid]; exact hrow⟩
  · rintro ⟨row, hrow⟩
    exact ⟨_, getWorkflowContexts_eq_ok.2 ⟨rfl, id, row, UUID.ofString?_toString id, hrow, rfl⟩⟩

/-- The workflows listed are the live ones. -/
private theorem mem_listWorkflows (h : t.Intact) {messages : List WorkflowMessage}
    (hlist : listWorkflows none t = .ok messages)
    (id : String) : id ∈ messages.map WorkflowMessage.id ↔ ∃ u : UUID, id = u.toString ∧ t.store.Live u := by
  rw [listWorkflows, Except.ok.injEq] at hlist
  subst hlist
  simp only [List.mem_map, List.mem_filterMap]
  constructor
  · rintro ⟨m, ⟨u, -, hm⟩, rfl⟩
    cases hrow : t.store.workflow u with
    | none =>
      rw [hrow] at hm
      cases hm
    | some row =>
      cases hdel : row.deleted with
      | true =>
        simp [hrow, hdel] at hm
      | false =>
        simp only [hrow, hdel, Bool.false_eq_true, if_false, Option.some.injEq] at hm
        rw [← hm]
        exact ⟨u, rfl, row, hrow, hdel⟩
  · rintro ⟨u, rfl, row, hrow, hdel⟩
    have hu : u ∈ t.workflowIds := (h.ids u).2 ⟨row, hrow⟩
    refine ⟨⟨u.toString, row.template, row.devices, getWorkflowState none t.store u.toString⟩, ⟨u, hu, ?_⟩, rfl⟩
    simp only [hrow, hdel, Bool.false_eq_true, if_false]

/-- After any calls, successful or not: exactly the live workflows have a state; every row of the worker map is one of
a live workflow; so every workflow found for a worker has a context, and the workflows listed are those with a
context. -/
theorem tables_intact {H : Type} (r : Template.Renderer H) (calls : List WorkflowCall) :
    let t := run (Tables.step r) {} calls
    (∀ id, (∃ row, t.store.workflowState id = some row) ↔
      ∃ row, t.store.workflow id = some row ∧ row.deleted = false) ∧
      (∀ row ∈ t.store.workflowWorkerMap, ∃ wf, t.store.workflow row.1 = some wf ∧ wf.deleted = false) ∧
      (∀ worker wfs, getWorkflowsForWorker none t.store worker = .ok wfs →
        ∀ wf ∈ wfs, ∃ c, getWorkflowContexts none t.store wf = .ok c) ∧
      ∃ messages, listWorkflows none t = .ok messages ∧
        ∀ id, id ∈ messages.map WorkflowMessage.id ↔
          ∃ u : UUID, id = u.toString ∧ ∃ c, getWorkflowContexts none t.store id = .ok c := by
  intro t
  have h : t.Intact := intact_run r calls
  refine ⟨h.store.state_iff, h.store.workers, fun worker wfs hwfs wf hwf => ?_, _, rfl, fun id => ?_⟩
  · obtain ⟨-, u, -, rfl⟩ := getWorkflowsForWorker_eq_ok.1 hwfs
    obtain ⟨row, hrow, rfl⟩ := List.mem_map.1 hwf
    have hlive : t.store.Live row.1 := h.store.workers row (List.mem_of_mem_filter hrow)
    exact (context_iff_state t.store row.1).2 ((h.store.state_iff row.1).2 hlive)
  · rw [mem_listWorkflows h rfl]
    refine exists_congr fun u => and_congr_right fun hid => ?_
    rw [hid, context_iff_state, h.store.state_iff]

end Tink.Db
