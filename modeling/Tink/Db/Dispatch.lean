import Tink.Db.Position
import Tink.Worker.Turn

/-!
# Dispatch on the database backend

`GetWorkflowContexts` goes through the workflows listed for a worker and sends those of which `isApplicableToSend`
says so, and the worker then decides by itself whether it is its turn.  The worker's decision is the one the row calls
for, at every position of the list (`turn_iff_due`).  The server's is not: once the action that succeeded is not the
first one, it waits for the last, so a workflow of three actions or more is invisible to every worker in between.

What a poll sends is decided by the row, if the poll gets as far (`streamed_iff`).  It does not if the workflow is not
listed for the worker, which can only be if the worker has the zero id (`Reachable.mapped`), or if a workflow without
actions is listed before it, on which the poll panics.  `dispatch_exact_iff` puts this together.
-/

namespace Tink.Db

open Pg Machine Worker

variable {H : Type} {r : Template.Renderer H} {reg : Registry} {s : Store} {row : StateRow} {id : UUID}
  {workerID : String}

/-- The workflow is not over: neither failed nor timed out, nor successful at its last action. -/
def StateRow.Unfinished (row : StateRow) : Prop :=
  row.currentActionState ≠ .failed ∧ row.currentActionState ≠ .timeout ∧
    ¬ (row.currentActionState = .success ∧ row.currentActionIndex = (row.actionList.length : Int) - 1)

/-- The action to run next. -/
def StateRow.nextAction? (row : StateRow) : Option WorkflowAction :=
  if row.currentActionState = .success then row.actionList[(row.currentActionIndex + 1).toNat]?
  else row.actionList[row.currentActionIndex.toNat]?

/-- The workflow is unfinished and the next action is this worker's. -/
def StateRow.Due (row : StateRow) (workerID : String) : Prop :=
  row.Unfinished ∧ ∃ a, row.nextAction? = some a ∧ a.workerId = workerID

/-- The last action to succeed is neither the first nor the last of the list. -/
def StateRow.BetweenActions (row : StateRow) : Prop :=
  row.currentActionState = .success ∧ 0 < row.currentActionIndex ∧ row.currentActionIndex + 1 < row.actionList.length

private theorem isLastAction_iff {wfID : String} :
    isLastAction (row.context wfID) row.actionList = true ↔
      row.currentActionIndex = (row.actionList.length : Int) - 1 :=
  decide_eq_true_iff

/-- Wherever a row can stand, the worker takes its turn exactly when the next action is its own. -/
theorem turn_iff_due (hp : Positioned row) (wfID : String) :
    (∃ i, turn workerID (row.context wfID) row.actionList = .ok (some i)) ↔ row.Due workerID := by
  have hstate : (row.context wfID).currentActionState = row.currentActionState := rfl
  have hindex : (row.context wfID).currentActionIndex = row.currentActionIndex := rfl
  unfold StateRow.Due StateRow.Unfinished StateRow.nextAction?
  rcases hp.place with hun | ⟨hne, i, action, hidx, hget, -⟩
  · rw [turn_of_unreported hun.action, startAt_eq_some]
    simp [hun.state, hun.index]
  · rw [turn_of_reported hne, hstate, hindex]
    have hpos : 0 ≤ row.currentActionIndex := by omega
    have hsucc : 0 ≤ row.currentActionIndex + 1 := by omega
    by_cases hs : row.currentActionState = .success
    · rw [if_pos hs]
      by_cases hl : isLastAction (row.context wfID) row.actionList = true
      · rw [if_pos hl]
        simp [hs, isLastAction_iff.1 hl]
      · have hnl : row.currentActionIndex ≠ (row.actionList.length : Int) - 1 := fun h => hl (isLastAction_iff.2 h)
        rw [if_neg hl, startAt_eq_some]
        simp [hs, hnl, hsucc]
    · rw [if_neg hs]
      by_cases hfinal : row.currentActionState = .failed ∨ row.currentActionState = .timeout
      · rw [if_pos hfinal]
        rcases hfinal with h | h <;> simp [h]
      · rw [if_neg hfinal, startAt_eq_some]
        obtain ⟨hf, ht⟩ := not_or.1 hfinal
        simp [hs, hf, ht, hpos]

/-- Wherever a row can stand, the server sends the workflow exactly to the worker of the next action, and to nobody
between actions. -/
theorem isApplicableToSend_iff_due (hp : Positioned row) {wfID : String} (hid : UUID.ofString? wfID = some id)
    (hrow : s.workflowState id = some row) :
    isApplicableToSend none s (row.context wfID) workerID = .ok true ↔ row.Due workerID ∧ ¬ row.BetweenActions := by
  have hactions : getWorkflowActions none s (row.context wfID).workflowId = .ok row.actionList :=
    getWorkflowActions_eq hid hrow
  have hstate : (row.context wfID).currentActionState = row.currentActionState := rfl
  have hindex : (row.context wfID).currentActionIndex = row.currentActionIndex := rfl
  obtain ⟨hpos, -, hlt⟩ := hp.index_bounds
  unfold isApplicableToSend applicableTo StateRow.Due StateRow.Unfinished StateRow.nextAction? StateRow.BetweenActions
  rw [hactions, hstate, hindex]
  dsimp only
  by_cases hfinal : row.currentActionState = .failed ∨ row.currentActionState = .timeout
  · rw [if_pos hfinal]
    rcases hfinal with h | h <;> simp [h]
  · obtain ⟨hf, ht⟩ := not_or.1 hfinal
    rw [if_neg hfinal]
    by_cases hs : row.currentActionState = .success
    · rw [if_pos hs]
      by_cases hl : isLastAction (row.context wfID) row.actionList = true
      · rw [if_pos hl]
        simp [hs, isLastAction_iff.1 hl]
      · have hnl : row.currentActionIndex ≠ (row.actionList.length : Int) - 1 := fun h => hl (isLastAction_iff.2 h)
        rw [if_neg hl]
        by_cases hz : row.currentActionIndex = 0
        · rw [if_pos hz, Outcome.index_bind_pure_eq_ok]
          simp [hs, hz]
          omega
        · rw [if_neg hz]
          -- a report brought the row here, so its index is in the list, and it is not the last one
          have hne := hp.action_ne fun hun => hz hun.index
          have := hlt hne
          have hbetween : 0 < row.currentActionIndex ∧ row.currentActionIndex + 1 < row.actionList.length := by omega
          simp [hs, hbetween]
    · rw [if_neg hs, Outcome.index_bind_pure_eq_ok]
      simp [hs, hf, ht, hpos]

private theorem Positioned.exists_due (hp : Positioned row) (hne : row.actionList ≠ []) (h : row.Unfinished) :
    ∃ w, row.Due w := by
  suffices hnext : ∃ a, row.nextAction? = some a by
    obtain ⟨a, ha⟩ := hnext
    exact ⟨a.workerId, h, a, ha, rfl⟩
  have hlen := List.length_pos_iff.2 hne
  obtain ⟨hpos, hzero, hlt⟩ := hp.index_bounds
  have hindex : row.currentActionIndex < row.actionList.length := by
    by_cases hname : row.currentActionName = ""
    · have := hzero hname; omega
    · exact hlt hname
  unfold StateRow.nextAction?
  split
  · rename_i hs
    have hnl : row.currentActionIndex ≠ (row.actionList.length : Int) - 1 := fun hl => h.2.2 ⟨hs, hl⟩
    exact ⟨_, List.getElem?_eq_getElem (by omega)⟩
  · exact ⟨_, List.getElem?_eq_getElem (by omega)⟩

/-- The workers of the list are mapped to the workflow, up to the zero id, which `insertActionList` starts from. -/
def Mapped (s : Store) (id : UUID) (actions : List WorkflowAction) : Prop :=
  ∀ a ∈ actions, ∃ u, a.workerId = u.toString ∧ (u = UUID.zero ∨ (id, u) ∈ s.workflowWorkerMap)

private theorem collectTasks_workers {unique : UUID} {tasks : List Template.Task} {actions : List WorkflowAction}
    {workers : List UUID} (h : collectTasks reg unique tasks = .ok (actions, workers)) :
    ∀ a ∈ actions, ∃ u, a.workerId = u.toString ∧ (u = unique ∨ u ∈ workers) := by
  induction tasks generalizing unique actions workers with
  | nil =>
    cases h
    simp
  | cons task tasks ih =>
    obtain ⟨u, actions', workers', hrest, rfl, rfl, -⟩ := collectTasks_cons h
    -- the worker of this task is the one before, or it is inserted
    have hself : u = unique ∨ u ∈ (if unique ≠ u then u :: workers' else workers') := by
      by_cases hu : unique = u
      · left; exact hu.symm
      · right; simp [hu]
    intro a ha
    rcases List.mem_append.1 ha with ha | ha
    · obtain ⟨ac, -, rfl⟩ := List.mem_map.1 ha
      exact ⟨u, rfl, hself⟩
    · obtain ⟨v, hv, rfl | hmem⟩ := ih hrest a ha
      · exact ⟨v, hv, hself⟩
      · refine ⟨v, hv, Or.inr ?_⟩
        split
        · exact List.mem_cons_of_mem u hmem
        · exact hmem

theorem createWorkflow_mapped {env : CreateEnv} {s' : Store} {template hardware : String}
    (h : createWorkflow r reg env s template hardware = .ok (s', id)) (hrow : s'.workflowState id = some row) :
    Mapped s' id row.actionList := by
  obtain ⟨-, text, data, s₁, -, -, hins, rfl⟩ := createWorkflow_eq_ok h
  obtain ⟨wf, actions, workers, -, hcol, -, -, rfl⟩ := insertActionList_ok hins
  have hlist : actions = row.actionList := by
    simp only [Function.update_self, Option.some.injEq] at hrow
    rw [← hrow]
  rw [← hlist]
  intro a ha
  obtain ⟨u, hu, hmem⟩ := collectTasks_workers hcol a ha
  refine ⟨u, hu, ?_⟩
  rcases hmem with h | h
  · left; exact h
  · right
    exact (mem_foldl_insertIntoWfWorkerTable id).2 (.inr ⟨rfl, h⟩)

/-- In every reachable store the workers of a list are mapped to the workflow, up to the zero id. -/
theorem Reachable.mapped (hs : Reachable s) (hrow : s.workflowState id = some row) : Mapped s id row.actionList := by
  induction hs generalizing row with
  | empty => cases hrow
  | @create _ _ _ _ s s' _ _ id' _ hc ih =>
    by_cases he : id = id'
    · subst he
      exact createWorkflow_mapped hc hrow
    · obtain ⟨row₁, hrows, -⟩ := createWorkflow_rows hc
      rw [hrows, Function.update_of_ne he] at hrow
      obtain ⟨-, text, data, s₁, -, -, hins, rfl⟩ := createWorkflow_eq_ok hc
      obtain ⟨wf, actions, workers, -, -, -, -, rfl⟩ := insertActionList_ok hins
      intro a ha
      obtain ⟨u, hu, hz | hmem⟩ := ih hrow a ha
      · exact ⟨u, hu, .inl hz⟩
      · exact ⟨u, hu, .inr ((mem_foldl_insertIntoWfWorkerTable _).2 (.inl hmem))⟩
  | @report s hs report ih =>
    obtain ⟨row₀, hrow₀⟩ := workflowState_of_step _ hrow
    obtain ⟨row', hrow', hcases⟩ := step_row hrow₀ report
    rw [hrow] at hrow'
    cases hrow'
    have hlist : row.actionList = row₀.actionList := by
      rcases hcases with rfl | ⟨-, happ, -⟩
      · rfl
      · exact ((hs.positioned hrow₀).of_applied happ).2
    unfold Mapped
    rw [hlist, step_workflowWorkerMap]
    exact ih hrow₀

private theorem StateRow.mem_of_nextAction? {a : WorkflowAction} (row : StateRow) (h : row.nextAction? = some a) :
    a ∈ row.actionList := by
  unfold StateRow.nextAction? at h
  split at h <;> exact List.mem_of_getElem? h

/-! ### The stream -/

/-- A context whose action list cannot be read is not sent. -/
theorem isApplicableToSend_failed (e : String) (c : WorkflowContext) :
    isApplicableToSend (some e) s c workerID ≠ .ok true := by
  have hindex : ∀ i : Int, (Outcome.index ([] : List WorkflowAction) i : Outcome Empty WorkflowAction) = .panic := by
    intro i
    rw [Outcome.index_eq_panic, List.length_nil]
    omega
  have hactions : getWorkflowActions (some e) s c.workflowId = .ok [] := rfl
  unfold isApplicableToSend
  rw [hactions]
  unfold applicableTo
  simp only [hindex, Outcome.panic_bind]
  split
  · simp
  · split
    · split
      · simp
      · split <;> simp
    · simp

/-- The workflows listed for a worker, in the order of the query. -/
def Store.listed (s : Store) (u : UUID) : List UUID := (s.workflowWorkerMap.filter fun row => row.2 = u).map Prod.fst

/-- A poll of the worker gets as far as the workflow: it is listed, and the workflows listed before it have
actions. -/
def Reached (s : Store) (u id : UUID) : Prop :=
  ∃ before after, s.listed u = before ++ id :: after ∧
    ∀ id' ∈ before, ∀ row, s.workflowState id' = some row → row.actionList ≠ []

private theorem Reachable.listed (hs : Reachable s) {p : UUID × UUID} (hp : p ∈ s.workflowWorkerMap) :
    ∃ row, s.workflowState p.1 = some row := by
  induction hs with
  | empty => cases hp
  | create _ hc ih =>
    obtain ⟨row, hrows, -⟩ := createWorkflow_rows hc
    obtain ⟨-, text, data, s₁, -, -, hins, rfl⟩ := createWorkflow_eq_ok hc
    obtain ⟨wf, actions, workers, -, -, -, -, rfl⟩ := insertActionList_ok hins
    rw [hrows, Function.update_apply]
    split
    · exact ⟨row, rfl⟩
    · rename_i hne
      exact ih (((mem_foldl_insertIntoWfWorkerTable _).1 hp).resolve_right fun h => hne h.1)
  | report _ report ih =>
    rw [step_workflowWorkerMap] at hp
    obtain ⟨row, hrow⟩ := ih hp
    obtain ⟨row', hrow', -⟩ := step_row hrow report
    exact ⟨row', hrow'⟩

private theorem exists_split_cons {α : Type} {x : α} {xs : List α} {P Q : α → Prop} :
    (∃ before y after, x :: xs = before ++ y :: after ∧ (∀ z ∈ before, P z) ∧ Q y) ↔
      Q x ∨ (P x ∧ ∃ before y after, xs = before ++ y :: after ∧ (∀ z ∈ before, P z) ∧ Q y) := by
  constructor
  · rintro ⟨before, y, after, heq, hbefore, hy⟩
    cases before with
    | nil =>
      cases heq
      left; exact hy
    | cons z before =>
      cases heq
      obtain ⟨hz, hbefore⟩ := List.forall_mem_cons.1 hbefore
      right; exact ⟨hz, before, y, after, rfl, hbefore, hy⟩
  · rintro (hx | ⟨hx, before, y, after, rfl, hbefore, hy⟩)
    · exact ⟨[], x, xs, rfl, by simp, hx⟩
    · exact ⟨x :: before, y, after, rfl, List.forall_mem_cons.2 ⟨hx, hbefore⟩, hy⟩

/-- The loop sends what is due, up to the first workflow without an action. -/
private theorem mem_sendContexts_iff (hs : Reachable s) {ids : List UUID}
    (hrows : ∀ id ∈ ids, ∃ row, s.workflowState id = some row) {c : WorkflowContext} :
    c ∈ (sendContexts {} s workerID (ids.map UUID.toString)).1 ↔
      ∃ before id after, ids = before ++ id :: after ∧
        (∀ id' ∈ before, ∀ row, s.workflowState id' = some row → row.actionList ≠ []) ∧
        ∃ row, s.workflowState id = some row ∧ c = row.context id.toString ∧ row.Due workerID ∧
          ¬ row.BetweenActions := by
  induction ids with
  | nil => simp [sendContexts]
  | cons id ids ih =>
    obtain ⟨⟨row, hrow⟩, hrows⟩ := List.forall_mem_cons.1 hrows
    have hid := UUID.ofString?_toString id
    have hp := hs.positioned hrow
    have hctx : getWorkflowContexts none s id.toString = .ok (row.context id.toString) :=
      getWorkflowContexts_eq_ok.2 ⟨rfl, id, row, hid, hrow, rfl⟩
    have hdue : isApplicableToSend none s (row.context id.toString) workerID = .ok true ↔
        row.Due workerID ∧ ¬ row.BetweenActions := isApplicableToSend_iff_due hp hid hrow
    have hpanic : isApplicableToSend none s (row.context id.toString) workerID ≠ .panic ↔ row.actionList ≠ [] := by
      rw [hp.dispatch_panics_iff hid hrow, DispatchInRange]
      constructor
      · rintro (h | h | ⟨-, h⟩ | ⟨h, -⟩) hnil
        · rw [(hp.unreported_of_nil hnil).state] at h
          cases h
        · rw [(hp.unreported_of_nil hnil).state] at h
          cases h
        · exact h hnil
        · exact h rfl
      · intro h
        right; right; left; exact ⟨rfl, h⟩
    rw [exists_split_cons, ← ih hrows, List.map_cons, sendContexts, hctx]
    simp only [hrow, Option.some.injEq, forall_eq', exists_eq_left', ← hdue, ← hpanic]
    cases happ : isApplicableToSend none s (row.context id.toString) workerID with
    | panic => simp
    | error e => exact e.elim
    | ok b => cases b <;> simp

/-- In every reachable store, a poll sends a workflow if the next action is the worker's, the workflow is not between
actions and the poll gets as far. -/
theorem streamed_iff (hs : Reachable s) (hrow : s.workflowState id = some row) :
    row.context id.toString ∈ (streamWorkflowContexts {} s workerID).1 ↔
      row.Due workerID ∧ ¬ row.BetweenActions ∧ ∃ u, UUID.ofString? workerID = some u ∧ Reached s u id := by
  unfold streamWorkflowContexts
  split
  · rename_i hempty
    subst hempty
    refine iff_of_false (by simp) ?_
    rintro ⟨-, -, u, hu, -⟩
    exact absurd rfl (ne_empty_of_ofString? hu)
  · cases hwfs : getWorkflowsForWorker none s workerID with
    | error e =>
      refine iff_of_false (by simp) ?_
      rintro ⟨-, -, u, hu, -⟩
      rw [getWorkflowsForWorker_eq_ok.2 ⟨rfl, u, hu, rfl⟩] at hwfs
      cases hwfs
    | ok wfs =>
      obtain ⟨-, u, hu, rfl⟩ := getWorkflowsForWorker_eq_ok.1 hwfs
      have hlist : (s.workflowWorkerMap.filter fun row => row.2 = u).map (fun row => row.1.toString) =
          (s.listed u).map UUID.toString := by
        rw [Store.listed, List.map_map]
        rfl
      have hrows : ∀ id ∈ s.listed u, ∃ row, s.workflowState id = some row := by
        intro id hid
        obtain ⟨p, hp, rfl⟩ := List.mem_map.1 hid
        exact hs.listed (List.mem_filter.1 hp).1
      simp only [hu, Option.some.injEq, exists_eq_left']
      rw [hlist, mem_sendContexts_iff hs hrows]
      constructor
      · rintro ⟨before, id', after, heq, hbefore, row', hrow', hctx, hdue, hnot⟩
        obtain rfl : id = id' := UUID.toString_injective (congrArg WorkflowContext.workflowId hctx)
        rw [hrow] at hrow'
        cases hrow'
        exact ⟨hdue, hnot, before, after, heq, hbefore⟩
      · rintro ⟨hdue, hnot, before, after, heq, hbefore⟩
        exact ⟨before, id, after, heq, hbefore, row, hrow, rfl, hdue, hnot⟩

/-- In every reachable store, the dispatch of a workflow is exact if and only if the workflow has an action, is not
between two actions past the first, and the worker of the next action is listed for it behind no workflow without
actions.  Exact means that a poll sends the workflow to the worker of the next action as long as it is unfinished and
to no other worker, that the workers it is sent to are those for which `isApplicableToSend` holds and those that find
it is their turn, and that as long as it is unfinished there is one. -/
theorem dispatch_exact_iff (hs : Reachable s) (hrow : s.workflowState id = some row) :
    ((∀ w, row.context id.toString ∈ (streamWorkflowContexts {} s w).1 ↔ row.Due w) ∧
      (∀ w, row.context id.toString ∈ (streamWorkflowContexts {} s w).1 ↔
        isApplicableToSend none s (row.context id.toString) w = .ok true) ∧
      (∀ w, row.context id.toString ∈ (streamWorkflowContexts {} s w).1 ↔
        ∃ i, turn w (row.context id.toString) row.actionList = .ok (some i)) ∧
      (row.Unfinished → ∃ w, row.context id.toString ∈ (streamWorkflowContexts {} s w).1)) ↔
    row.actionList ≠ [] ∧ ¬ row.BetweenActions ∧
      (row.Unfinished → ∀ a u, row.nextAction? = some a → a.workerId = u.toString → Reached s u id) := by
  have hp := hs.positioned hrow
  simp only [streamed_iff hs hrow, isApplicableToSend_iff_due hp (UUID.ofString?_toString id) hrow, turn_iff_due hp]
  constructor
  · rintro ⟨hdue, -, -, hsome⟩
    refine ⟨fun hnil => ?_, ?_, fun hun a u hnext hw => ?_⟩
    · -- a workflow without actions is unfinished, and has no next action
      have hstate := (hp.unreported_of_nil hnil).state
      obtain ⟨w, ⟨-, a, hnext, -⟩, -⟩ := hsome (by simp [StateRow.Unfinished, hstate])
      simp [StateRow.nextAction?, hnil] at hnext
    · rintro ⟨hst, hpos, hlt⟩
      obtain ⟨w, -, hnot, -⟩ := hsome ⟨by simp [hst], by simp [hst], fun h => by omega⟩
      exact hnot ⟨hst, hpos, hlt⟩
    · obtain ⟨-, -, u', hu', hreached⟩ := (hdue u.toString).2 ⟨hun, a, hnext, hw⟩
      rw [UUID.ofString?_toString] at hu'
      cases hu'
      exact hreached
  · rintro ⟨hne, hnot, hreached⟩
    have hexact : ∀ w, (row.Due w ∧ ¬ row.BetweenActions ∧ ∃ u, UUID.ofString? w = some u ∧ Reached s u id) ↔
        row.Due w := by
      refine fun w => and_iff_left_of_imp fun hdue => ⟨hnot, ?_⟩
      obtain ⟨hun, a, hnext, rfl⟩ := hdue
      obtain ⟨u, hu, -⟩ := hs.mapped hrow a (row.mem_of_nextAction? hnext)
      exact ⟨u, by rw [hu, UUID.ofString?_toString], hreached hun a u hnext hu⟩
    refine ⟨hexact, fun w => ?_, hexact, fun hun => ?_⟩
    · rw [hexact, and_iff_left hnot]
    · obtain ⟨w, hdue⟩ := hp.exists_due hne hun
      exact ⟨w, (hexact w).2 hdue⟩

private theorem exists_handed :
    ∃ s₁, createSample [("os", machine1, ["stream"]), ("boot", machine2, ["mount", "kexec"])] = .ok (s₁, sampleID) ∧
      (run step s₁ [({}, reportOf "os" "stream" .running),
        ({}, reportOf "os" "stream" .success)]).workflowState sampleID =
        some (sampleRow [("os", machine1, ["stream"]), ("boot", machine2, ["mount", "kexec"])] 0 .success) ∧
      ∀ u, UUID.ofString? machine2 = some u → (run step s₁ [({}, reportOf "os" "stream" .running),
        ({}, reportOf "os" "stream" .success)]).listed u = [sampleID] :=
  ⟨_, rfl, by decide +kernel, fun u hu => by cases hu; rfl⟩

/-- The first of two machines is done, and the workflow is handed over to the second. -/
theorem dispatch_exact_handover :
    let reports : List Report := [({}, reportOf "os" "stream" .running), ({}, reportOf "os" "stream" .success)]
    ∃ s₁ row, createSample [("os", machine1, ["stream"]), ("boot", machine2, ["mount", "kexec"])] =
      .ok (s₁, sampleID) ∧
      (run step s₁ reports).workflowState sampleID = some row ∧ row.Due machine2 ∧
      (∀ w, row.context sampleID.toString ∈ (streamWorkflowContexts {} (run step s₁ reports) w).1 ↔ row.Due w) ∧
      ∀ w, row.context sampleID.toString ∈ (streamWorkflowContexts {} (run step s₁ reports) w).1 ↔
        ∃ i, turn w (row.context sampleID.toString) row.actionList = .ok (some i) := by
  intro reports
  let handed := sampleRow [("os", machine1, ["stream"]), ("boot", machine2, ["mount", "kexec"])] 0 .success
  obtain ⟨s₁, hcreate, hrow, hlisted⟩ := exists_handed
  have hs : Reachable (run step s₁ reports) :=
    run_inv (I := Reachable) (Reachable.empty.create hcreate) fun _ report h => h.report report
  have hreached : handed.Unfinished → ∀ a u, handed.nextAction? = some a → a.workerId = u.toString →
      Reached (run step s₁ reports) u sampleID := by
    rintro - a u hnext hw
    cases hnext
    have hu : UUID.ofString? machine2 = some u := by
      rw [show machine2 = u.toString from hw, UUID.ofString?_toString]
    exact ⟨[], [], hlisted u hu, by simp⟩
  have hexact := (dispatch_exact_iff hs hrow).2 ⟨by decide, fun h => absurd h.2.1 (by decide), hreached⟩
  exact ⟨s₁, handed, hcreate, hrow, ⟨⟨by decide, by decide, by decide⟩, _, rfl, rfl⟩, hexact.1, hexact.2.2.1⟩

private theorem exists_mounted :
    ∃ s₁, createSample [("os", machine1, ["stream", "mount", "kexec"])] = .ok (s₁, sampleID) ∧
      (run step s₁ [({}, reportOf "os" "stream" .running), ({}, reportOf "os" "stream" .success),
        ({}, reportOf "os" "mount" .running), ({}, reportOf "os" "mount" .success)]).workflowState sampleID =
        some (sampleRow [("os", machine1, ["stream", "mount", "kexec"])] 1 .success) :=
  ⟨_, rfl, by decide +kernel⟩

/-- Of three actions the second has succeeded: the third is due, and no worker is sent the workflow. -/
theorem between_actions_invisible :
    let reports : List Report := [({}, reportOf "os" "stream" .running), ({}, reportOf "os" "stream" .success),
      ({}, reportOf "os" "mount" .running), ({}, reportOf "os" "mount" .success)]
    ∃ s₁ row, createSample [("os", machine1, ["stream", "mount", "kexec"])] = .ok (s₁, sampleID) ∧
      (run step s₁ reports).workflowState sampleID = some row ∧ row.Due machine1 ∧
      (∃ i, turn machine1 (row.context sampleID.toString) row.actionList = .ok (some i)) ∧
      ∀ w, row.context sampleID.toString ∉ (streamWorkflowContexts {} (run step s₁ reports) w).1 := by
  intro reports
  obtain ⟨s₁, hcreate, hrow⟩ := exists_mounted
  have hs : Reachable (run step s₁ reports) :=
    run_inv (I := Reachable) (Reachable.empty.create hcreate) fun _ report h => h.report report
  refine ⟨s₁, _, hcreate, hrow, ⟨⟨by decide, by decide, by decide⟩, _, rfl, rfl⟩, ⟨2, rfl⟩, fun w hmem => ?_⟩
  exact ((streamed_iff hs hrow).1 hmem).2.1 ⟨rfl, by decide, by decide⟩

end Tink.Db
