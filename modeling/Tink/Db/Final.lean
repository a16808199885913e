import Tink.Db.Index

/-!
# Final states on the database backend

`getWorkflowState` reads the state of a workflow off its row: the state of the current action, where a success counts
only at the last one.  The handler does not look at it.  A report about the action a workflow failed at, or a
`RUNNING` report for the action behind it, is stored like any other, and the workflow leaves its final state.
`final_iff_not_contradicted` says which reports do that.
-/

namespace Tink.Db

open Pg Machine

variable {H : Type} {r : Template.Renderer H} {reg : Registry} {s : Store} {row : StateRow} {id : UUID}
    {wfID : String}
  {req : WorkflowActionStatus}

/-- The states a workflow should not leave. -/
def Final (s : State) : Prop := s = .failed ∨ s = .timeout ∨ s = .success

/-- The state of the workflow, by its row. -/
def StateRow.state (row : StateRow) : State :=
  if row.currentActionState ≠ .success then row.currentActionState
  else if row.currentActionIndex = row.totalNumberOfActions - 1 then .success
  else .running

theorem getWorkflowState_eq (hid : UUID.ofString? wfID = some id) (hrow : s.workflowState id = some row) :
    getWorkflowState none s wfID = row.state := by
  have hc : getWorkflowContexts none s wfID = .ok (row.context wfID) :=
    getWorkflowContexts_eq_ok.2 ⟨rfl, id, row, hid, hrow, rfl⟩
  unfold getWorkflowState
  rw [hc]
  rfl

/-- The report is stored for the workflow and is about another state than that of the current action. -/
def Contradicts (id : UUID) (s : Store) (report : Report) : Prop :=
  ∃ row, s.workflowState id = some row ∧ UUID.ofString? report.2.workflowId = some id ∧
    Admits report.1 row report.2 ∧ report.2.actionStatus ≠ row.currentActionState

/-- A workflow in a final state shows the state of its current action. -/
theorem StateRow.currentActionState_eq_of_final (h : Final row.state) : row.currentActionState = row.state := by
  unfold StateRow.state at h ⊢
  split
  · rfl
  · rename_i hs
    rw [if_neg hs] at h
    split
    · exact not_not.1 hs
    · rename_i hlast
      rw [if_neg hlast] at h
      rcases h with h | h | h <;> cases h

/-- A stored report keeps a final state exactly if it repeats it. -/
private theorem Positioned.state_after_iff (hp : Positioned row) (h : Final row.state) (req : WorkflowActionStatus) :
    (row.after req).state = row.state ↔ req.actionStatus = row.currentActionState := by
  have hcur := StateRow.currentActionState_eq_of_final h
  have hstate : (row.after req).currentActionState = req.actionStatus := rfl
  have hne : row.currentActionName ≠ "" := by
    apply hp.action_ne
    intro hun
    rw [← hcur, hun.state] at h
    rcases h with h | h | h <;> cases h
  constructor
  · intro heq
    rw [hcur, ← heq]
    rw [← heq] at h
    rw [← StateRow.currentActionState_eq_of_final h, hstate]
  · intro heq
    -- the report is not `RUNNING`, so it is about the current action
    have hr : req.actionStatus ≠ .running := by
      rw [heq, hcur]
      rcases h with h | h | h <;> rw [h] <;> simp
    have hindex : (row.after req).currentActionIndex = row.currentActionIndex := by
      show row.reportIndex req = row.currentActionIndex
      rw [row.reportIndex_eq, if_neg fun hrun => hr hrun.1]
    have htotal : (row.after req).totalNumberOfActions = row.totalNumberOfActions := rfl
    unfold StateRow.state
    rw [hstate, heq, hindex, htotal]

/-- One report keeps a final state exactly if it does not contradict it. -/
private theorem Placed.final_step (hp : Placed row) (hrow : s.workflowState id = some row)
    (hid : UUID.ofString? wfID = some id) (h : Final row.state) (report : Report) :
    getWorkflowState none (step s report) wfID = getWorkflowState none s wfID ↔ ¬ Contradicts id s report := by
  rw [getWorkflowState_eq hid hrow]
  by_cases hadm : UUID.ofString? report.2.workflowId = some id ∧ Admits report.1 row report.2
  · rw [getWorkflowState_eq hid (hp.step_of_admits hrow hadm.1 hadm.2), hp.state_after_iff h]
    unfold Contradicts
    constructor
    · rintro heq ⟨row', hrow', -, -, hne⟩
      rw [hrow] at hrow'
      cases hrow'
      exact hne heq
    · intro hnot
      by_contra hne
      exact hnot ⟨row, hrow, hadm.1, hadm.2, hne⟩
  · rw [getWorkflowState_eq hid (hp.step_of_not_admits hrow hadm)]
    refine iff_of_true rfl ?_
    rintro ⟨row', hrow', hid', hadm', -⟩
    rw [hrow] at hrow'
    cases hrow'
    exact hadm ⟨hid', hadm'⟩

/-- Over every run of reports on a created workflow: every final state it reaches is kept from then on exactly if no
report contradicts a final state. -/
theorem final_iff_not_contradicted {cenv : CreateEnv} {s₀ s₁ : Store} {template hardware : String}
    (hcreate : createWorkflow r reg cenv s₀ template hardware = .ok (s₁, id)) (hid : UUID.ofString? wfID = some id)
    (reports : List Report) :
    (∀ p q, p ++ q <+: reports → Final (getWorkflowState none (run step s₁ p) wfID) →
        getWorkflowState none (run step s₁ (p ++ q)) wfID = getWorkflowState none (run step s₁ p) wfID) ↔
      Every step (fun s report => Final (getWorkflowState none s wfID) → ¬ Contradicts id s report) s₁ reports := by
  rw [frozen_iff_every (fun s : Store => getWorkflowState none s wfID) Final]
  obtain ⟨row, hrow, hp⟩ := placed_of_created hcreate []
  refine every_congr (I := fun s : Store => ∃ row, s.workflowState id = some row ∧ Placed row) (D := fun _ _ => True)
    ⟨row, hrow, hp⟩ (fun _ _ _ => trivial) ?_ ?_
  · rintro s report ⟨row, hrow, hp⟩ -
    obtain ⟨row', hrow', hp', -⟩ := hp.step_cases hrow report
    exact ⟨row', hrow', hp'⟩
  · rintro s report ⟨row, hrow, hp⟩ -
    refine imp_congr_right fun h => ?_
    rw [getWorkflowState_eq hid hrow] at h
    exact hp.final_step hrow hid h report

theorem final_iff_not_contradicted_success_twice :
    ∃ s₁, createSample [("os", machine1, ["stream"])] = .ok (s₁, sampleID) ∧
      getWorkflowState none (run step s₁ [({}, reportOf "os" "stream" .success)]) sampleID.toString = .success ∧
      getWorkflowState none (run step s₁
        [({}, reportOf "os" "stream" .success), ({}, reportOf "os" "stream" .success)])
        sampleID.toString = .success := by
  have hcreate : createSample [("os", machine1, ["stream"])] = .ok (_, sampleID) := rfl
  have h := (final_iff_not_contradicted hcreate (UUID.ofString?_toString sampleID)
    [({}, reportOf "os" "stream" .success), ({}, reportOf "os" "stream" .success)]).2
  refine ⟨_, hcreate, rfl, h ?_ [({}, reportOf "os" "stream" .success)] [({}, reportOf "os" "stream" .success)]
    (List.prefix_refl _) (Or.inr (Or.inr rfl))⟩
  refine every_cons.2 ⟨fun hf => ?_, every_cons.2 ⟨fun _ => ?_, every_nil⟩⟩
  · rcases hf with hf | hf | hf <;> cases hf
  · rintro ⟨row, hrow, -, -, hne⟩
    cases hrow
    exact hne rfl

/-- The first of two actions fails; a `RUNNING` report for the second makes the workflow run again. -/
theorem failed_workflow_runs_again :
    ∃ s₁, createSample [("os", machine1, ["stream", "boot"])] = .ok (s₁, sampleID) ∧
      getWorkflowState none (run step s₁
        [({}, reportOf "os" "stream" .running), ({}, reportOf "os" "stream" .failed)])
        sampleID.toString = .failed ∧
      getWorkflowState none (run step s₁ [({}, reportOf "os" "stream" .running), ({}, reportOf "os" "stream" .failed),
        ({}, reportOf "os" "boot" .running)]) sampleID.toString = .running :=
  ⟨_, rfl, by decide +kernel⟩

end Tink.Db
