import Tink.Db.Position

/-!
# The order of successes on the database backend

A `RUNNING` report moves a row to the next action whatever the state of the current one is, so the index of a row
counts `RUNNING` reports and not successes: a workflow can end in success though one of its actions never did
(`success_without_first`).  What the handler relies on is said of its reports (`InOrder`): a worker reports the next
action as running only after the success of the current one was stored, and the success is also recorded.  Then every
action before the current one has a report of its success that was accepted, and a workflow whose state is success has
one for each of its actions (`successes_in_order`).
-/

namespace Tink.Db

open Pg Machine

variable {H : Type} {r : Template.Renderer H} {reg : Registry} {s s₁ : Store} {row row' : StateRow} {id : UUID}

/-- The report is accepted as the success of the action at position `j`. -/
def SuccessAt (id : UUID) (j : Nat) (s : Store) (report : Report) : Prop :=
  (reportActionStatus report.1 s report.2).2 = .ok () ∧ UUID.ofString? report.2.workflowId = some id ∧
    report.2.actionStatus = .success ∧ ∃ row action, s.workflowState id = some row ∧ row.reportIndex report.2 = j ∧
      row.actionList[j]? = some action ∧ action.taskName = report.2.taskName ∧ action.name = report.2.actionName

/-- A report that the row of the workflow admits moves it on from a success only, and if it is a success itself, its
event can be recorded. -/
def InOrder (id : UUID) (s : Store) (report : Report) : Prop :=
  ∀ row, s.workflowState id = some row → UUID.ofString? report.2.workflowId = some id →
    Admits report.1 row report.2 →
    (report.2.actionStatus = .running → row.currentActionName ≠ "" → row.currentActionState = .success) ∧
      (report.2.actionStatus = .success → Recordable report.1 report.2)

/-- Every action before the current one has succeeded, and the current one if its state says so. -/
structure Ordered (s₁ : Store) (id : UUID) (reports : List Report) (row : StateRow) : Prop where
  before : row.currentActionName ≠ "" → ∀ j : Nat, (j : Int) < row.currentActionIndex →
    Once step (SuccessAt id j) s₁ reports
  current : row.currentActionState = .success → ∀ j : Nat, (j : Int) = row.currentActionIndex →
    Once step (SuccessAt id j) s₁ reports

private theorem Ordered.append {reports : List Report} (h : Ordered s₁ id reports row) (reports' : List Report) :
    Ordered s₁ id (reports ++ reports') row :=
  ⟨fun hne j hj => (h.before hne j hj).append reports', fun hs j hj => (h.current hs j hj).append reports'⟩

/-- The step of the invariant. -/
private theorem Ordered.step {reports : List Report} (h : Ordered s₁ id reports row) (hp : Positioned row)
    (hrow : (run step s₁ reports).workflowState id = some row) {report : Report}
    (hid : UUID.ofString? report.2.workflowId = some id) (happ : Applied report.2 row row')
    (hupdate : ∃ s', reportUpdate report.1 (run Db.step s₁ reports) report.2 = .ok s')
    (horder : InOrder id (run Db.step s₁ reports) report) : Ordered s₁ id (reports ++ [report]) row' := by
  obtain ⟨hrunning, hsuccess⟩ := horder row hrow hid ((hp.updates_iff hid hrow).1 hupdate)
  obtain ⟨s', hupdate⟩ := hupdate
  obtain ⟨-, hzero, -⟩ := hp.index_bounds
  obtain ⟨i, action, hidx, hget, htask, hname, rfl⟩ := hp.applied happ
  have hindex := row.reportIndex_eq report.2
  constructor
  · intro _ j hj
    have hj : (j : Int) < i := hj
    by_cases hnext : report.2.actionStatus = .running ∧ row.currentActionName ≠ ""
    · -- the row moves on, and does so from a success
      rw [if_pos hnext] at hindex
      by_cases hcur : (j : Int) = row.currentActionIndex
      · exact (h.current (hrunning hnext.1 hnext.2) j hcur).append _
      · exact (h.before hnext.2 j (by omega)).append _
    · rw [if_neg hnext] at hindex
      have hne : row.currentActionName ≠ "" := by
        intro hne
        have := hzero hne
        omega
      exact (h.before hne j (by omega)).append _
  · intro hs j hj
    have hs : report.2.actionStatus = .success := hs
    have hj : (j : Int) = i := hj
    have hji : j = i := by omega
    have hok : (reportActionStatus report.1 (run Db.step s₁ reports) report.2).2 = .ok () := by
      rcases reportActionStatus_of_update hupdate with ⟨-, e, -, hr⟩ | ⟨hnot, -⟩
      · rw [hr]
      · exact absurd (hsuccess hs) hnot
    rw [hji]
    exact once_concat ⟨hok, hid, hs, row, action, hrow, hidx, hget, htask, hname⟩

private theorem ordered_of_inOrder (hrow₁ : s₁.workflowState id = some row) (hp : Positioned row)
    (hun : row.Unreported) {reports : List Report} (horder : Every step (InOrder id) s₁ reports) :
    ∀ p, p <+: reports → ∃ row', (run step s₁ p).workflowState id = some row' ∧ Positioned row' ∧
      Ordered s₁ id p row' := by
  refine history_of_every (J := fun p s => ∃ row', s.workflowState id = some row' ∧ Positioned row' ∧
    Ordered s₁ id p row') ⟨row, hrow₁, hp, ?_, ?_⟩ horder ?_
  · intro hne
    exact absurd hun.action hne
  · intro hs
    rw [hun.state] at hs
    cases hs
  · rintro p report ⟨row', hrow', hp', hord⟩ hin
    obtain ⟨row'', hrow'', rfl | ⟨hid, happ, hupdate⟩⟩ := step_row hrow' report
    · exact ⟨row'', hrow'', hp', hord.append [report]⟩
    · exact ⟨row'', hrow'', (hp'.of_applied happ).1, hord.step hp' hrow' hid happ hupdate hin⟩

theorem getWorkflowState_eq_success {failure : Option String} {wfID : String}
    (h : getWorkflowState failure s wfID = .success) (hid : UUID.ofString? wfID = some id)
    (hrow : s.workflowState id = some row) :
    row.currentActionState = .success ∧ row.currentActionIndex = row.totalNumberOfActions - 1 := by
  unfold getWorkflowState at h
  cases hc : getWorkflowContexts failure s wfID with
  | error e =>
    -- the zero context is pending
    rw [hc] at h
    cases h
  | ok c =>
    obtain ⟨-, rfl⟩ := getWorkflowContexts_row hid hrow hc
    simp only [hc] at h
    split at h
    · rename_i hne
      exact absurd h hne
    · rename_i hs
      split at h
      · rename_i hlast
        exact ⟨not_not.1 hs, hlast⟩
      · cases h

/-- Over every run of reports that come in order, in every store on the way: every action before the current one has a
success that was accepted, and a workflow in success has one for each action. -/
theorem successes_in_order {cenv : CreateEnv} {s₀ : Store} {template hardware : String}
    (hcreate : createWorkflow r reg cenv s₀ template hardware = .ok (s₁, id)) (reports : List Report)
    (horder : Every step (InOrder id) s₁ reports) :
    ∀ p, p <+: reports → ∃ row, (run step s₁ p).workflowState id = some row ∧
      (row.currentActionName ≠ "" → ∀ j : Nat, (j : Int) < row.currentActionIndex → Once step (SuccessAt id j) s₁ p) ∧
      ∀ failure wfID, UUID.ofString? wfID = some id → getWorkflowState failure (run step s₁ p) wfID = .success →
        ∀ j, j < row.actionList.length → Once step (SuccessAt id j) s₁ p := by
  intro p hp
  obtain ⟨row₁, hrow₁, hp₁, hun⟩ := createWorkflow_ok hcreate
  obtain ⟨row, hrow, hpos, hord⟩ := ordered_of_inOrder hrow₁ hp₁ hun horder p hp
  refine ⟨row, hrow, hord.before, ?_⟩
  intro failure wfID hid hstate j hj
  obtain ⟨hs, hlast⟩ := getWorkflowState_eq_success hstate hid hrow
  rw [hpos.total] at hlast
  have hne : row.currentActionName ≠ "" := by
    apply hpos.action_ne
    intro hun
    rw [hun.state] at hs
    cases hs
  by_cases hcur : (j : Int) = row.currentActionIndex
  · exact hord.current hs j hcur
  · exact hord.before hne j (by omega)

theorem successes_in_order_two_actions :
    ∃ s₁ row, createSample [("os", machine1, ["stream", "boot"])] = .ok (s₁, sampleID) ∧
      (run step s₁ [({}, reportOf "os" "stream" .running), ({}, reportOf "os" "stream" .success),
        ({}, reportOf "os" "boot" .running)]).workflowState sampleID = some row ∧ row.currentActionIndex = 1 ∧
      Once step (SuccessAt sampleID 0) s₁ [({}, reportOf "os" "stream" .running),
        ({}, reportOf "os" "stream" .success), ({}, reportOf "os" "boot" .running)] := by
  obtain ⟨s₁, hcreate, hcreated, hsecond, hthird⟩ : ∃ s₁,
      createSample [("os", machine1, ["stream", "boot"])] = .ok (s₁, sampleID) ∧
      (s₁.workflowState sampleID).map StateRow.currentActionName = some "" ∧
      (run step s₁ [({}, reportOf "os" "stream" .running), ({}, reportOf "os" "stream" .success)]).workflowState
        sampleID = some (sampleRow [("os", machine1, ["stream", "boot"])] 0 .success) ∧
      (run step s₁ [({}, reportOf "os" "stream" .running), ({}, reportOf "os" "stream" .success),
        ({}, reportOf "os" "boot" .running)]).workflowState sampleID =
        some (sampleRow [("os", machine1, ["stream", "boot"])] 1 .running) :=
    ⟨_, rfl, by decide +kernel⟩
  have h := successes_in_order hcreate [({}, reportOf "os" "stream" .running), ({}, reportOf "os" "stream" .success),
    ({}, reportOf "os" "boot" .running)]
  specialize h (by
    refine every_cons.2 ⟨?_, every_cons.2 ⟨?_, every_cons.2 ⟨?_, every_nil⟩⟩⟩
    · rintro row hrow - -
      rw [hrow] at hcreated
      exact ⟨fun _ hne => absurd (Option.some.inj hcreated) hne, (nomatch ·)⟩
    · rintro row hrow - -
      exact ⟨(nomatch ·), fun _ => ⟨rfl, _, rfl⟩⟩
    · rintro row hrow - -
      cases hsecond.symm.trans hrow
      exact ⟨fun _ _ => rfl, (nomatch ·)⟩)
  obtain ⟨row, hrow, hbefore, -⟩ := h _ (List.prefix_refl _)
  cases hthird.symm.trans hrow
  exact ⟨s₁, _, hcreate, hthird, rfl, hbefore (by decide) 0 (by decide)⟩

/-- The workflow is in success after its second action, and the first one never succeeded. -/
theorem success_without_first :
    ∃ s₁ row, createSample [("os", machine1, ["stream", "boot"])] = .ok (s₁, sampleID) ∧
      (run step s₁ [({}, reportOf "os" "stream" .running), ({}, reportOf "os" "boot" .running),
        ({}, reportOf "os" "boot" .success)]).workflowState sampleID = some row ∧
      row.currentActionName ≠ "" ∧ row.currentActionIndex = 1 ∧
      getWorkflowState none (run step s₁ [({}, reportOf "os" "stream" .running), ({}, reportOf "os" "boot" .running),
        ({}, reportOf "os" "boot" .success)]) sampleID.toString = .success ∧
      ¬ Once step (SuccessAt sampleID 0) s₁ [({}, reportOf "os" "stream" .running),
        ({}, reportOf "os" "boot" .running), ({}, reportOf "os" "boot" .success)] := by
  obtain ⟨s₁, hcreate, hsecond, hthird⟩ : ∃ s₁,
      createSample [("os", machine1, ["stream", "boot"])] = .ok (s₁, sampleID) ∧
      (run step s₁ [({}, reportOf "os" "stream" .running), ({}, reportOf "os" "boot" .running)]).workflowState
        sampleID = some (sampleRow [("os", machine1, ["stream", "boot"])] 1 .running) ∧
      (run step s₁ [({}, reportOf "os" "stream" .running), ({}, reportOf "os" "boot" .running),
        ({}, reportOf "os" "boot" .success)]).workflowState sampleID =
        some (sampleRow [("os", machine1, ["stream", "boot"])] 1 .success) :=
    ⟨_, rfl, by decide +kernel⟩
  refine ⟨s₁, _, hcreate, hthird, by decide, rfl, ?_, ?_⟩
  · have hcontext := getWorkflowContexts_eq_ok.2 ⟨rfl, sampleID, _, UUID.ofString?_toString sampleID, hthird, rfl⟩
    unfold getWorkflowState
    rw [hcontext]
    rfl
  · rw [once_iff_not_every, not_not]
    refine every_cons.2 ⟨?_, every_cons.2 ⟨?_, every_cons.2 ⟨?_, every_nil⟩⟩⟩
    · rintro ⟨-, -, hs, -⟩
      cases hs
    · rintro ⟨-, -, hs, -⟩
      cases hs
    · rintro ⟨-, -, -, row, action, hrow, hidx, -⟩
      cases hsecond.symm.trans hrow
      exact absurd hidx (by decide)

end Tink.Db
