import Tink.Db.Position

/-!
# What a failed report leaves behind

`ReportActionStatus` stores the new context in one transaction and records the event in a second one.  If the second
fails, the worker is told that the report failed and the row has moved.  The columns of `workflow_event` check what
the handler does not, the id of the worker first of all, so a request can make this happen by itself
(`rejected_report_moves_row`).  Nothing else leaves a trace (`failed_report_leaves_no_trace_iff`).
-/

namespace Tink.Db

open Pg

variable {env : ReportEnv} {s : Store} {req : WorkflowActionStatus} {row row' : StateRow} {id : UUID}

/-- The first transaction of the report commits. -/
def Updates (env : ReportEnv) (s : Store) (req : WorkflowActionStatus) : Prop := ∃ s', reportUpdate env s req = .ok s'

/-- The second transaction of the report commits. -/
def Records (env : ReportEnv) (s : Store) (req : WorkflowActionStatus) : Prop :=
  ∃ e, eventColumns req = .ok e ∧ (reportActionStatus env s req).1.workflowEvent = s.workflowEvent ++ [e]

/-- The report is about `row`, which admits it, and its event cannot be recorded. -/
def Torn (env : ReportEnv) (s : Store) (req : WorkflowActionStatus) (row : StateRow) : Prop :=
  ∃ id, UUID.ofString? req.workflowId = some id ∧ s.workflowState id = some row ∧ Admits env row req ∧
    ¬ Recordable env req

/-- The report says what the row says already: the state of its action, which is not about to start. -/
def StateRow.Repeats (row : StateRow) (req : WorkflowActionStatus) : Prop :=
  row.currentActionName ≠ "" ∧ req.actionStatus ≠ .running ∧ row.currentActionState = req.actionStatus

/-- A stored report leaves a row as it is exactly if it repeats it. -/
theorem Positioned.applied_eq_self_iff (hp : Positioned row) (h : Applied req row row') :
    row' = row ↔ row.Repeats req := by
  obtain ⟨i, action, hidx, hget, htask, hname, rfl⟩ := hp.applied h
  have hindex := row.reportIndex_eq req
  constructor
  · intro heq
    have hstate : req.actionStatus = row.currentActionState := congrArg StateRow.currentActionState heq
    have hi : (i : Int) = row.currentActionIndex := congrArg StateRow.currentActionIndex heq
    have hn : req.actionName = row.currentActionName := congrArg StateRow.currentActionName heq
    have hne : row.currentActionName ≠ "" := by
      rw [← hn]
      exact h.action_ne
    refine ⟨hne, fun hr => ?_, hstate.symm⟩
    rw [if_pos ⟨hr, hne⟩] at hindex
    omega
  · rintro ⟨hne, hr, hstate⟩
    rw [if_neg fun hnext => hr hnext.1] at hindex
    -- the row denotes the action at its index, which is the one the report names
    obtain ⟨-, j, action', hj, hget', ht', hn', hw'⟩ := hp.place.resolve_left fun hun => hne hun.action
    have hij : i = j := by omega
    subst hij
    rw [hget] at hget'
    cases hget'
    rw [← htask, ← hname, ← ht', ← hn', ← hw', ← hstate, ← hj]

private theorem torn_iff (hp : Positioned row) (hid : UUID.ofString? req.workflowId = some id)
    (hrow : s.workflowState id = some row) (hup : Updates env s req) (row₁ : StateRow) :
    Torn env s req row₁ ↔ row₁ = row ∧ ¬ Recordable env req := by
  constructor
  · rintro ⟨id', hid', hrow', -, hnot⟩
    rw [hid] at hid'
    cases hid'
    rw [hrow] at hrow'
    cases hrow'
    exact ⟨rfl, hnot⟩
  · rintro ⟨rfl, hnot⟩
    exact ⟨id, hid, hrow, (hp.updates_iff hid hrow).1 hup, hnot⟩

/-- In every reachable store and for every report, exactly when an error leaves the tables as they were, and exactly
when the row is updated if and only if the event is recorded. -/
theorem failed_report_leaves_no_trace_iff (hs : Reachable s) (env : ReportEnv) (req : WorkflowActionStatus) :
    ((∀ e, (reportActionStatus env s req).2 = .error e →
        (reportActionStatus env s req).1.workflowState = s.workflowState ∧
          (reportActionStatus env s req).1.workflowEvent = s.workflowEvent) ↔
      ¬ ∃ row, Torn env s req row ∧ ¬ row.Repeats req) ∧
    ((Updates env s req ↔ Records env s req) ↔ ¬ ∃ row, Torn env s req row) := by
  have hne : ∀ e : EventRow, s.workflowEvent ≠ s.workflowEvent ++ [e] := by
    intro e h
    have := congrArg List.length h
    simp at this
  by_cases hup : Updates env s req
  · obtain ⟨s', hu⟩ := hup
    obtain ⟨id, row, row', hid, hrow, -, happ, hs'⟩ := reportUpdate_eq_ok.1 hu
    have hp := hs.positioned hrow
    have hup : Updates env s req := ⟨s', hu⟩
    have htorn := torn_iff hp hid hrow hup
    have hevents : s'.workflowEvent = s.workflowEvent := by rw [hs']
    have hrows : s'.workflowState = s.workflowState ↔ row.Repeats req := by
      rw [hs', ← hp.applied_eq_self_iff happ, Function.update_eq_self_iff, hrow, Option.some.injEq]
    unfold Records
    rcases reportActionStatus_of_update hu with ⟨hrec, e, he, h⟩ | ⟨hrec, msg, h⟩
    · rw [h]
      simp [htorn, hrec, he, hevents, hup]
    · rw [h]
      simp [htorn, hrec, hevents, hrows, hne, hup]
  · have hsame := reportActionStatus_of_no_update hup
    have hnot : ∀ row, ¬ Torn env s req row := by
      rintro row ⟨id, hid, hrow, hadm, -⟩
      exact hup (((hs.positioned hrow).updates_iff hid hrow).2 hadm)
    unfold Records
    rw [hsame]
    simp [hnot, hup, hne]

theorem failed_report_leaves_no_trace_wrong_action :
    ∃ s₁, createSample [("os", machine1, ["stream"])] = .ok (s₁, sampleID) ∧
      (∃ e, (reportActionStatus {} s₁ (reportOf "os" "boot" .running)).2 = .error e) ∧
      (reportActionStatus {} s₁ (reportOf "os" "boot" .running)).1.workflowState = s₁.workflowState := by
  have hcreate : createSample [("os", machine1, ["stream"])] = .ok (_, sampleID) := rfl
  refine ⟨_, hcreate, ⟨_, rfl⟩, ?_⟩
  refine ((failed_report_leaves_no_trace_iff (.create .empty hcreate) {} _).1.2 ?_ _ rfl).1
  rintro ⟨row, ⟨-, -, -, -, hnot⟩, -⟩
  exact hnot ⟨rfl, _, rfl⟩

/-- A first report without the id of a worker is answered with an error; the row has moved and there is no event. -/
theorem rejected_report_moves_row :
    ∃ s₁ row, createSample [("os", machine1, ["stream"])] = .ok (s₁, sampleID) ∧
      s₁.workflowState sampleID = some row ∧ row.currentActionState = .pending ∧
      (∃ e, (reportActionStatus {} s₁ { reportOf "os" "stream" .running with workerId := "" }).2 = .error e) ∧
      (reportActionStatus {} s₁ { reportOf "os" "stream" .running with workerId := "" }).1.workflowEvent = [] ∧
      ∃ row', (reportActionStatus {} s₁ { reportOf "os" "stream" .running with workerId := "" }).1.workflowState
        sampleID =
        some row' ∧ row'.currentActionState = .running ∧ row'.currentActionName = "stream" :=
  ⟨_, _, rfl, rfl, rfl, ⟨_, rfl⟩, rfl, _, rfl, rfl, rfl⟩

end Tink.Db
