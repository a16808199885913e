import Tink.Proto
import Tink.Lib.Outcome

/-!
# Whose turn it is

The first half of the loop body of `ProcessWorkflowActions` (`cmd/tink-worker/worker/worker.go`): given a context and
the action list, a worker decides whether it is its turn and at which action to start.
-/

namespace Tink.Worker

/-- Starts at position `i` if the action there is this worker's. -/
def startAt (workerID : String) (actions : List WorkflowAction) (i : Int) : Outcome Empty (Option Int) := do
  let nextAction ← Outcome.index actions i
  pure (if nextAction.workerId = workerID then some i else none)

/-- `turn` and `actionIndex`: the position to start at, if it is this worker's turn. -/
def turn (workerID : String) (c : WorkflowContext) (actions : List WorkflowAction) : Outcome Empty (Option Int) :=
  if c.currentAction = "" then startAt workerID actions 0
  else
    match c.currentActionState with
    | .success =>
      if isLastAction c actions then .ok none else startAt workerID actions (c.currentActionIndex + 1)
    | .failed | .timeout => .ok none
    | .pending | .running | .unrecognized _ _ => startAt workerID actions c.currentActionIndex

variable {workerID : String} {c : WorkflowContext} {actions : List WorkflowAction}

/-- A worker that starts at a position has found an action of its own there. -/
theorem eq_of_startAt {i j : Int} (h : startAt workerID actions i = .ok (some j)) :
    j = i ∧ 0 ≤ i ∧ ∃ a, actions[i.toNat]? = some a ∧ a.workerId = workerID := by
  obtain ⟨hpos, a, hget, hj⟩ := Outcome.index_bind_pure_eq_ok.1 h
  by_cases hw : a.workerId = workerID
  · rw [if_pos hw] at hj
    cases hj
    exact ⟨rfl, hpos, a, hget, hw⟩
  · rw [if_neg hw] at hj
    cases hj

theorem startAt_of_get {i : Int} {a : WorkflowAction} (hpos : 0 ≤ i) (hget : actions[i.toNat]? = some a)
    (hw : a.workerId = workerID) : startAt workerID actions i = .ok (some i) :=
  Outcome.index_bind_pure_eq_ok.2 ⟨hpos, a, hget, if_pos hw⟩

theorem startAt_eq_some {i : Int} :
    (∃ j, startAt workerID actions i = .ok (some j)) ↔
      0 ≤ i ∧ ∃ a, actions[i.toNat]? = some a ∧ a.workerId = workerID := by
  constructor
  · rintro ⟨j, hj⟩
    exact (eq_of_startAt hj).2
  · rintro ⟨hpos, a, hget, hw⟩
    exact ⟨i, startAt_of_get hpos hget hw⟩

theorem turn_of_unreported (h : c.currentAction = "") : turn workerID c actions = startAt workerID actions 0 :=
  if_pos h

/-- Once something was reported, the turn depends on the state and the index. -/
theorem turn_of_reported (h : c.currentAction ≠ "") :
    turn workerID c actions =
      if c.currentActionState = .success then
        if isLastAction c actions then .ok none else startAt workerID actions (c.currentActionIndex + 1)
      else if c.currentActionState = .failed ∨ c.currentActionState = .timeout then .ok none
      else startAt workerID actions c.currentActionIndex := by
  unfold turn
  rw [if_neg h]
  cases hs : c.currentActionState <;> simp

/-- A worker whose turn it is has found an action of its own. -/
theorem turn_eq_some {i : Int} (h : turn workerID c actions = .ok (some i)) :
    0 ≤ i ∧ ∃ a, actions[i.toNat]? = some a ∧ a.workerId = workerID := by
  have hstart : ∀ j, startAt workerID actions j = .ok (some i) →
      0 ≤ i ∧ ∃ a, actions[i.toNat]? = some a ∧ a.workerId = workerID := by
    intro j hj
    obtain ⟨rfl, hown⟩ := eq_of_startAt hj
    exact hown
  by_cases hne : c.currentAction = ""
  · rw [turn_of_unreported hne] at h
    exact hstart 0 h
  · rw [turn_of_reported hne] at h
    split at h
    · split at h
      · cases h
      · exact hstart _ h
    · split at h
      · cases h
      · exact hstart _ h

end Tink.Worker
