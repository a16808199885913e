import Tink.Db.Final
import Tink.Db.Trace
import Tink.Fleet.Order

/-!
# The end of a workflow

The handler does not look at the state of a workflow, so a report can take it out of a final state.  The workers send
no such report: whoever announces or executes an action has the front and finds a row without a failure (`onTrack`),
and what is left are results that come again, which change nothing.  So the row of a workflow in a final state is
never changed again, and nothing of the workflow is executed (`final_row_kept`).
-/

namespace Tink.Fleet

open Machine Worker

variable {H : Type} {r : Template.Renderer H} {cfg : Config} {row row' : Db.StateRow} {id : Pg.UUID}
    {w : String} {j : Job}
  {y : Outcome Empty Progress} {x : System} {m : Move} {e : Exit} {left : Nat}

/-- An action of the workflow has failed, or there is none left. -/
def Closed (row : Db.StateRow) : Prop := ¬ Healthy row ∨ ∀ w, ¬ Held row w

private theorem closed_of_final (hp : Db.Positioned row) (h : Db.Final row.state) : Closed row := by
  have hcur := Db.StateRow.currentActionState_eq_of_final h
  rcases h with h | h | h
  · left; exact fun hh => hh.1 (hcur.trans h)
  · left; exact fun hh => hh.2 (hcur.trans h)
  · right
    rintro w ⟨a, hget, -⟩
    have hs : row.currentActionState = .success := hcur.trans h
    have hlast : row.currentActionIndex = row.totalNumberOfActions - 1 := by
      unfold Db.StateRow.state at h
      rw [if_neg (not_not.2 hs)] at h
      by_contra hne
      rw [if_neg hne] at h
      cases h
    have hne : row.currentActionName ≠ "" := by
      apply hp.action_ne
      intro hun
      rw [hun.state] at hs
      cases hs
    -- the front is behind the last action
    have hfront : front row = row.actionList.length := by
      unfold front
      rw [if_neg hne, hs]
      show row.currentActionIndex + 1 = _
      rw [hlast, hp.total]
      omega
    rw [hfront, Int.toNat_natCast, List.getElem?_eq_none (le_refl _)] at hget
    cases hget

/-- What shows a final state has a row; the state of a missing one is that of the zero context. -/
private theorem exists_row_of_final {s : Db.Store} (h : Db.Final (Db.getWorkflowState none s id.toString)) :
    ∃ row, s.workflowState id = some row := by
  unfold Db.getWorkflowState at h
  cases hc : Db.getWorkflowContexts none s id.toString with
  | ok c =>
    obtain ⟨-, id', row, hid, hrow, -⟩ := Db.getWorkflowContexts_eq_ok.1 hc
    rw [Pg.UUID.ofString?_toString] at hid
    cases hid
    exact ⟨row, hrow⟩
  | error e =>
    rw [hc] at h
    rcases h with h | h | h <;> cases h

/-- Nobody has the front of a closed workflow on track. -/
private theorem Closed.not_due {n : Int} (h : Closed row) (hh : Healthy row) : ¬ Due row cfg n := by
  intro hdue
  rcases h with hnot | hnot
  · exact hnot hh
  · exact hnot _ hdue.held

/-- A result that a closed row admits is the one it has. -/
private theorem repeated {env : Db.ReportEnv} (hp : Db.Placed row) (hs : Sound row cfg j) (hw : OnTrack row j)
    (h : Closed row) (hph : j.phase = .conclude (j.conclusion e) left) (hadm : Db.Admits env row (j.conclusion e)) :
    row.after (j.conclusion e) = row := by
  have hdue := hs.due
  unfold OnTrack at hw
  rw [hph] at hdue hw
  obtain ⟨hindex, -⟩ := index_of_concluded hp hs hadm
  obtain ⟨hlt, hstate⟩ : j.actionIndex < front row ∧ row.currentActionState = (j.conclusion e).actionStatus := by
    rcases hw with ⟨hlt, hstate⟩ | ⟨hhealthy, hfront⟩
    · exact ⟨hlt, hstate hindex⟩
    · rcases hdue.2.2 with hlt | hdue
      · omega
      · exact absurd hdue (h.not_due hhealthy)
  obtain ⟨-, row₁, happ⟩ := hp.toPositioned.admits_iff_applied.1 hadm
  obtain rfl := hp.toPositioned.eq_after happ
  refine (hp.toPositioned.applied_eq_self_iff happ).2 ⟨fun hne => ?_, j.conclusion_ne_running e, hstate⟩
  -- a row without a report has its front at its first action
  have h0 := hp.toPositioned.index_bounds.2.1 hne
  have hfront : front row = 0 := by rw [front, if_pos hne]
  omega

/-- Whoever is at work on a closed workflow leaves its row as it is. -/
private theorem Closed.effect (h : Closed row) (hp : Db.Placed row) (hs : Sound row cfg j) (hw : OnTrack row j)
    (heffect : Effect cfg row j row' y) : row' = row := by
  have hdue := hs.due
  cases heffect with
  | announce hph _ _ =>
    unfold OnTrack at hw
    rw [hph] at hdue hw
    exact absurd hdue.2 (h.not_due hw)
  | exits => rfl
  | execute => rfl
  | skip => rfl
  | conclude hph hrow _ =>
    rcases hrow with heq | ⟨env, hadm, rfl⟩
    · exact heq
    · exact repeated hp hs hw h hph hadm
  | concluded hph hadm _ => exact repeated hp hs hw h hph hadm

private theorem Closed.step (h : Closed row) (hinv : Inv x) (hon : onTrack.Holds x)
    (hrow : x.store.workflowState id = some row)
    (m : Move) : (Fleet.step r x m).store.workflowState id = some row := by
  obtain ⟨row', hrow', -⟩ := hinv.step_rows (r := r) m hrow
  rcases hinv.row_cases m hrow' with hsame | ⟨hnone, -⟩ | ⟨w, i, p, j, row₁, rfl, hlive, hj, hid, hrow₁, hs, heffect⟩
  · rw [hrow', ← hsame, hrow]
  · rw [hrow] at hnone
    cases hnone
  · rw [hrow] at hrow₁
    cases hrow₁
    have hw : OnTrack row j := (hon.processes w p hlive).current j hj id row hid hrow
    rw [hrow', h.effect (hinv.reachable.placed hrow) hs hw heffect]

/-- In every run of the service and its workers: once a workflow is in a final state, its row is never changed again,
and nothing of it is executed. -/
theorem final_row_kept (r : Template.Renderer H) (before after : List Move) (id : Pg.UUID)
    (h : Db.Final (Db.getWorkflowState none (run (step r) {} before).store id.toString)) :
    (run (step r) {} (before ++ after)).store.workflowState id = (run (step r) {} before).store.workflowState id ∧
      ∀ task action, ¬ Executing (run (step r) {} (before ++ after)) id task action := by
  have hinv := inv_run (r := r) before
  obtain ⟨row, hrow⟩ := exists_row_of_final h
  rw [Db.getWorkflowState_eq (Pg.UUID.ofString?_toString id) hrow] at h
  have hclosed := closed_of_final (hinv.reachable.positioned hrow) h
  have hrun : Inv (run (step r) {} (before ++ after)) ∧ onTrack.Holds (run (step r) {} (before ++ after)) ∧
      (run (step r) {} (before ++ after)).store.workflowState id = some row := by
    rw [run_append]
    refine run_inv (I := fun x => Inv x ∧ onTrack.Holds x ∧ x.store.workflowState id = some row)
      ⟨hinv, onTrack.holds_run before, hrow⟩ ?_
    rintro x m ⟨hinv, hon, hrow⟩
    exact ⟨hinv.step m, hon.step hinv m, hclosed.step hinv hon hrow m⟩
  obtain ⟨hinv', hon, hrow'⟩ := hrun
  refine ⟨hrow'.trans hrow.symm, ?_⟩
  rintro task action ⟨w, p, j, hlive, hj, hph, hid, -, -⟩
  obtain ⟨row'', hrow'', hdue⟩ := (⟨hlive, hj, hph, hid⟩ : Executes _ w id p j).due hinv'
  rw [hrow'] at hrow''
  cases hrow''
  have hw : OnTrack row j := (hon.processes w p hlive).current j hj id row hid hrow'
  unfold OnTrack at hw
  rw [hph] at hw
  exact hclosed.not_due hw hdue

/-- The first of two actions succeeds and the second one fails, and the worker reports it. -/
def failingMoves : List Move :=
  sampleMoves ++ [.work Db.machine1 {}, .work Db.machine1 {}, .work Db.machine1 { exit := { st := .failed } },
    .work Db.machine1 {}]

/-- The worker starts again and asks for work. -/
theorem final_row_kept_failed :
    let failed := run (step sampleRenderer) {} failingMoves
    let later := run (step sampleRenderer) {} (failingMoves ++ [.start Db.machine1 3, .poll Db.machine1 none,
      .serve Db.machine1 {}, .receive Db.machine1 none])
    Db.getWorkflowState none failed.store Db.sampleID.toString = .failed ∧
      later.store.workflowState Db.sampleID = failed.store.workflowState Db.sampleID ∧
      ∀ task action, ¬ Executing later Db.sampleID task action := by
  have hfailed : Db.getWorkflowState none (run (step sampleRenderer) {} failingMoves).store
      Db.sampleID.toString = .failed := by decide +kernel
  have hfinal : Db.Final (Db.getWorkflowState none (run (step sampleRenderer) {} failingMoves).store
      Db.sampleID.toString) := .inl hfailed
  have hkept := final_row_kept sampleRenderer failingMoves [.start Db.machine1 3, .poll Db.machine1 none,
    .serve Db.machine1 {}, .receive Db.machine1 none] Db.sampleID hfinal
  exact ⟨hfailed, hkept⟩

end Tink.Fleet
