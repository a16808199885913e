import Tink.Kube.Advance
import Tink.Kube.Fleet

/-!
# Whose turn it is on the Kubernetes backend

A context is computed once and may be worked on much later.  What makes this safe is that the position of a workflow
is moved by reports about the action at that position only, and that this action is one of the worker who has got the
context.  A worker with a context (`Offered`) or at work on an action (`Engaged`) has the turn, and all that the
others do spares it (`Offered.spared`, `Engaged.spared`).  Its own steps keep it at the current position, until the
result of the last action of its block is reported (`Engaged.step`).
-/

namespace Tink.Kube.Fleet

open Machine Worker

variable {r : Template.Renderer TemplateData} {w : String} {wf wf' : Workflow} {c : WorkflowContext} {j : Job}
  {cfg : Config}

/-! ### Having the turn -/

/-- The context says that it is the turn of `w` at the current position.  A workflow without any action is offered to
its workers too, and makes them panic. -/
structure Offered (w : String) (wf : Workflow) (c : WorkflowContext) : Prop where
  sane : Sane wf
  turn : turn w c (workflowActionListCRDToProto wf) = .panic ∨
    turn w c (workflowActionListCRDToProto wf) = .ok (some wf.currentPosition)

/-- The action at the current position is one of `w`. -/
def HasTurn (w : String) (wf : Workflow) : Prop :=
  ∃ a, (workflowActionListCRDToProto wf)[wf.currentPosition]? = some a ∧ a.workerId = w

/-- The job is about the workflow as it is: before the result of an action is reported the worker has the turn, at
this action if it reports at all. -/
structure Engaged (cfg : Config) (wf : Workflow) (j : Job) : Prop where
  sane : Sane wf
  list : j.actions = workflowActionListCRDToProto wf
  turn : (∀ req left, j.phase ≠ .conclude req left) →
    HasTurn cfg.workerID wf ∧ (wf.currentPosition : Int) ≤ j.actionIndex ∧
      (0 < cfg.retries → (wf.currentPosition : Int) = j.actionIndex)
  late : ∀ req left, j.phase = .conclude req left → j.actionIndex ≤ wf.currentPosition

/-- What a job is by itself: at an action of its own, and its result is one of `execute`. -/
structure Regular (cfg : Config) (j : Job) : Prop extends j.Placed cfg where
  result : ∀ req left, j.phase = .conclude req left → ∃ e, req = j.conclusion e

theorem hasTurn_of_turn (ht : turn w c (workflowActionListCRDToProto wf) = .ok (some wf.currentPosition)) :
    HasTurn w wf := by
  obtain ⟨-, a, ha, hw⟩ := turn_eq_some ht
  exact ⟨a, ha, hw⟩

theorem HasTurn.unique {v : String} (h : HasTurn w wf) (h' : HasTurn v wf) : v = w := by
  obtain ⟨a, ha, rfl⟩ := h
  obtain ⟨b, hb, rfl⟩ := h'
  rw [ha] at hb
  cases hb; rfl

/-- What `w` notices of an event of the workflow: if it has the turn, the position does not move. -/
structure Spares (w : String) (wf wf' : Workflow) : Prop where
  sane : Sane wf'
  list : workflowActionListCRDToProto wf' = workflowActionListCRDToProto wf
  le : wf.currentPosition ≤ wf'.currentPosition
  turn : HasTurn w wf → wf'.currentPosition = wf.currentPosition

theorem Spares.refl (w : String) (hg : Sane wf) : Spares w wf wf := ⟨hg, rfl, le_refl _, fun _ => rfl⟩

theorem spares_reconcile (w : String) (hg : Sane wf) (env : ReconcileEnv) :
    Spares w wf (Kube.step r wf (.reconcile env)) :=
  ⟨hg.step trivial, hg.list_step _, (position_of_reconcile hg env).ge, fun _ => position_of_reconcile hg env⟩

/-- The reports of the others are about actions of their own. -/
theorem spares_of_advance {u : String} (h : Advance u wf wf') (hne : w ≠ u) : Spares w wf wf' := by
  refine ⟨h.sane, h.list, h.le, fun hturn => ?_⟩
  rcases h.position with hp | ⟨-, hu⟩
  · exact hp
  · have hu : HasTurn u wf := hu
    exact absurd (hu.unique hturn) hne

theorem Offered.spared (h : Offered w wf c) (hs : Spares w wf wf') : Offered w wf' c := by
  refine ⟨hs.sane, ?_⟩
  rw [hs.list]
  rcases h.turn with hp | ht
  · left; exact hp
  · right; rw [hs.turn (hasTurn_of_turn ht)]; exact ht

theorem Engaged.spared (h : Engaged cfg wf j) (hs : Spares cfg.workerID wf wf') : Engaged cfg wf' j := by
  refine ⟨hs.sane, h.list.trans hs.list.symm, fun hph => ?_, fun req left hph => ?_⟩
  · obtain ⟨hturn, hle, heq⟩ := h.turn hph
    have hpos := hs.turn hturn
    refine ⟨?_, by rw [hpos]; exact hle, by rw [hpos]; exact heq⟩
    unfold HasTurn
    rw [hs.list, hpos]; exact hturn
  · have := h.late req left hph
    have := hs.le
    omega

/-! ### The steps of a job -/

/-- What a step leads to, if the worker is at work afterwards: it is in another phase of the same action, or at the
beginning of the next one. -/
private theorem job_step_cases {j' : Job} {i : Worker.Input} (hj : j.Placed cfg) (h : j.step cfg i = .ok (.job j')) :
    (∃ left left', j.phase = .announce left ∧
      (j' = { j with phase := .execute } ∨ j' = { j with phase := .announce left' })) ∨
      (j.phase = .execute ∧ 0 < cfg.retries ∧ j' = { j with phase := .conclude (j.conclusion i.exit) cfg.retries }) ∨
      (∃ req left left', j.phase = .conclude req left ∧ j' = { j with phase := .conclude req left' }) ∨
      (((j.phase = .execute ∧ cfg.retries = 0) ∨
          ∃ req left, j.phase = .conclude req left ∧ i.acknowledged = true ∧ req.actionStatus = .success) ∧
        ∃ a, j.actions[j.actionIndex.toNat + 1]? = some a ∧ j'.Placed cfg ∧
          j' = ⟨j.wfContext, j.actions, j.actionIndex + 1, a,
            if j.wfContext.currentActionState ≠ .running ∧ 0 < cfg.retries then .announce cfg.retries
            else .execute⟩) := by
  have hnext : ∀ status updated, j.concluded cfg status updated = .ok (.job j') → status = .success ∧
      ∃ a, j.actions[j.actionIndex.toNat + 1]? = some a ∧ j'.Placed cfg ∧
        j' = ⟨j.wfContext, j.actions, j.actionIndex + 1, a,
          if j.wfContext.currentActionState ≠ .running ∧ 0 < cfg.retries then .announce cfg.retries
          else .execute⟩ := by
    intro status updated hc
    rcases hj.concluded_cases status updated with ⟨-, he⟩ | ⟨-, -, he, -⟩ | ⟨hs, -, a, j'', ha, he, hplaced, hj''⟩
    · rw [he] at hc; cases hc
    · rw [he] at hc; cases hc
    · rw [he] at hc; cases hc
      exact ⟨hs, a, ha, hplaced, hj''⟩
  unfold Job.step at h
  split at h
  · rename_i left hph
    left
    split at h
    · cases h; exact ⟨left, 0, hph, Or.inl rfl⟩
    · split at h
      · cases h
      · cases h; exact ⟨left, left - 1, hph, Or.inr rfl⟩
  · rename_i hph
    right
    split at h
    · cases h
    · split at h
      · rename_i hpos
        left; cases h; exact ⟨hph, hpos, rfl⟩
      · rename_i hzero
        right; right
        exact ⟨Or.inl ⟨hph, by omega⟩, (hnext _ _ h).2⟩
  · rename_i req left hph
    right; right
    split at h
    · rename_i hack
      obtain ⟨hs, hrest⟩ := hnext _ _ h
      right
      exact ⟨Or.inr ⟨req, left, hph, hack, hs⟩, hrest⟩
    · split at h
      · cases h
      · left; cases h; exact ⟨req, left, left - 1, hph, rfl⟩

theorem Regular.step {j' : Job} {i : Worker.Input} (hj : Regular cfg j) (h : j.step cfg i = .ok (.job j')) :
    j'.wfContext = j.wfContext ∧ Regular cfg j' := by
  rcases job_step_cases hj.toPlaced h with ⟨left, left', -, rfl | rfl⟩ | ⟨-, -, rfl⟩ | ⟨req, left, left', hph, rfl⟩ |
      ⟨-, a, -, hplaced, hj'⟩
  · exact ⟨rfl, { hj.toPlaced with result := fun _ _ h => by cases h }⟩
  · exact ⟨rfl, { hj.toPlaced with result := fun _ _ h => by cases h }⟩
  · exact ⟨rfl, { hj.toPlaced with result := fun _ _ h => by cases h; exact ⟨i.exit, rfl⟩ }⟩
  · refine ⟨rfl, { hj.toPlaced with result := fun _ _ h => ?_ }⟩
    cases h
    exact hj.result req left hph
  · subst hj'
    refine ⟨rfl, { hplaced with result := fun req left h => ?_ }⟩
    simp only at h
    split at h <;> cases h

/-- A step of a job with what its report, if it sends one, makes of the workflow: a report of `RUNNING` does not move
the position, and an acknowledged success moves it to the next action. -/
theorem Engaged.step {j' : Job} {i : Worker.Input} (he : Engaged cfg wf j) (hj : Regular cfg j) (hsane : Sane wf')
    (hlist : workflowActionListCRDToProto wf' = workflowActionListCRDToProto wf)
    (hle : wf.currentPosition ≤ wf'.currentPosition)
    (hstill : (∀ req left, j.phase ≠ .conclude req left) → wf'.currentPosition = wf.currentPosition)
    (hnext : ∀ req left, j.phase = .conclude req left → i.acknowledged = true → req.actionStatus = .success →
      (wf'.currentPosition : Int) = j.actionIndex + 1)
    (h : j.step cfg i = .ok (.job j')) : Engaged cfg wf' j' := by
  have hlist' : j.actions = workflowActionListCRDToProto wf' := he.list.trans hlist.symm
  have hturn : (∀ req left, j.phase ≠ .conclude req left) → HasTurn cfg.workerID wf' ∧
      (wf'.currentPosition : Int) ≤ j.actionIndex ∧
      (0 < cfg.retries → (wf'.currentPosition : Int) = j.actionIndex) := by
    intro hph
    obtain ⟨hturn, hpos⟩ := he.turn hph
    unfold HasTurn
    rw [hlist, hstill hph]
    exact ⟨hturn, hpos⟩
  rcases job_step_cases hj.toPlaced h with ⟨left, left', hph, rfl | rfl⟩ | ⟨hph, hpos, rfl⟩ |
    ⟨req, left, left', hph, rfl⟩ |
      ⟨hph, a, ha, hplaced, hj'⟩
  · exact ⟨hsane, hlist', fun _ => hturn (by simp [hph]), fun _ _ h => by cases h⟩
  · exact ⟨hsane, hlist', fun _ => hturn (by simp [hph]), fun _ _ h => by cases h⟩
  · refine ⟨hsane, hlist', fun h => absurd rfl (h _ _), fun _ _ _ => ?_⟩
    exact ((hturn (by simp [hph])).2.2 hpos).ge
  · refine ⟨hsane, hlist', fun h => absurd rfl (h _ _), fun _ _ _ => ?_⟩
    have := he.late req left hph
    show j.actionIndex ≤ _
    omega
  · -- the next action
    subst hj'
    have hnonneg := hj.nonneg
    refine ⟨hsane, hlist', fun _ => ?_, fun req left h => ?_⟩
    · rcases hph with ⟨hph, hzero⟩ | ⟨req, left, hph, hack, hs⟩
      · obtain ⟨ht, hpos, -⟩ := hturn (by simp [hph])
        refine ⟨ht, ?_, fun hr => by omega⟩
        show _ ≤ j.actionIndex + 1
        omega
      · have hpos := hnext req left hph hack hs
        refine ⟨⟨a, ?_, hplaced.worker⟩, hpos.le, fun _ => hpos⟩
        rw [← hlist', ← ha]
        congr 1
        omega
    · simp only at h
      split at h <;> cases h

/-! ### What a report does to the workflow of a job -/

/-- The report that a job is sending names the action at its position. -/
theorem Regular.sends (hj : Regular cfg j) {n : Int} {req : WorkflowActionStatus}
    (h : Worker.sends (.ok (.job j)) = some (n, req)) :
    req.workflowId = j.wfContext.workflowId ∧ req.taskName = j.action.taskName ∧ req.actionName = j.action.name ∧
      req.actionStatus.Declared ∧
      ((∀ req left, j.phase ≠ .conclude req left) → req.actionStatus = .running) ∧
      ∀ req' left, j.phase = .conclude req' left → req = req' := by
  cases hph : j.phase with
  | announce left =>
    simp only [Worker.sends, hph, Option.some.injEq, Prod.mk.injEq] at h
    obtain ⟨-, rfl⟩ := h
    exact ⟨rfl, rfl, rfl, trivial, fun _ => rfl, fun _ _ h => by cases h⟩
  | execute => simp [Worker.sends, hph] at h
  | conclude req' left =>
    simp only [Worker.sends, hph, Option.some.injEq, Prod.mk.injEq] at h
    obtain ⟨-, rfl⟩ := h
    obtain ⟨e, rfl⟩ := hj.result req' left hph
    refine ⟨rfl, rfl, rfl, ?_, fun h => absurd rfl (h _ _), fun _ _ h => by cases h; rfl⟩
    show e.status.Declared
    rcases e.status_cases with h | h | h <;> rw [h] <;> trivial

/-- The report of a job moves the workflow on at most, and if it is accepted then it is about the current action. -/
theorem Engaged.report (he : Engaged cfg wf j) (hj : Regular cfg j) {n : Int} {req : WorkflowActionStatus}
    (h : Worker.sends (.ok (.job j)) = some (n, req)) (env : ReportEnv) :
    Advance cfg.workerID wf (Kube.step r wf (.report env req)) ∧
      ((∀ req left, j.phase ≠ .conclude req left) →
        (Kube.step r wf (.report env req)).currentPosition = wf.currentPosition) ∧
      ∀ wf', reportActionStatus env wf req = .ok wf' → req.actionStatus = .success →
        ((Kube.step r wf (.report env req)).currentPosition : Int) = j.actionIndex + 1 := by
  obtain ⟨-, ht, hn, hd, hrun, -⟩ := hj.sends h
  have hget : (workflowActionListCRDToProto wf)[j.actionIndex.toNat]? = some j.action := he.list ▸ hj.get
  have hnonneg := hj.nonneg
  refine ⟨advance_report he.sane hd hget ht.symm hn.symm hj.worker, fun hph => ?_, fun wf' hok hs => ?_⟩
  · cases hr : reportActionStatus env wf req with
    | error _ => simp only [Kube.step, hr]
    | ok wf' =>
      have hpos := (position_of_report he.sane hr).2
      rw [hrun hph, if_neg (by decide)] at hpos
      simp only [Kube.step, hr, hpos]
  · obtain ⟨⟨b, hb, hbt, hbn⟩, hpos⟩ := position_of_report he.sane hok
    have hidx := he.sane.position_unique hget hb (ht.symm.trans hbt.symm) (hn.symm.trans hbn.symm)
    rw [if_pos hs] at hpos
    simp only [Kube.step, hok, hpos]
    omega

end Tink.Kube.Fleet
