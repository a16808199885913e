import Tink.Worker.Announce

/-!
# The action a workflow waits for

On the database backend the actions of a workflow are done one after the other.  The row of a workflow tells how far
it has got: everything in front of `front` has a result.  A worker that is given the context of a row starts at the
front, and only the worker of the action at the front can move it, by reporting a result (`Advances`).  What the
others know about the workflow stays true (`Keeps`).

`Sound` is what holds of a worker at work on a workflow: it is at the front until it sends its result.  `Sound.step`
says what one report or one execution does to the row and to the worker.
-/

namespace Tink.Fleet

open Machine Worker

/-- The first position without a result, if the action at `i` is in the given state. -/
def frontAt (i : Int) : State → Int
  | .success | .failed | .timeout => i + 1
  | .pending | .running | .unrecognized _ _ => i

/-- The position of the first action without a result. -/
def front (row : Db.StateRow) : Int :=
  if row.currentActionName = "" then 0 else frontAt row.currentActionIndex row.currentActionState

/-- The action at the front is that of the worker `w`. -/
def Held (row : Db.StateRow) (w : String) : Prop := ∃ a, row.actionList[(front row).toNat]? = some a ∧ a.workerId = w

/-- What a report of the worker `w` can do to a row: the front stays, or it was the worker's, and moves on. -/
structure Advances (w : String) (row row' : Db.StateRow) : Prop where
  list : row'.actionList = row.actionList
  front : front row' = front row ∨ (front row < front row' ∧ Held row w)

/-- What the worker `w` can rely on while others report: the front does not go back, and stays where it is if it is
the worker's. -/
structure Keeps (w : String) (row row' : Db.StateRow) : Prop where
  list : row'.actionList = row.actionList
  front_le : front row ≤ front row'
  front_eq : Held row w → front row' = front row

variable {cfg : Config} {row row' : Db.StateRow} {w w' t : String} {n : Int} {env : Db.ReportEnv}
  {req : WorkflowActionStatus} {j : Job}

theorem Held.unique (h : Held row w) (h' : Held row w') : w = w' := by
  obtain ⟨a, hget, rfl⟩ := h
  obtain ⟨b, hget', rfl⟩ := h'
  rw [hget] at hget'
  cases hget'
  rfl

theorem Keeps.refl (w : String) (row : Db.StateRow) : Keeps w row row := ⟨rfl, le_refl _, fun _ => rfl⟩

theorem Advances.refl (w : String) (row : Db.StateRow) : Advances w row row := ⟨rfl, Or.inl rfl⟩

theorem Advances.front_le (h : Advances w row row') : Fleet.front row ≤ Fleet.front row' := by
  rcases h.front with heq | ⟨hlt, -⟩ <;> omega

/-- A report of one worker disturbs no other. -/
theorem Advances.keeps (h : Advances w row row') (hne : w' ≠ w) : Keeps w' row row' := by
  refine ⟨h.list, h.front_le, fun hheld => ?_⟩
  rcases h.front with heq | ⟨-, hown⟩
  · exact heq
  · exact absurd (hheld.unique hown) hne

/-! ### Contexts and reports -/

/-- The worker that a row is sent to starts at the front. -/
theorem front_of_turn (h : turn w (row.context t) row.actionList = .ok (some n)) :
    n = front row := by
  unfold front
  by_cases hne : row.currentActionName = ""
  · rw [turn_of_unreported hne] at h
    rw [if_pos hne]
    exact (eq_of_startAt h).1
  · rw [turn_of_reported hne] at h
    rw [if_neg hne]
    have hstate : (row.context t).currentActionState = row.currentActionState := rfl
    have hindex : (row.context t).currentActionIndex = row.currentActionIndex := rfl
    rw [hstate, hindex] at h
    cases hs : row.currentActionState with
    | success =>
      rw [if_pos hs] at h
      split at h
      · cases h
      · exact (eq_of_startAt h).1
    | failed => simp [hs] at h
    | timeout => simp [hs] at h
    | pending | running | unrecognized =>
      rw [hs] at h
      simp only [reduceCtorEq, if_false, or_self] at h
      exact (eq_of_startAt h).1

theorem front_cases (hp : Db.Positioned row) :
    front row = row.currentActionIndex ∨ front row = row.currentActionIndex + 1 := by
  unfold front
  by_cases hne : row.currentActionName = ""
  · left
    rw [if_pos hne, hp.index_bounds.2.1 hne]
  · rw [if_neg hne]
    cases row.currentActionState with
    | success | failed | timeout => right; rfl
    | pending | running | unrecognized => left; rfl

private theorem front_after (hne : req.actionName ≠ "") :
    front (row.after req) = frontAt (row.reportIndex req) req.actionStatus :=
  if_neg hne

/-- `RUNNING` moves the row to the action announced, which then is the front. -/
theorem front_announced (hp : Db.Placed row) (hj : j.Placed cfg) (hlist : j.actions = row.actionList)
    (hadm : Db.Admits env row j.announcement) : front (row.after j.announcement) = j.actionIndex := by
  have hget := hj.get
  rw [hlist] at hget
  rw [front_after hadm.action_ne, hp.reportIndex_of_admits hadm hj.nonneg hget rfl rfl]
  rfl

/-- A result is admitted where the row stands, and the front is right after it then. -/
theorem front_concluded (hp : Db.Placed row) (hj : j.Placed cfg) (hlist : j.actions = row.actionList) {e : Exit}
    (hadm : Db.Admits env row (j.conclusion e)) :
    front (row.after (j.conclusion e)) = j.actionIndex + 1 ∧
      (front row = j.actionIndex ∨ front row = j.actionIndex + 1) := by
  have hget := hj.get
  rw [hlist] at hget
  have hindex := hp.reportIndex_of_admits hadm hj.nonneg hget rfl rfl
  constructor
  · rw [front_after hadm.action_ne, hindex]
    show frontAt j.actionIndex e.status = j.actionIndex + 1
    rcases e.status_cases with h | h | h <;> rw [h] <;> rfl
  · rw [row.reportIndex_eq, if_neg fun hr => j.conclusion_ne_running e hr.1] at hindex
    have := front_cases hp.toPositioned
    omega

/-! ### A worker at work -/

/-- The front is the worker's, and it has not got past position `n`; it is there, if the worker reports at all. -/
structure Due (row : Db.StateRow) (cfg : Config) (n : Int) : Prop where
  held : Held row cfg.workerID
  front_le : front row ≤ n
  front_eq : 0 < cfg.retries → front row = n

/-- What holds of a job: until its result is stored, its action is at the front. -/
structure Sound (row : Db.StateRow) (cfg : Config) (j : Job) : Prop extends j.Placed cfg where
  actions_eq : j.actions = row.actionList
  due : match j.phase with
    | .announce _ => 0 < cfg.retries ∧ Due row cfg j.actionIndex
    | .execute => Due row cfg j.actionIndex
    | .conclude actionStatus _ => 0 < cfg.retries ∧ (∃ e, actionStatus = j.conclusion e) ∧
        (j.actionIndex < front row ∨ Due row cfg j.actionIndex)

private theorem Due.keeps (h : Due row cfg n) (hk : Keeps cfg.workerID row row') : Due row' cfg n := by
  have hfront := hk.front_eq h.held
  obtain ⟨a, hget, hw⟩ := h.held
  refine ⟨⟨a, ?_, hw⟩, ?_, ?_⟩
  · rw [hfront, hk.list]; exact hget
  · rw [hfront]; exact h.front_le
  · rw [hfront]; exact h.front_eq

theorem Sound.keeps (h : Sound row cfg j) (hk : Keeps cfg.workerID row row') : Sound row' cfg j := by
  refine ⟨h.toPlaced, h.actions_eq.trans hk.list.symm, ?_⟩
  have hdue := h.due
  cases hph : j.phase with
  | announce left =>
    rw [hph] at hdue
    exact ⟨hdue.1, hdue.2.keeps hk⟩
  | execute =>
    rw [hph] at hdue
    exact hdue.keeps hk
  | conclude actionStatus left =>
    rw [hph] at hdue
    obtain ⟨hr, he, hlt | hdue⟩ := hdue
    · refine ⟨hr, he, Or.inl ?_⟩
      have := hk.front_le
      omega
    · exact ⟨hr, he, Or.inr (hdue.keeps hk)⟩

private theorem sound_start {c : WorkflowContext} {actions : List WorkflowAction} {a : WorkflowAction}
    (hlist : actions = row.actionList) (hdue : Due row cfg n)
    (hj : (⟨c, actions, n, a,
      if c.currentActionState ≠ .running ∧ 0 < cfg.retries then .announce cfg.retries else .execute⟩ : Job).Placed
        cfg) :
    Sound row cfg ⟨c, actions, n, a,
      if c.currentActionState ≠ .running ∧ 0 < cfg.retries then .announce cfg.retries else .execute⟩ := by
  refine ⟨hj, hlist, ?_⟩
  by_cases hph : c.currentActionState ≠ .running ∧ 0 < cfg.retries
  · simp only [if_pos hph]
    exact ⟨hph.2, hdue⟩
  · simp only [if_neg hph]
    exact hdue

/-- A worker that starts at the front of a row. -/
theorem sound_of_turn {c : WorkflowContext} (hturn : turn cfg.workerID c row.actionList = .ok (some n))
    (hfront : n = front row) (hj : processContext cfg c row.actionList = .ok (.job j)) :
    j.wfContext = c ∧ Sound row cfg j := by
  obtain ⟨a, j', hj', hplaced, rfl⟩ := processContext_of_turn hturn
  rw [hj'] at hj
  cases hj
  have hheld : Held row cfg.workerID := ⟨a, by rw [← hfront]; exact hplaced.get, hplaced.worker⟩
  exact ⟨rfl, sound_start rfl ⟨hheld, by omega, fun _ => hfront.symm⟩ hplaced⟩

/-- Where a worker goes on when its action has a result. -/
private theorem sound_of_concluded {status : State} {updated : Bool} {j' : Job} (hj : j.Placed cfg)
    (hlist : j.actions = row.actionList) (hle : front row ≤ j.actionIndex + 1)
    (hdue : 0 < cfg.retries → front row = j.actionIndex + 1) (hheld : cfg.retries = 0 → Held row cfg.workerID)
    (h : j.concluded cfg status updated = .ok (.job j')) : j'.wfContext = j.wfContext ∧ Sound row cfg j' := by
  rcases hj.concluded_cases status updated with ⟨-, he⟩ | ⟨-, -, he, -⟩ | ⟨-, -, a, j₁, -, he, hplaced, rfl⟩
  · rw [he] at h; cases h
  · rw [he] at h; cases h
  · rw [he] at h
    cases h
    have hheld' : Held row cfg.workerID := by
      by_cases hr : cfg.retries = 0
      · exact hheld hr
      · refine ⟨a, ?_, hplaced.worker⟩
        rw [hdue (Nat.pos_of_ne_zero hr), ← hlist]
        exact hplaced.get
    exact ⟨rfl, sound_start hlist ⟨hheld', hle, hdue⟩ hplaced⟩

variable {s : Db.Store} {id : Pg.UUID}

/-- An announcement leaves the front where it is. -/
private theorem announcement_delivered (hp : Db.Placed row) (hrow : s.workflowState id = some row) (hj : j.Placed cfg)
    (hlist : j.actions = row.actionList) (hfront : front row = j.actionIndex) (d : Delivery) (env : Db.ReportEnv) :
    ∃ row', (deliver d env s j.announcement).1.workflowState id = some row' ∧
      row'.actionList = row.actionList ∧ front row' = front row := by
  rcases deliver_cases d env s j.announcement with ⟨hstore, -⟩ | ⟨hstore, -⟩
  · exact ⟨row, by rw [hstore]; exact hrow, rfl, rfl⟩
  · rw [hstore]
    obtain ⟨row', hrow', -, rfl | ⟨-, hadm, hrow'_eq⟩⟩ := hp.step_cases hrow (env, j.announcement)
    · exact ⟨row', hrow', rfl, rfl⟩
    · rw [hrow'_eq] at hrow'
      exact ⟨row.after j.announcement, hrow', rfl, (front_announced hp hj hlist hadm).trans hfront.symm⟩

/-- A result puts the front right after its action, if it is stored, and it is if it is acknowledged. -/
private theorem conclusion_delivered (hp : Db.Placed row) (hrow : s.workflowState id = some row) (hj : j.Placed cfg)
    (hlist : j.actions = row.actionList) (hid : Pg.UUID.ofString? j.wfContext.workflowId = some id)
    (hdue : j.actionIndex < front row ∨ Due row cfg j.actionIndex) (e : Exit) (d : Delivery) (env : Db.ReportEnv) :
    ∃ row', (deliver d env s (j.conclusion e)).1.workflowState id = some row' ∧ Advances cfg.workerID row row' ∧
      (j.actionIndex < front row' ∨ Due row' cfg j.actionIndex) ∧
      ((deliver d env s (j.conclusion e)).2 = true → front row' = j.actionIndex + 1) := by
  have hreq : Pg.UUID.ofString? (j.conclusion e).workflowId = some id := hid
  rcases deliver_cases d env s (j.conclusion e) with ⟨hstore, hnot⟩ | ⟨hstore, hack⟩
  · refine ⟨row, by rw [hstore]; exact hrow, .refl _ _, hdue, fun hc => ?_⟩
    rw [hnot] at hc
    cases hc
  · rw [hstore]
    by_cases hadm : Db.Admits env row (j.conclusion e)
    · obtain ⟨hafter, hbefore⟩ := front_concluded hp hj hlist hadm
      refine ⟨row.after (j.conclusion e), hp.step_of_admits hrow hreq hadm, ⟨rfl, ?_⟩, ?_, fun _ => hafter⟩
      · rcases hbefore with hb | hb
        · right
          exact ⟨by omega, (hdue.resolve_left (by omega)).held⟩
        · left
          omega
      · left
        omega
    · refine ⟨row, hp.step_of_not_admits hrow fun hc => hadm hc.2, .refl _ _, hdue, fun hc => ?_⟩
      exact absurd (hp.admits_of_ok hreq hrow (hack hc)) hadm

/-- The tables after a step of a worker at work are as before, or as after a report about the workflow of its
context. -/
theorem Sound.store (h : Sound row cfg j) (i : Session.Input) :
    (Session.step cfg ⟨s, .ok (.job j)⟩ i).store = s ∨
      ∃ req : WorkflowActionStatus, req.workflowId = j.wfContext.workflowId ∧
        (Session.step cfg ⟨s, .ok (.job j)⟩ i).store = Db.step s (i.env, req) := by
  have hdue := h.due
  cases hs : sends (.ok (.job j)) with
  | none =>
    left
    rw [Session.step_of_silent hs]
  | some sent =>
    obtain ⟨n, req⟩ := sent
    rw [Session.step_of_sends hs]
    have hreq : req.workflowId = j.wfContext.workflowId := by
      obtain ⟨-, ⟨left, -, rfl⟩ | ⟨actionStatus, left, hph, rfl⟩⟩ := Job.sends_eq_some hs
      · rfl
      · rw [hph] at hdue
        obtain ⟨-, ⟨e, rfl⟩, -⟩ := hdue
        rfl
    rcases deliver_cases i.delivery i.env s req with ⟨hstore, -⟩ | ⟨hstore, -⟩
    · left; exact hstore
    · right; exact ⟨req, hreq, hstore⟩

/-- What one report or one execution does: the front stays or moves on with the result of the worker, the job stays
sound, and a result that was acknowledged is behind the front. -/
theorem Sound.step (hp : Db.Placed row) (hrow : s.workflowState id = some row)
    (hid : Pg.UUID.ofString? j.wfContext.workflowId = some id) (h : Sound row cfg j) (i : Session.Input) :
    ∃ row', (Session.step cfg ⟨s, .ok (.job j)⟩ i).store.workflowState id = some row' ∧
      Advances cfg.workerID row row' ∧
      (∀ j', (Session.step cfg ⟨s, .ok (.job j)⟩ i).worker = .ok (.job j') →
        j'.wfContext = j.wfContext ∧ Sound row' cfg j') ∧
      (∀ req left, j.phase = .conclude req left → (deliver i.delivery i.env s req).2 = true →
        j.actionIndex < front row') := by
  have hdue := h.due
  cases hph : j.phase with
  | announce left =>
    rw [hph] at hdue
    obtain ⟨hr, hdue⟩ := hdue
    have hs : sends (.ok (.job j)) = some (j.actionIndex, j.announcement) := by rw [sends, hph]
    obtain ⟨row', hrow', hlist', hfront'⟩ :=
      announcement_delivered hp hrow h.toPlaced h.actions_eq (hdue.front_eq hr) i.delivery i.env
    have hdue' : Due row' cfg j.actionIndex := hdue.keeps ⟨hlist', by omega, fun _ => hfront'⟩
    have hlist := h.actions_eq.trans hlist'.symm
    rw [Session.step_of_sends hs]
    refine ⟨row', hrow', ⟨hlist', Or.inl hfront'⟩, ?_, fun _ _ hc => by cases hc⟩
    intro j' hj'
    simp only [Worker.step, Job.step, hph] at hj'
    split at hj'
    · cases hj'
      exact ⟨rfl, ⟨h.nonneg, h.get, h.worker⟩, hlist, hdue'⟩
    · split at hj'
      · cases hj'
      · cases hj'
        exact ⟨rfl, ⟨h.nonneg, h.get, h.worker⟩, hlist, hr, hdue'⟩
  | execute =>
    rw [hph] at hdue
    have hs : sends (.ok (.job j)) = none := by rw [sends, hph]
    rw [Session.step_of_silent hs]
    refine ⟨row, hrow, .refl _ _, ?_, fun _ _ hc => by cases hc⟩
    intro j' hj'
    simp only [Worker.step, Job.step, hph] at hj'
    split at hj'
    · cases hj'
    · split at hj'
      · rename_i hr
        cases hj'
        exact ⟨rfl, ⟨h.nonneg, h.get, h.worker⟩, h.actions_eq, hr, ⟨i.exit, rfl⟩, Or.inr hdue⟩
      · -- a worker that reports nothing goes on, and the front stays
        rename_i hr
        have hle := hdue.front_le
        exact sound_of_concluded h.toPlaced h.actions_eq (by omega) (fun h => absurd h hr) (fun _ => hdue.held) hj'
  | conclude req left =>
    rw [hph] at hdue
    obtain ⟨hr, ⟨e, rfl⟩, hdue⟩ := hdue
    have hs : sends (.ok (.job j)) = some (j.actionIndex, j.conclusion e) := by rw [sends, hph]
    obtain ⟨row', hrow', hadv, hlater, hacked⟩ :=
      conclusion_delivered hp hrow h.toPlaced h.actions_eq hid hdue e i.delivery i.env
    have hlist := h.actions_eq.trans hadv.list.symm
    rw [Session.step_of_sends hs]
    refine ⟨row', hrow', hadv, ?_, ?_⟩
    · intro j' hj'
      simp only [Worker.step, Job.step, hph] at hj'
      split at hj'
      · rename_i hack
        have hfront := hacked hack
        exact sound_of_concluded h.toPlaced hlist (by omega) (fun _ => hfront) (fun h0 => by omega) hj'
      · split at hj'
        · cases hj'
        · cases hj'
          exact ⟨rfl, ⟨h.nonneg, h.get, h.worker⟩, hlist, hr, ⟨e, rfl⟩, hlater⟩
    · intro req' left' hc hack
      cases hc
      have := hacked hack
      omega

end Tink.Fleet
