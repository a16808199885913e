import Tink.Db.Index
import Tink.Kube.Protocol
import Tink.Worker.Job

/-!
# Actions announced before they are finished

A worker reports `RUNNING` for an action unless the context it has received says that the workflow is running already.
The context is not read again when the worker goes on to the next action of its own, so after a restart in the middle
of an action the following ones are executed and finished without having been announced.  On the database backend
`RUNNING` is the report that moves the index, and the result of an action that was not announced is rejected.

`announced_iff` says that there is no other way: whatever the reports are answered and the containers end with, every
result is about an action that was announced, and the database server accepts it, unless the context is `RUNNING`,
reports are sent at all, and the next action is the worker's as well.  Both halves follow from one rule about the
loop, `Tracks.step`.
-/

namespace Tink.Worker

open Machine

/-- A context that one of the two servers can have. -/
inductive Served : WorkflowContext → Prop where
  | kube {r : Template.Renderer Kube.TemplateData} {wf₀ : Kube.Workflow} (h0 : wf₀.status = {})
    (es : List Kube.Event) :
      Served (Kube.getWorkflowContext (run (Kube.step r) wf₀ es))
  | db {s : Db.Store} {id : Pg.UUID} {row : Db.StateRow} (hs : Db.Reachable s) (hrow : s.workflowState id = some row)
      (wfID : String) : Served (row.context wfID)

/-- The context is not `RUNNING`, or no reports are sent, or the action after the current one is not the worker's. -/
def Safe (cfg : Config) (c : WorkflowContext) (actions : List WorkflowAction) : Prop :=
  c.currentActionState = .running →
    cfg.retries = 0 ∨ ¬ ∃ a, actions[c.currentActionIndex.toNat + 1]? = some a ∧ a.workerId = cfg.workerID

/-- What becomes of a report: it is answered, it arrives and the answer is lost, or it does not arrive. -/
inductive Delivery where
  | answered
  | lost
  | undelivered

/-- The tables after a report, and whether the worker has got an answer without an error. -/
def deliver (d : Delivery) (env : Db.ReportEnv) (s : Db.Store) (req : WorkflowActionStatus) : Db.Store × Bool :=
  match d with
  | .answered =>
    (Db.step s (env, req),
      match (Db.reportActionStatus env s req).2 with
      | .ok _ => true
      | _ => false)
  | .lost => (Db.step s (env, req), false)
  | .undelivered => (s, false)

structure Session where
  store : Db.Store
  worker : Outcome Empty Progress

/-- What happens to a report, and what a lap of the loop meets otherwise. -/
structure Session.Input extends Lap where
  delivery : Delivery := .answered
  env : Db.ReportEnv := {}

/-- A worker and the database server: one report, or one execution. -/
def Session.step (cfg : Config) (x : Session) (i : Session.Input) : Session :=
  match sends x.worker with
  | none => { x with worker := Worker.step cfg x.worker { i.toLap with } }
  | some (_, req) =>
    { store := (deliver i.delivery i.env x.store req).1
      worker := Worker.step cfg x.worker
        { i.toLap with acknowledged := (deliver i.delivery i.env x.store req).2 } }

/-- The result that is being sent, if one is, names the current action of the workflow and is not rejected. -/
def Accepted (id : Pg.UUID) (x : Session) : Prop :=
  ∀ n req, sends x.worker = some (n, req) → req.actionStatus ≠ .running →
    ∃ row, x.store.workflowState id = some row ∧ row.currentTaskName = req.taskName ∧
      row.currentActionName = req.actionName ∧ ∃ s', Db.reportUpdate {} x.store req = .ok s'

variable {cfg : Config} {c : WorkflowContext} {actions : List WorkflowAction} {i : Int}

theorem deliver_cases (d : Delivery) (env : Db.ReportEnv) (s : Db.Store) (req : WorkflowActionStatus) :
    ((deliver d env s req).1 = s ∧ (deliver d env s req).2 = false) ∨
      ((deliver d env s req).1 = Db.step s (env, req) ∧
        ((deliver d env s req).2 = true → (Db.reportActionStatus env s req).2 = .ok ())) := by
  cases d with
  | undelivered => left; exact ⟨rfl, rfl⟩
  | lost => right; exact ⟨rfl, fun h => by cases h⟩
  | answered =>
    right
    refine ⟨rfl, fun h => ?_⟩
    simp only [deliver] at h
    split at h
    · assumption
    · cases h

theorem deliver_answered {env : Db.ReportEnv} {s : Db.Store} {req : WorkflowActionStatus}
    (h : (Db.reportActionStatus env s req).2 = .ok ()) : (deliver .answered env s req).2 = true := by
  simp only [deliver, h]

theorem Session.step_of_silent {x : Session} (hs : sends x.worker = none) (inp : Session.Input) :
    Session.step cfg x inp = ⟨x.store, Worker.step cfg x.worker ⟨inp.toLap, true⟩⟩ := by
  unfold Session.step
  rw [hs]

theorem Session.step_of_sends {x : Session} {n : Int} {req : WorkflowActionStatus}
    (hs : sends x.worker = some (n, req)) (inp : Session.Input) :
    Session.step cfg x inp = ⟨(deliver inp.delivery inp.env x.store req).1,
      Worker.step cfg x.worker ⟨inp.toLap, (deliver inp.delivery inp.env x.store req).2⟩⟩ := by
  unfold Session.step
  rw [hs]

/-! ### What the servers send -/

/-- A context that is `RUNNING` names an action. -/
private theorem Served.currentAction_ne (h : Served c) (hs : c.currentActionState = .running) :
    c.currentAction ≠ "" := by
  cases h with
  | @kube r wf₀ h0 es =>
    rcases Kube.closed_or_cursor (run (Kube.step r) wf₀ es).status.tasks with hclosed | ⟨cur, hc⟩
    · have hstate : stateValue (run (Kube.step r) wf₀ es).getTaskActionInfo.currentActionState = .running := hs
      rw [Kube.info_of_closed hclosed] at hstate
      cases hstate
    · show (run (Kube.step r) wf₀ es).getTaskActionInfo.currentAction ≠ ""
      rw [cur.info hc]
      exact (Kube.nonempty_of_run h0 es).action cur.task (by rw [hc]; simp [Kube.Cursor.tasks]) cur.action
        (by rw [cur.actions_eq]; simp)
  | @db s id row hrs hrow wfID =>
    apply (hrs.positioned hrow).action_ne
    intro hun
    have hstate : row.currentActionState = .running := hs
    rw [hun.state] at hstate
    cases hstate

/-- A worker starts with the action that is `RUNNING`. -/
private theorem Served.start_eq (h : Served c) (hs : c.currentActionState = .running)
    (hturn : turn cfg.workerID c actions = .ok (some i)) : i = c.currentActionIndex := by
  rw [turn_of_reported (h.currentAction_ne hs), hs] at hturn
  simp only [reduceCtorEq, if_false, or_self] at hturn
  exact (eq_of_startAt hturn).1

/-! ### The loop -/

/-- A job on the given context and list, still at the current action if the context is `RUNNING`. -/
structure Job.On (cfg : Config) (c : WorkflowContext) (actions : List WorkflowAction) (j : Job) : Prop
    extends j.Placed cfg where
  context_eq : j.wfContext = c
  actions_eq : j.actions = actions
  start : c.currentActionState = .running → 0 < cfg.retries → j.actionIndex = c.currentActionIndex

/-- `N` holds of the position of an action that is being executed or has been. -/
def Job.Tracked (cfg : Config) (N : Int → Prop) (j : Job) : Prop :=
  match j.phase with
  | .announce _ => True
  | .execute => 0 < cfg.retries → N j.actionIndex
  | .conclude actionStatus _ => (∃ e, actionStatus = j.conclusion e) ∧ N j.actionIndex

def Tracks (cfg : Config) (c : WorkflowContext) (actions : List WorkflowAction) (N : Int → Prop) :
    Outcome Empty Progress → Prop
  | .ok (.job j) => j.On cfg c actions ∧ j.Tracked cfg N
  | _ => True

variable {N N' : Int → Prop}

/-- A job starts with an announcement unless the context is `RUNNING` or nothing is reported. -/
private theorem tracked_start {a : WorkflowAction} (h : c.currentActionState = .running → 0 < cfg.retries → N i) :
    Job.Tracked cfg N ⟨c, actions, i, a,
      if c.currentActionState ≠ .running ∧ 0 < cfg.retries then .announce cfg.retries else .execute⟩ := by
  unfold Job.Tracked
  by_cases hph : c.currentActionState ≠ .running ∧ 0 < cfg.retries
  · simp only [if_pos hph]
  · simp only [if_neg hph]
    intro hr
    exact h (by by_contra hne; exact hph ⟨hne, hr⟩) hr

private theorem tracks_concluded {j : Job} (hsafe : Safe cfg c actions) (hj : j.On cfg c actions) (status : State)
    (updated : Bool) : Tracks cfg c actions N (j.concluded cfg status updated) := by
  rcases hj.concluded_cases status updated with ⟨-, h⟩ | ⟨-, -, h, -⟩ | ⟨-, -, a, j', hget, h, hj', rfl⟩
  · rw [h]; trivial
  · rw [h]; trivial
  · -- a running context has no next action of this worker
    have hrun : c.currentActionState = .running → ¬ 0 < cfg.retries := by
      intro hs hr
      rcases hsafe hs with h0 | hno
      · omega
      · apply hno
        rw [← hj.start hs hr, ← hj.actions_eq]
        exact ⟨a, hget, hj'.worker⟩
    rw [h, hj.actions_eq, hj.context_eq]
    rw [hj.actions_eq, hj.context_eq] at hj'
    exact ⟨⟨hj', rfl, rfl, fun hs hr => absurd hr (hrun hs)⟩, tracked_start fun hs hr => absurd hr (hrun hs)⟩

/-- The rule for the loop: `N` becomes true of a position when its `RUNNING` report is acknowledged, and stays true of
it until the worker is done with the action. -/
theorem Tracks.step {x : Outcome Empty Progress} {inp : Input} (hsafe : Safe cfg c actions)
    (h : Tracks cfg c actions N x)
    (hann : ∀ j left, x = .ok (.job j) → j.On cfg c actions → j.phase = .announce left → inp.acknowledged = true →
      N' j.actionIndex)
    (hkeep : ∀ j, x = .ok (.job j) → (∀ left, j.phase ≠ .announce left) → N j.actionIndex → N' j.actionIndex) :
    Tracks cfg c actions N' (Worker.step cfg x inp) := by
  match x, h with
  | .ok .next, _ => trivial
  | .ok .exit, _ => trivial
  | .panic, _ => trivial
  | .error e, _ => exact e.elim
  | .ok (.job j), ⟨hj, htr⟩ =>
    have hsame : ∀ ph, Job.On cfg c actions { j with phase := ph } := fun ph =>
      ⟨⟨hj.nonneg, hj.get, hj.worker⟩, hj.context_eq, hj.actions_eq, hj.start⟩
    show Tracks cfg c actions N' (j.step cfg inp)
    unfold Job.step
    unfold Job.Tracked at htr
    cases hph : j.phase with
    | announce left =>
      simp only
      split
      · rename_i hack
        exact ⟨hsame _, fun _ => hann j left rfl hj hph hack⟩
      · split
        · trivial
        · exact ⟨hsame _, trivial⟩
    | execute =>
      rw [hph] at htr
      simp only
      split
      · trivial
      · split
        · rename_i hr
          exact ⟨hsame _, ⟨inp.exit, rfl⟩, hkeep j rfl (by simp [hph]) (htr hr)⟩
        · exact tracks_concluded hsafe hj _ _
    | conclude actionStatus left =>
      rw [hph] at htr
      obtain ⟨⟨e, he⟩, hN⟩ := htr
      simp only
      split
      · exact tracks_concluded hsafe hj _ _
      · split
        · trivial
        · exact ⟨hsame _, ⟨e, he⟩, hkeep j rfl (by simp [hph]) hN⟩

/-- A result that is being sent is that of the action at its position. -/
private theorem Tracks.sends {x : Outcome Empty Progress} {n : Int} {req : WorkflowActionStatus}
    (h : Tracks cfg c actions N x) (hs : sends x = some (n, req)) (hne : req.actionStatus ≠ .running) :
    N n ∧ ∃ j : Job, j.On cfg c actions ∧ j.actionIndex = n ∧ ∃ e, req = j.conclusion e := by
  match x, h with
  | .ok (.job j), ⟨hj, htr⟩ =>
    unfold Worker.sends at hs
    unfold Job.Tracked at htr
    cases hph : j.phase with
    | announce left =>
      simp only [hph, Option.some.injEq, Prod.mk.injEq] at hs
      rw [← hs.2] at hne
      exact absurd rfl hne
    | execute => simp [hph] at hs
    | conclude actionStatus left =>
      simp only [hph, Option.some.injEq, Prod.mk.injEq] at hs
      simp only [hph] at htr
      obtain ⟨rfl, rfl⟩ := hs
      exact ⟨htr.2, j, hj, rfl, htr.1⟩

/-- Something was reported, and the row stands at position `n`. -/
def StandsAt (row : Db.StateRow) (n : Int) : Prop := row.currentActionName ≠ "" ∧ row.currentActionIndex = n

variable {id : Pg.UUID} {row : Db.StateRow} {wfID : String} {j : Job} {n : Int} {req : WorkflowActionStatus}

/-- A report that is being sent is about the action of the job. -/
theorem Job.sends_eq_some (hs : sends (.ok (.job j)) = some (n, req)) :
    n = j.actionIndex ∧ ((∃ left, j.phase = .announce left ∧ req = j.announcement) ∨
      ∃ actionStatus left, j.phase = .conclude actionStatus left ∧ req = actionStatus) := by
  unfold Worker.sends at hs
  cases hph : j.phase with
  | announce left =>
    simp only [hph, Option.some.injEq, Prod.mk.injEq] at hs
    exact ⟨hs.1.symm, Or.inl ⟨left, rfl, hs.2.symm⟩⟩
  | execute => simp [hph] at hs
  | conclude actionStatus left =>
    simp only [hph, Option.some.injEq, Prod.mk.injEq] at hs
    exact ⟨hs.1.symm, Or.inr ⟨actionStatus, left, rfl, hs.2.symm⟩⟩

/-- After `RUNNING` was acknowledged, the row stands at the action of the job. -/
private theorem standsAt_of_announced {env : Db.ReportEnv} (hp : Db.Placed row) (hlist : row.actionList = actions)
    (hj : j.On cfg c actions) (hadm : Db.Admits env row j.announcement) :
    StandsAt (row.after j.announcement) j.actionIndex := by
  refine ⟨hadm.action_ne, ?_⟩
  show row.reportIndex j.announcement = j.actionIndex
  have hposition := hj.get
  rw [hj.actions_eq, ← hlist] at hposition
  exact hp.reportIndex_of_admits hadm hj.nonneg hposition rfl rfl

/-- A result leaves the row where it stands. -/
theorem standsAt_of_concluded {env : Db.ReportEnv} (hne : req.actionStatus ≠ .running) (hadm : Db.Admits env row req)
    (h : StandsAt row n) : StandsAt (row.after req) n := by
  refine ⟨hadm.action_ne, ?_⟩
  show row.reportIndex req = n
  rw [row.reportIndex_eq, if_neg fun hr => hne hr.1]
  exact h.2

theorem Job.conclusion_ne_running (j : Job) (e : Exit) : (j.conclusion e).actionStatus ≠ .running := by
  show e.status ≠ .running
  rcases e.status_cases with h | h | h <;> rw [h] <;> decide

/-- A result about the action the row stands at is admitted. -/
private theorem admits_conclusion (hp : Db.Placed row) (hlist : row.actionList = actions) (hj : j.On cfg c actions)
    (h : StandsAt row j.actionIndex) (e : Exit) :
    row.currentTaskName = j.action.taskName ∧ row.currentActionName = j.action.name ∧
      Db.Admits {} row (j.conclusion e) := by
  obtain ⟨hne, hindex⟩ := h
  obtain ⟨-, k, a, hk, hget, htask, hname, -⟩ := hp.place.resolve_left fun hun => hne hun.action
  have hposition := hj.get
  rw [hj.actions_eq, ← hlist, ← hindex, hk, Int.toNat_natCast, hget] at hposition
  cases hposition
  obtain ⟨htask_ne, hname_ne⟩ := hp.names _ (List.mem_of_getElem? hget)
  have hreport : row.reportIndex (j.conclusion e) = k := by
    rw [row.reportIndex_eq, if_neg fun hr => j.conclusion_ne_running e hr.1]
    exact hk
  refine ⟨htask, hname, htask_ne, hname_ne, rfl, rfl, rfl, ?_, j.action, ?_, rfl, rfl⟩
  · show Pg.isSmallint e.status.value = true
    rcases e.status_cases with h | h | h <;> rw [h] <;> decide
  · rw [hreport, Int.toNat_natCast]
    exact hget

/-- What holds of a worker and the server all along: the row of the workflow stands at the action whose `RUNNING` was
acknowledged. -/
def Follows (cfg : Config) (c : WorkflowContext) (actions : List WorkflowAction) (id : Pg.UUID) (x : Session) :
    Prop :=
  ∃ row, x.store.workflowState id = some row ∧ Db.Placed row ∧ row.actionList = actions ∧
    Tracks cfg c actions (StandsAt row) x.worker

private theorem Follows.step {x : Session} (hsafe : Safe cfg c actions)
    (hid : Pg.UUID.ofString? c.workflowId = some id) (h : Follows cfg c actions id x) (inp : Session.Input) :
    Follows cfg c actions id (Session.step cfg x inp) := by
  obtain ⟨row, hrow, hp, hlist, htr⟩ := h
  cases hs : sends x.worker with
  | none =>
    rw [Session.step_of_silent hs]
    refine ⟨row, hrow, hp, hlist, htr.step hsafe ?_ fun _ _ _ hN => hN⟩
    intro j left hx _ hph _
    rw [hx, sends, hph] at hs
    cases hs
  | some p =>
    obtain ⟨n, req⟩ := p
    rw [Session.step_of_sends hs]
    rcases deliver_cases inp.delivery inp.env x.store req with ⟨hstore, hack⟩ | ⟨hstore, hack⟩
    · -- the report has not arrived
      refine ⟨row, by rw [← hrow]; simp only [hstore], hp, hlist, htr.step hsafe ?_ fun _ _ _ hN => hN⟩
      intro j left _ _ _ hacked
      have hacked : (deliver inp.delivery inp.env x.store req).2 = true := hacked
      rw [hack] at hacked
      cases hacked
    · obtain ⟨row', hrow', hp', hcase⟩ := hp.step_cases hrow (inp.env, req)
      have hlist' : row'.actionList = actions := by
        rcases hcase with rfl | ⟨-, -, rfl⟩
        · exact hlist
        · exact hlist
      refine ⟨row', by rw [← hrow']; simp only [hstore], hp', hlist', htr.step hsafe ?_ ?_⟩
      · intro j left hx hj hph hacked
        rw [hx] at hs
        obtain ⟨-, ⟨-, -, rfl⟩ | ⟨_, _, hph', -⟩⟩ := Job.sends_eq_some hs
        · have hid' : Pg.UUID.ofString? j.announcement.workflowId = some id := by
            show Pg.UUID.ofString? j.wfContext.workflowId = some id
            rw [hj.context_eq]; exact hid
          have hadm : Db.Admits inp.env row j.announcement := hp.admits_of_ok hid' hrow (hack hacked)
          have hstored : (Db.step x.store (inp.env, j.announcement)).workflowState id =
            some (row.after j.announcement) :=
            hp.step_of_admits hrow hid' hadm
          rw [hstored] at hrow'
          cases hrow'
          exact standsAt_of_announced hp hlist hj hadm
        · rw [hph] at hph'
          cases hph'
      · intro j hx hph hN
        rcases hcase with rfl | ⟨-, hadm, rfl⟩
        · exact hN
        · refine standsAt_of_concluded ?_ hadm hN
          rw [hx] at hs htr
          obtain ⟨hj, htracked⟩ := htr
          obtain ⟨-, ⟨left, hph', -⟩ | ⟨_, _, hph', rfl⟩⟩ := Job.sends_eq_some hs
          · exact absurd hph' (hph left)
          · unfold Job.Tracked at htracked
            rw [hph'] at htracked
            obtain ⟨⟨e, he⟩, -⟩ := htracked
            rw [he]
            exact j.conclusion_ne_running e

private theorem Follows.accepted {x : Session} (hid : Pg.UUID.ofString? c.workflowId = some id)
    (h : Follows cfg c actions id x) : Accepted id x := by
  intro n req hs hne
  obtain ⟨row, hrow, hp, hlist, htr⟩ := h
  obtain ⟨hN, j, hj, rfl, e, rfl⟩ := htr.sends hs hne
  obtain ⟨htask, hname, hadm⟩ := admits_conclusion hp hlist hj hN e
  refine ⟨row, hrow, htask, hname, ?_⟩
  refine (hp.updates_iff ?_ hrow).2 hadm
  show Pg.UUID.ofString? j.wfContext.workflowId = some id
  rw [hj.context_eq]
  exact hid

end Tink.Worker
