import Tink.Fleet.Alone
import Tink.Fleet.Discipline

/-!
# One action at a time, and in order

Over every run of the service and its workers, the actions of a workflow are executed by one worker at a time
(`executed_exclusively`), since whoever executes has the front.  They are executed in order as well: when a worker
that reports executes an action, each one before it has been reported as successful, and the report was stored
(`executed_in_order`).

The single reports do not have this property, as the handler moves a row from a failed action to the next one if it is
told to.  It comes from the workers: whoever is at work on an action, or is about to be, finds a row without a failure
(`onTrack`), because a worker that fails stops, and nobody is sent the workflow of a failed action.
-/

namespace Tink.Fleet

open Machine Worker

/-- The process `p` of the worker `w` is executing the action of the job `j`, of the workflow with the given id. -/
structure Executes (x : System) (w : String) (id : Pg.UUID) (p : Process) (j : Job) : Prop where
  live : x.live w = some p
  current : p.current = some j
  phase : j.phase = .execute
  workflow : Pg.UUID.ofString? j.wfContext.workflowId = some id

/-- The move is a report of success about the action at position `k`, and it is stored. -/
def Succeeds (id : Pg.UUID) (k : Nat) (x : System) (m : Move) : Prop :=
  ∃ w i p j req left row a, m = .work w i ∧ x.live w = some p ∧ p.current = some j ∧ j.phase = .conclude req left ∧
    req.actionStatus = .success ∧ Pg.UUID.ofString? req.workflowId = some id ∧
    (x.work w i).store.workflowState id = some row ∧ row.currentActionIndex = k ∧ row.currentActionState = .success ∧
    row.actionList[k]? = some a ∧ a.taskName = req.taskName ∧ a.name = req.actionName ∧ a.workerId = w

/-- Neither failed nor timed out. -/
def Healthy (row : Db.StateRow) : Prop := row.currentActionState ≠ .failed ∧ row.currentActionState ≠ .timeout

/-- A job on a row without a failure, or whose own result the row has. -/
def OnTrack (row : Db.StateRow) (j : Job) : Prop :=
  match j.phase with
  | .announce _ | .execute => Healthy row
  | .conclude req _ =>
    (j.actionIndex < front row ∧
      (row.currentActionIndex = j.actionIndex → row.currentActionState = req.actionStatus)) ∨
      (Healthy row ∧ front row = j.actionIndex)

/-- What holds of a context on its way to the worker `w`: the worker is to start at the front, and the workflow is
still one that is sent to a worker. -/
structure Awaited (w : String) (row : Db.StateRow) (c : WorkflowContext) : Prop where
  turn : turn w c row.actionList = .ok (some (front row))
  healthy : Healthy row
  visible : ¬ row.BetweenActions

variable {H : Type} {r : Template.Renderer H} {cfg cfg' : Config} {row row' : Db.StateRow} {id : Pg.UUID} {w : String}
  {j j' : Job} {y : Outcome Empty Progress} {x : System} {m : Move} {e : Exit} {left : Nat}

/-! ### Rows without a failure -/

private theorem healthy_of_running (h : row.currentActionState = .running) : Healthy row := by
  unfold Healthy
  rw [h]
  exact ⟨by decide, by decide⟩

private theorem healthy_of_success (h : row.currentActionState = .success) : Healthy row := by
  unfold Healthy
  rw [h]
  exact ⟨by decide, by decide⟩

private theorem Healthy.congr (h : Healthy row) (heq : row'.currentActionState = row.currentActionState) :
    Healthy row' := by
  unfold Healthy
  rw [heq]
  exact h

/-- Without a failure, the front is past the action the row stands at only after a success. -/
private theorem Healthy.front_cases (h : Healthy row) (hne : row.currentActionName ≠ "") :
    front row = row.currentActionIndex ∨
      (row.currentActionState = .success ∧ front row = row.currentActionIndex + 1) := by
  unfold front
  rw [if_neg hne]
  cases hs : row.currentActionState with
  | success => right; exact ⟨rfl, rfl⟩
  | failed => exact absurd hs h.1
  | timeout => exact absurd hs h.2
  | pending | running | unrecognized => left; rfl

/-- A job that starts with an action is on track if the row is without a failure. -/
private theorem onTrack_start {c : WorkflowContext} {actions : List WorkflowAction} {n : Int} {a : WorkflowAction}
    (h : Healthy row) :
    OnTrack row ⟨c, actions, n, a,
      if c.currentActionState ≠ .running ∧ 0 < cfg.retries then .announce cfg.retries else .execute⟩ := by
  unfold OnTrack
  by_cases hph : c.currentActionState ≠ .running ∧ 0 < cfg.retries
  · simp only [if_pos hph]
    exact h
  · simp only [if_neg hph]
    exact h

private theorem onTrack_concluded (hj : j.Placed cfg) (h : Healthy row) {status : State} {updated : Bool}
    (hj' : j.concluded cfg status updated = .ok (.job j')) : OnTrack row j' := by
  rcases hj.concluded_cases status updated with ⟨-, he⟩ | ⟨-, -, he, -⟩ | ⟨-, -, a, j₁, -, he, -, rfl⟩
  · rw [he] at hj'; cases hj'
  · rw [he] at hj'; cases hj'
  · rw [he] at hj'
    cases hj'
    exact onTrack_start h

/-- The position of a result that the row admits is where the row stands. -/
theorem index_of_concluded {env : Db.ReportEnv} (hp : Db.Placed row) (hs : Sound row cfg j)
    (hadm : Db.Admits env row (j.conclusion e)) :
    row.currentActionIndex = j.actionIndex ∧ (row.after (j.conclusion e)).currentActionIndex = j.actionIndex := by
  have hget := hs.get
  rw [hs.actions_eq] at hget
  have hindex := hp.reportIndex_of_admits hadm hs.nonneg hget rfl rfl
  refine ⟨?_, hindex⟩
  rw [row.reportIndex_eq, if_neg fun hr => j.conclusion_ne_running e hr.1] at hindex
  exact hindex

/-- A result that comes again while someone else has the front changes nothing. -/
private theorem undisturbed_concluded {env : Db.ReportEnv} (hp : Db.Placed row) (hs : Sound row cfg j)
    (hw : OnTrack row j)
    (hph : j.phase = .conclude (j.conclusion e) left) (hadm : Db.Admits env row (j.conclusion e)) (hheld : Held row w)
    (hne : w ≠ cfg.workerID) :
    (row.after (j.conclusion e)).currentActionState = row.currentActionState ∧
      (row.after (j.conclusion e)).currentActionIndex = row.currentActionIndex ∧
      front (row.after (j.conclusion e)) = front row := by
  have hdue := hs.due
  rw [hph] at hdue
  have hlt : j.actionIndex < front row := by
    rcases hdue.2.2 with hlt | hdue
    · exact hlt
    · exact absurd (hheld.unique hdue.held) hne
  obtain ⟨hafter, hbefore⟩ := front_concluded hp hs.toPlaced hs.actions_eq hadm
  unfold OnTrack at hw
  rw [hph] at hw
  obtain ⟨hindex, hindex'⟩ := index_of_concluded hp hs hadm
  rcases hw with ⟨-, hstate⟩ | ⟨-, hfront⟩
  · exact ⟨(hstate hindex).symm, hindex'.trans hindex.symm, by omega⟩
  · omega

/-- While a worker has the front, the others change neither the state of the row, nor where it stands, nor the
front. -/
theorem Effect.undisturbed (h : Effect cfg row j row' y) (hp : Db.Placed row) (hs : Sound row cfg j)
    (hw : OnTrack row j) (hheld : Held row w) (hne : w ≠ cfg.workerID) :
    row'.currentActionState = row.currentActionState ∧ row'.currentActionIndex = row.currentActionIndex ∧
      front row' = front row := by
  have hdue := hs.due
  cases h with
  | announce hph _ _ =>
    rw [hph] at hdue
    exact absurd (hheld.unique hdue.2.held) hne
  | exits => exact ⟨rfl, rfl, rfl⟩
  | execute => exact ⟨rfl, rfl, rfl⟩
  | skip => exact ⟨rfl, rfl, rfl⟩
  | conclude hph hrow _ =>
    rcases hrow with rfl | ⟨env, hadm, rfl⟩
    · exact ⟨rfl, rfl, rfl⟩
    · exact undisturbed_concluded hp hs hw hph hadm hheld hne
  | concluded hph hadm _ => exact undisturbed_concluded hp hs hw hph hadm hheld hne

/-- The row has the result of a job once it has been stored. -/
private theorem onTrack_after {env : Db.ReportEnv} (hp : Db.Placed row) (hs : Sound row cfg j)
    (hadm : Db.Admits env row (j.conclusion e)) :
    OnTrack (row.after (j.conclusion e)) { j with phase := .conclude (j.conclusion e) left } := by
  left
  refine ⟨?_, fun _ => rfl⟩
  rw [(front_concluded hp hs.toPlaced hs.actions_eq hadm).1]
  show j.actionIndex < j.actionIndex + 1
  omega

private theorem onTrack_worked (hp : Db.Placed row) (hs : Sound row cfg j) (hw : OnTrack row j)
    (h : Effect cfg row j row' y) (hy : y = .ok (.job j')) : OnTrack row' j' := by
  have hdue := hs.due
  unfold OnTrack at hw
  cases h with
  | announce hph hrow hjob =>
    rw [hph] at hw
    have hhealthy : Healthy row' := by
      rcases hrow with rfl | ⟨env, -, rfl⟩
      · exact hw
      · exact healthy_of_running rfl
    obtain ⟨ph, rfl, hnot⟩ := hjob j' hy
    unfold OnTrack
    cases ph with
    | announce left => exact hhealthy
    | execute => exact hhealthy
    | conclude req left => exact absurd rfl (hnot req left)
  | exits => cases hy
  | execute hph hr e =>
    rw [hph] at hw hdue
    cases hy
    right
    exact ⟨hw, hdue.front_eq hr⟩
  | skip hph _ status _ =>
    rw [hph] at hw
    exact onTrack_concluded hs.toPlaced hw hy
  | @conclude e left _ _ hph hrow hjob =>
    obtain ⟨left', rfl⟩ := hjob j' hy
    rcases hrow with rfl | ⟨env, hadm, rfl⟩
    · rw [hph] at hw
      exact hw
    · exact onTrack_after hp hs hadm
  | @concluded e left env hph hadm updated =>
    rcases hs.toPlaced.concluded_cases e.status updated with ⟨-, he⟩ | ⟨hsuccess, -⟩ | ⟨hsuccess, -⟩
    · rw [he] at hy; cases hy
    · exact onTrack_concluded hs.toPlaced (healthy_of_success hsuccess) hy
    · exact onTrack_concluded hs.toPlaced (healthy_of_success hsuccess) hy

/-- Where the row stands after a change that a job has made. -/
theorem Effect.index_cases (h : Effect cfg row j row' y) (hp : Db.Placed row) (hs : Sound row cfg j) :
    row' = row ∨ row'.currentActionIndex = j.actionIndex := by
  have hreports : ∀ {row'}, Reports row j.announcement row' →
      row' = row ∨ row'.currentActionIndex = j.actionIndex := by
    rintro row' (heq | ⟨env, hadm, rfl⟩)
    · left; exact heq
    · right
      have hget := hs.get
      rw [hs.actions_eq] at hget
      exact hp.reportIndex_of_admits hadm hs.nonneg hget rfl rfl
  cases h with
  | announce _ hrow _ => exact hreports hrow
  | exits => left; rfl
  | execute => left; rfl
  | skip => left; rfl
  | conclude _ hrow _ =>
    rcases hrow with heq | ⟨env, hadm, rfl⟩
    · left; exact heq
    · right; exact (index_of_concluded hp hs hadm).2
  | concluded _ hadm _ => right; exact (index_of_concluded hp hs hadm).2

private theorem Effect.front_le (h : Effect cfg row j row' y) (hp : Db.Placed row) (hs : Sound row cfg j) :
    front row ≤ front row' := by
  have hconcluded : ∀ {e env}, Db.Admits env row (j.conclusion e) →
      front row ≤ front (row.after (j.conclusion e)) := by
    intro e env hadm
    obtain ⟨hafter, hbefore⟩ := front_concluded hp hs.toPlaced hs.actions_eq hadm
    omega
  have hdue := hs.due
  cases h with
  | announce hph hrow _ =>
    rw [hph] at hdue
    rcases hrow with rfl | ⟨env, hadm, rfl⟩
    · exact le_refl _
    · rw [front_announced hp hs.toPlaced hs.actions_eq hadm]
      exact hdue.2.front_le
  | exits => exact le_refl _
  | execute => exact le_refl _
  | skip => exact le_refl _
  | conclude _ hrow _ =>
    rcases hrow with rfl | ⟨env, hadm, rfl⟩
    · exact le_refl _
    · exact hconcluded hadm
  | concluded _ hadm _ => exact hconcluded hadm

/-- The action of another worker is at another position. -/
private theorem Sound.index_ne (hs : Sound row cfg j) (hs' : Sound row cfg' j') (hne : cfg'.workerID ≠ cfg.workerID) :
    j'.actionIndex ≠ j.actionIndex := by
  intro heq
  have hget := hs.get
  have hget' := hs'.get
  rw [hs.actions_eq] at hget
  rw [hs'.actions_eq, heq, hget] at hget'
  have hworker := congrArg WorkflowAction.workerId (Option.some.inj hget')
  exact hne (hs'.worker.symm.trans (hworker.symm.trans hs.worker))

private theorem onTrack_kept (hp : Db.Placed row) (hs : Sound row cfg j) (hw : OnTrack row j)
    (h : Effect cfg row j row' y) (hne : cfg'.workerID ≠ cfg.workerID) (hs' : Sound row cfg' j')
    (hw' : OnTrack row j') :
    OnTrack row' j' := by
  have hdue := hs'.due
  unfold OnTrack at hw' ⊢
  cases hph : j'.phase with
  | announce left =>
    rw [hph] at hdue hw'
    exact hw'.congr (h.undisturbed hp hs hw hdue.2.held hne).1
  | execute =>
    rw [hph] at hdue hw'
    exact hw'.congr (h.undisturbed hp hs hw hdue.held hne).1
  | conclude req left =>
    rw [hph] at hdue hw'
    rcases hw' with ⟨hlt, hstate⟩ | ⟨hhealthy, hfront⟩
    · left
      refine ⟨lt_of_lt_of_le hlt (h.front_le hp hs), fun hindex => ?_⟩
      -- the row has been moved to the other worker's action, if at all
      rcases h.index_cases hp hs with rfl | hmoved
      · exact hstate hindex
      · exact absurd (hindex.symm.trans hmoved) (hs.index_ne hs' hne)
    · right
      have hheld : Held row cfg'.workerID := by
        rcases hdue.2.2 with hlt | hdue
        · omega
        · exact hdue.held
      obtain ⟨hstate, -, hsame⟩ := h.undisturbed hp hs hw hheld hne
      exact ⟨hhealthy.congr hstate, by omega⟩

private theorem awaited_kept {c : WorkflowContext} (hp : Db.Placed row) (hs : Sound row cfg j) (hw : OnTrack row j)
    (h : Effect cfg row j row' y) (hne : w ≠ cfg.workerID) (hc : Awaited w row c) : Awaited w row' c := by
  obtain ⟨-, a, hget, hworker⟩ := turn_eq_some hc.turn
  obtain ⟨hstate, hindex, hfront⟩ := h.undisturbed hp hs hw ⟨a, hget, hworker⟩ hne
  refine ⟨?_, hc.healthy.congr hstate, ?_⟩
  · rw [h.list, hfront]
    exact hc.turn
  · unfold Db.StateRow.BetweenActions
    rw [hstate, hindex, h.list]
    exact hc.visible

/-- Whoever is at work on an action, or is about to be, finds a row without a failure. -/
def onTrack : Discipline where
  Row := fun _ => True
  Sent := Awaited
  Work := fun _ row j => OnTrack row j
  created := fun _ _ => trivial
  served := by
    intro w row t hp _ hdue hvisible
    obtain ⟨n, hn⟩ := (Db.turn_iff_due hp.toPositioned t).2 hdue
    refine ⟨?_, ⟨hdue.1.1, hdue.1.2.1⟩, hvisible⟩
    rw [← front_of_turn hn]
    exact hn
  received := by
    intro cfg row c n j hsent hturn _ hj
    obtain ⟨a, j', hj', -, rfl⟩ := processContext_of_turn hturn
    rw [hj'] at hj
    cases hj
    exact onTrack_start hsent.healthy
  worked := fun hp _ hs hw h => ⟨trivial, fun _ hy => onTrack_worked hp hs hw h hy⟩
  sentKept := fun hp hs hw h hne _ hc => awaited_kept hp hs hw h hne hc
  workKept := fun hp hs hw h hne hs' hw' => onTrack_kept hp hs hw h hne hs' hw'

/-! ### One at a time -/

/-- Whoever executes has the front of the workflow. -/
theorem Executes.due {p : Process} (h : Executes x w id p j) (hinv : Inv x) :
    ∃ row, x.store.workflowState id = some row ∧ Due row ⟨w, p.retries⟩ j.actionIndex := by
  obtain ⟨id', row, hid, hrow, hsound⟩ := (hinv.processes w p h.live).current j h.current
  rw [h.workflow] at hid
  cases hid
  have hdue := hsound.due
  rw [h.phase] at hdue
  exact ⟨row, hrow, hdue⟩

/-- In every run of the service and its workers, no two workers execute actions of the same workflow at the same
time. -/
theorem executed_exclusively (r : Template.Renderer H) (ms : List Move) (id : Pg.UUID) {w w' : String}
    {p p' : Process}
    {j j' : Job} (h : Executes (run (step r) {} ms) w id p j) (h' : Executes (run (step r) {} ms) w' id p' j') :
    w = w' := by
  obtain ⟨row, hrow, hdue⟩ := h.due (inv_run ms)
  obtain ⟨row', hrow', hdue'⟩ := h'.due (inv_run ms)
  rw [hrow] at hrow'
  cases hrow'
  exact hdue.held.unique hdue'.held

/-- A template of one task with two actions. -/
def pairRenderer : Template.Renderer Unit :=
  { Template.Renderer.reading Unit (.ofNames [("os", Db.machine1, ["stream", "boot"])]) with
    unmarshalDevices := fun _ => .ok () }

/-- The row of a workflow from this template. -/
def pairRow : Db.StateRow where
  actionList := ["stream", "boot"].map fun name =>
    { taskName := "os", name := name, image := "os", timeout := 60, workerId := Db.machine1 }
  totalNumberOfActions := 2

private theorem pair_created :
    (System.create pairRenderer {} { getWorkerID := .ok, parse := Db.uuidColumn } Db.sampleEnv
    "template" "devices").store.workflowState Db.sampleID = some pairRow := by decide +kernel

/-- There is a run in which a worker executes the second of its actions. -/
private theorem exists_executes_second :
    ∃ ms p j, Executes (run (step pairRenderer) {} ms) Db.machine1 Db.sampleID p j ∧
    p.retries = 1 ∧ j.actionIndex = 1 := by
  obtain ⟨hp, -, honly⟩ := create_cases (inv_run (r := pairRenderer) []) rfl pair_created
  obtain ⟨u, hu, honly⟩ := honly _ (List.mem_of_getElem? (show pairRow.actionList[0]? = some _ from rfl)) (by decide)
    (fun _ hq => by cases hq)
  have hu : Db.machine1 = u.toString := hu
  have hdue : pairRow.Due u.toString := ⟨⟨by decide, by decide, by decide⟩, _, rfl, hu⟩
  have hvisible : ¬ pairRow.BetweenActions := by
    rintro ⟨hs, -⟩
    cases hs
  obtain ⟨ms, p, j, hlive, hr, hj, hph, hid, hn⟩ :=
    reaches_second (r := pairRenderer) hp pair_created honly hdue hvisible (by decide) (Or.inl ⟨rfl, rfl⟩)
      (show pairRow.actionList[1]? = some _ from rfl) hu
  refine ⟨.create { getWorkerID := .ok, parse := Db.uuidColumn } Db.sampleEnv "template" "devices" :: ms, p, j,
    ⟨?_, hj, hph, hid⟩, hr, hn⟩
  rw [hu]
  exact hlive

theorem executed_exclusively_second_action :
    ∃ ms p j, Executes (run (step pairRenderer) {} ms) Db.machine1 Db.sampleID p j ∧
      ∀ w' p' j', Executes (run (step pairRenderer) {} ms) w' Db.sampleID p' j' → Db.machine1 = w' := by
  obtain ⟨ms, p, j, h, -⟩ := exists_executes_second
  exact ⟨ms, p, j, h, fun w' p' j' h' => executed_exclusively _ _ _ h h'⟩

/-! ### In order -/

/-- The actions before the one the row stands at have succeeded in the run `ms`, and that one if the row says so. -/
structure Logged (r : Template.Renderer H) (ms : List Move) (id : Pg.UUID) (row : Db.StateRow) : Prop where
  before : row.currentActionName ≠ "" → ∀ k : Nat, (k : Int) < row.currentActionIndex →
    Once (step r) (Succeeds id k) {} ms
  current : row.currentActionState = .success → ∀ k : Nat, (k : Int) = row.currentActionIndex →
    Once (step r) (Succeeds id k) {} ms

private theorem Logged.append {ms : List Move} (h : Logged r ms id row) (ms' : List Move) :
    Logged r (ms ++ ms') id row :=
  ⟨fun hne k hk => (h.before hne k hk).append ms', fun hs k hk => (h.current hs k hk).append ms'⟩

/-- Everything in front of the front has succeeded, if there is no failure. -/
private theorem Logged.front {ms : List Move} (h : Logged r ms id row) (hh : Healthy row) :
    ∀ k : Nat, (k : Int) < front row → Once (step r) (Succeeds id k) {} ms := by
  intro k hk
  by_cases hne : row.currentActionName = ""
  · rw [Fleet.front, if_pos hne] at hk
    omega
  · rcases hh.front_cases hne with hfront | ⟨hs, hfront⟩
    · exact h.before hne k (by omega)
    · by_cases hcur : (k : Int) = row.currentActionIndex
      · exact h.current hs k hcur
      · exact h.before hne k (by omega)

/-- An announcement moves a row to the front. -/
private theorem logged_announced {ms : List Move} {env : Db.ReportEnv} (h : Logged r ms id row) (hp : Db.Placed row)
    (hs : Sound row cfg j) (hw : OnTrack row j) (hph : j.phase = .announce left)
    (hadm : Db.Admits env row j.announcement) : Logged r ms id (row.after j.announcement) := by
  have hdue := hs.due
  rw [hph] at hdue
  unfold OnTrack at hw
  rw [hph] at hw
  have hget := hs.get
  rw [hs.actions_eq] at hget
  have hindex : (row.after j.announcement).currentActionIndex = j.actionIndex :=
    hp.reportIndex_of_admits hadm hs.nonneg hget rfl rfl
  refine ⟨fun _ k hk => ?_, fun hc => by cases hc⟩
  refine h.front hw k ?_
  rw [hdue.2.front_eq hdue.1]
  omega

/-- A result leaves the row where it stands, or is about the first action. -/
private theorem logged_concluded {ms : List Move} {env : Db.ReportEnv} {i : Session.Input} {p : Process}
    (h : Logged r ms id row) (hp : Db.Placed row) (hlive : (run (step r) {} ms).live w = some p)
    (hj : p.current = some j) (hid : Pg.UUID.ofString? j.wfContext.workflowId = some id)
    (hs : Sound row ⟨w, p.retries⟩ j) (hph : j.phase = .conclude (j.conclusion e) left)
    (hadm : Db.Admits env row (j.conclusion e))
    (hrow : (step r (run (step r) {} ms) (.work w i)).store.workflowState id = some (row.after (j.conclusion e))) :
    Logged r (ms ++ [.work w i]) id (row.after (j.conclusion e)) := by
  obtain ⟨hbefore, hafter⟩ := index_of_concluded hp hs hadm
  refine ⟨fun _ k hk => ?_, fun hsuccess k hk => ?_⟩
  · by_cases hne : row.currentActionName = ""
    · have := hp.index_bounds.2.1 hne
      omega
    · exact (h.before hne k (by omega)).append _
  · have hget := hs.get
    rw [hs.actions_eq] at hget
    have hk' : j.actionIndex.toNat = k := by omega
    refine once_concat ⟨w, i, p, j, j.conclusion e, left, row.after (j.conclusion e), j.action, rfl, hlive, hj, hph,
      hsuccess, hid, hrow, hk.symm, hsuccess, ?_, rfl, rfl, hs.worker⟩
    rw [← hk']
    exact hget

private theorem logged_run (ms : List Move) : ∀ id row, (run (step r) {} ms).store.workflowState id = some row →
    Logged r ms id row := by
  induction ms using List.reverseRecOn with
  | nil =>
    intro id row hrow
    cases hrow
  | append_singleton ms m ih =>
    intro id row' hrow'
    rw [run_concat] at hrow'
    have hinv := inv_run (r := r) ms
    have hdisc := onTrack.holds_run (r := r) ms
    rcases hinv.row_cases m hrow' with hrow | ⟨-, -, hun⟩ | ⟨w, i, p, j, row, rfl, hlive, hj, hid, hrow, hs, heffect⟩
    · exact (ih id row' hrow).append _
    · refine ⟨fun hne => absurd hun.action hne, fun hs => ?_⟩
      rw [hun.state] at hs
      cases hs
    · have hp := hinv.reachable.placed hrow
      have hw : OnTrack row j := (hdisc.processes w p hlive).current j hj id row hid hrow
      have hlog := ih id row hrow
      generalize (Session.step ⟨w, p.retries⟩ ⟨(run (step r) {} ms).store, .ok (.job j)⟩ i).worker = y at heffect
      cases heffect with
      | announce hph hreports _ =>
        rcases hreports with rfl | ⟨env, hadm, rfl⟩
        · exact hlog.append _
        · exact (logged_announced hlog hp hs hw hph hadm).append _
      | exits => exact hlog.append _
      | execute => exact hlog.append _
      | skip => exact hlog.append _
      | conclude hph hreports _ =>
        rcases hreports with rfl | ⟨env, hadm, rfl⟩
        · exact hlog.append _
        · exact logged_concluded hlog hp hlive hj hid hs hph hadm hrow'
      | concluded hph hadm _ => exact logged_concluded hlog hp hlive hj hid hs hph hadm hrow'

/-- In every run of the service and its workers, with crashes, restarts and lost answers: when a process that sends
reports executes an action, the worker of every action before it has reported its success, and the report was
stored. -/
theorem executed_in_order (r : Template.Renderer H) (ms : List Move) (id : Pg.UUID) {w : String}
    {p : Process} {j : Job}
    (h : Executes (run (step r) {} ms) w id p j) (hr : 0 < p.retries) (k : Nat) (hk : (k : Int) < j.actionIndex) :
    Once (step r) (Succeeds id k) {} ms := by
  have hinv := inv_run (r := r) ms
  obtain ⟨row, hrow, hdue⟩ := h.due hinv
  have hw : OnTrack row j :=
    ((onTrack.holds_run (r := r) ms).processes w p h.live).current j h.current id row h.workflow hrow
  unfold OnTrack at hw
  rw [h.phase] at hw
  refine (logged_run ms id row hrow).front hw k ?_
  rw [hdue.front_eq hr]
  exact hk

theorem executed_in_order_second_action :
    ∃ ms p j, Executes (run (step pairRenderer) {} ms) Db.machine1 Db.sampleID p j ∧ 0 < p.retries ∧
      j.actionIndex = 1 ∧ Once (step pairRenderer) (Succeeds Db.sampleID 0) {} ms := by
  obtain ⟨ms, p, j, h, hr, hn⟩ := exists_executes_second
  have hpos : 0 < p.retries := by omega
  exact ⟨ms, p, j, h, hpos, hn, executed_in_order _ _ _ h hpos 0 (by omega)⟩

end Tink.Fleet
