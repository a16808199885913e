import Tink.Db.Order
import Tink.Fleet.Order

/-!
# When a workflow can be completed

The server sends a workflow to nobody once an action other than the first one has succeeded and is not the last, so a
worker can go on from there only if it is at work already.  If the worker of the next action is not, then nothing of
the workflow is ever executed again, and its state is `RUNNING` for ever (`stranded_forever`).

So a workflow can be handed over from one worker to another after its first action only.  Whatever the workers do, and
however often they start again, it cannot get past a later handover (`confined`); without one, there is a run that
completes it.  `completes_iff` puts the two together.
-/

namespace Tink.Fleet

open Machine Worker

variable {H : Type} {r : Template.Renderer H} {cfg : Config} {row row' : Db.StateRow} {id : Pg.UUID} {w : String}
    {j j' : Job}
  {y : Outcome Empty Progress} {x : System} {p : Process} {m : Move} {s : Db.Store}

/-! ### Stranded workflows -/

/-- The worker `w` is at work on the workflow. -/
def AtWork (x : System) (w : String) (id : Pg.UUID) : Prop :=
  ∃ p j, x.live w = some p ∧ p.current = some j ∧ Pg.UUID.ofString? j.wfContext.workflowId = some id

/-- The workflow is between two actions past the first, and the worker of the next one is not at work on it. -/
structure Stranded (x : System) (id : Pg.UUID) (row : Db.StateRow) : Prop where
  stored : x.store.workflowState id = some row
  between : row.BetweenActions
  idle : ∀ w, Held row w → ¬ AtWork x w id

private theorem front_of_between (hp : Db.Positioned row) (h : row.BetweenActions) :
    front row = row.currentActionIndex + 1 := by
  have hne : row.currentActionName ≠ "" := by
    intro hne
    have := hp.index_bounds.2.1 hne
    have := h.2.1
    omega
  unfold front
  rw [if_neg hne, h.1]
  rfl

private theorem exists_held_of_between (hp : Db.Positioned row) (h : row.BetweenActions) : ∃ w, Held row w := by
  have hlt : (front row).toNat < row.actionList.length := by
    rw [front_of_between hp h]
    have := h.2.1
    have := h.2.2
    omega
  exact ⟨_, _, List.getElem?_eq_getElem hlt, rfl⟩

private theorem Process.poll_current (p : Process) (w : String) (s : Db.Store) (failure : Option String) :
    (p.poll w s failure).current = p.current := by
  unfold Process.poll
  split
  · split
    · rfl
    · split <;> rfl
  · rfl

private theorem Process.serve_current (p : Process) (w : String) (s : Db.Store) (env : Db.StreamEnv) :
    (p.serve w s env).current = p.current := by
  unfold Process.serve
  split
  · rfl
  · split
    · rfl
    · split
      · rfl
      · rename_i e _
        exact e.elim
      · rfl
      · split <;> rfl

/-- A process starts to work on a workflow of which it was sent a context. -/
private theorem Process.receive_current {q : Process} {failure : Option String} (h : p.receive w s failure = some q)
    (hj : q.current = some j) : p.current = some j ∨ ∃ c ∈ p.sent, j.wfContext = c := by
  unfold Process.receive at h
  split at h
  · rename_i c cs hcurrent hsent
    right
    refine ⟨c, by rw [hsent]; exact List.mem_cons_self, ?_⟩
    split at h
    · cases h
    · rename_i actions _
      cases hy : processContext ⟨w, p.retries⟩ c actions with
      | panic => rw [hy] at h; cases h
      | error e => exact e.elim
      | ok progress =>
        rw [hy] at h
        cases progress with
        | exit => cases h
        | next =>
          cases h
          cases hj
        | job j₁ =>
          cases h
          cases hj
          cases ht : turn w c actions with
          | panic => simp [processContext, ht] at hy
          | error e => exact e.elim
          | ok o =>
            cases o with
            | none => simp [processContext, ht] at hy
            | some n =>
              obtain ⟨a, j₂, hj₂, -, rfl⟩ :=
                processContext_of_turn (show turn (Config.mk w p.retries).workerID _ _ = _ from ht)
              rw [hj₂] at hy
              cases hy
              rfl
  · cases h
    left
    exact hj

private theorem atWork_onProcess {f : Process → Option Process} {v : String} (h : AtWork (x.onProcess v f) w id)
    (hf : ∀ p q j, f p = some q → q.current = some j → p.current = some j ∨ ∃ c ∈ p.sent, j.wfContext = c) :
    AtWork x w id ∨ ∃ p c, x.live w = some p ∧ c ∈ p.sent ∧ Pg.UUID.ofString? c.workflowId = some id := by
  obtain ⟨q, j, hq, hj, hid⟩ := h
  rcases Processes.of_onProcess hq with hq | ⟨rfl, p, hlive, hq⟩
  · left; exact ⟨q, j, hq, hj, hid⟩
  · rcases hf p q j hq hj with hcur | ⟨c, hc, rfl⟩
    · left; exact ⟨p, j, hlive, hcur, hid⟩
    · right; exact ⟨p, _, hlive, hc, hid⟩

/-- A process gets to work on a workflow by taking a context of it from its stream, and goes on with it then. -/
private theorem atWork_step (hinv : Inv x) (h : AtWork (Fleet.step r x m) w id) :
    AtWork x w id ∨ ∃ p c, x.live w = some p ∧ c ∈ p.sent ∧ Pg.UUID.ofString? c.workflowId = some id := by
  cases m with
  | create reg env template hardware =>
    left
    obtain ⟨q, j, hq, hj, hid⟩ := h
    have hlive : (x.create r reg env template hardware).live = x.live := by
      unfold System.create
      split <;> rfl
    exact ⟨q, j, by rw [← hlive]; exact hq, hj, hid⟩
  | start v retries =>
    left
    obtain ⟨q, j, hq, hj, hid⟩ := h
    rcases Processes.of_start hq with hq | ⟨-, rfl⟩
    · exact ⟨q, j, hq, hj, hid⟩
    · cases hj
  | crash v => exact atWork_onProcess h fun _ _ _ hq => by cases hq
  | poll v failure =>
    refine atWork_onProcess h fun p q j hq hj => Or.inl ?_
    cases hq
    rw [p.poll_current] at hj
    exact hj
  | serve v env =>
    refine atWork_onProcess h fun p q j hq hj => Or.inl ?_
    cases hq
    rw [p.serve_current] at hj
    exact hj
  | cut v k =>
    refine atWork_onProcess h fun p q j hq hj => Or.inl ?_
    cases hq
    exact hj
  | receive v failure => exact atWork_onProcess h fun p q j hq hj => Process.receive_current hq hj
  | work v i =>
    left
    have h : AtWork (x.work v i) w id := h
    rcases work_cases v i with hsame | ⟨p, j, hlive, hj⟩
    · rw [hsame] at h
      exact h
    · obtain ⟨q, j', hq, hj', hid⟩ := h
      rw [work_eq hlive hj i] at hq
      by_cases hw : w = v
      · subst hw
        simp only [Function.update_self] at hq
        obtain ⟨id₀, row₀, hid₀, hrow₀, hsound⟩ := (hinv.processes w p hlive).current j hj
        obtain ⟨_, -, -, hctx, -⟩ := hsound.step (hinv.reachable.placed hrow₀) hrow₀ hid₀ i
        refine ⟨p, j, hlive, hj, ?_⟩
        cases hy : (Session.step ⟨w, p.retries⟩ ⟨x.store, .ok (.job j)⟩ i).worker with
        | panic => rw [hy] at hq; cases hq
        | error e => exact e.elim
        | ok progress =>
          rw [hy] at hq
          cases progress with
          | exit => cases hq
          | next =>
            cases hq
            cases hj'
          | job j₁ =>
            cases hq
            cases hj'
            rw [← (hctx _ hy).1]
            exact hid
      · simp only [Function.update_of_ne hw] at hq
        exact ⟨q, j', hq, hj', hid⟩

/-- A stranded workflow stays stranded: nobody is sent a context of it, and the reports that still come are those of
actions that have succeeded. -/
private theorem Stranded.step (hinv : Inv x) (hon : onTrack.Holds x) (h : Stranded x id row) :
    ∃ row', Stranded (Fleet.step r x m) id row' := by
  have hp := hinv.reachable.placed h.stored
  obtain ⟨v, hheld⟩ := exists_held_of_between hp.toPositioned h.between
  have hidle : ∀ w, Held row w → ¬ AtWork (Fleet.step r x m) w id := by
    intro w hw hat
    rcases atWork_step hinv hat with hat | ⟨p, c, hlive, hc, hid⟩
    · exact h.idle w hw hat
    · have hawaited : Awaited w row c := (hon.processes w p hlive).sent c hc id row hid h.stored
      exact hawaited.visible h.between
  obtain ⟨row', hrow', hlist, -⟩ := hinv.step_rows (r := r) m h.stored
  rcases hinv.row_cases m hrow' with hrow | ⟨hnone, -⟩ | ⟨w, i, p, j, row₁, rfl, hlive, hj, hid, hrow₁, hs, heffect⟩
  · rw [h.stored] at hrow
    cases hrow
    exact ⟨row, hrow', h.between, hidle⟩
  · rw [h.stored] at hnone
    cases hnone
  · rw [h.stored] at hrow₁
    cases hrow₁
    have hne : v ≠ w := by
      rintro rfl
      exact h.idle v hheld ⟨p, j, hlive, hj, hid⟩
    have hw : OnTrack row j := (hon.processes w p hlive).current j hj id row hid h.stored
    obtain ⟨hstate, hindex, hfront⟩ := heffect.undisturbed hp hs hw hheld hne
    refine ⟨row', hrow', ?_, ?_⟩
    · unfold Db.StateRow.BetweenActions
      rw [hstate, hindex, hlist]
      exact h.between
    · intro w' hw'
      refine hidle w' ?_
      obtain ⟨a, hget, hworker⟩ := hw'
      exact ⟨a, by rw [← hfront, ← hlist]; exact hget, hworker⟩

/-- In every run of the service and its workers: once an action other than the first has succeeded and is not the
last, and the worker of the next one is not at work on the workflow, no worker ever executes an action of the workflow
again, and the workflow stays `RUNNING`. -/
theorem stranded_forever (r : Template.Renderer H) (before after : List Move) (id : Pg.UUID) (row : Db.StateRow)
    (h : Stranded (run (step r) {} before) id row) :
    (∀ task action, ¬ Executing (run (step r) {} (before ++ after)) id task action) ∧
      Db.getWorkflowState none (run (step r) {} (before ++ after)).store id.toString = .running := by
  have hrun : Inv (run (step r) {} (before ++ after)) ∧ onTrack.Holds (run (step r) {} (before ++ after)) ∧
      ∃ row', Stranded (run (step r) {} (before ++ after)) id row' := by
    rw [run_append]
    refine run_inv (I := fun x => Inv x ∧ onTrack.Holds x ∧ ∃ row', Stranded x id row')
      ⟨inv_run before, onTrack.holds_run before, row, h⟩ ?_
    rintro x m ⟨hinv, hon, row', h'⟩
    exact ⟨hinv.step m, hon.step hinv m, h'.step hinv hon⟩
  obtain ⟨hinv, -, row', h'⟩ := hrun
  have hp := hinv.reachable.positioned h'.stored
  constructor
  · rintro task action ⟨w, p, j, hlive, hj, hph, hid, -, -⟩
    obtain ⟨row'', hrow'', hdue⟩ := (⟨hlive, hj, hph, hid⟩ : Executes _ w id p j).due hinv
    rw [h'.stored] at hrow''
    cases hrow''
    exact h'.idle w hdue.held ⟨p, j, hlive, hj, hid⟩
  · have hc : Db.getWorkflowContexts none (run (step r) {} (before ++ after)).store id.toString =
        .ok (row'.context id.toString) :=
      Db.getWorkflowContexts_eq_ok.2 ⟨rfl, id, row', Pg.UUID.ofString?_toString id, h'.stored, rfl⟩
    obtain ⟨hs, hpos, hlt⟩ := h'.between
    have hstate : (row'.context id.toString).currentActionState = .success := hs
    have hindex : (row'.context id.toString).currentActionIndex ≠
        (row'.context id.toString).totalNumberOfActions - 1 := by
      show row'.currentActionIndex ≠ row'.totalNumberOfActions - 1
      rw [hp.total]
      omega
    unfold Db.getWorkflowState
    simp only [hc, hstate, hindex, ne_eq, not_true_eq_false, if_false]

/-- A template of three actions, the last of which is another worker's. -/
def tripleRenderer : Template.Renderer Unit :=
  { Template.Renderer.reading Unit
    (.ofNames [("os", Db.machine1, ["stream", "mount"]), ("boot", Db.machine2, ["kexec"])])
    with unmarshalDevices := fun _ => .ok () }

/-- The row of a workflow from this template. -/
def tripleRow : Db.StateRow where
  actionList := [("os", "stream", Db.machine1), ("os", "mount", Db.machine1), ("boot", "kexec", Db.machine2)].map
    fun a => { taskName := a.1, name := a.2.1, image := "os", timeout := 60, workerId := a.2.2 }
  totalNumberOfActions := 3

private theorem triple_created :
    (System.create tripleRenderer {} { getWorkerID := .ok, parse := Db.uuidColumn } Db.sampleEnv
    "template" "devices").store.workflowState Db.sampleID = some tripleRow := by decide +kernel

/-- The first worker has done its two actions. -/
private theorem exists_stranded : ∃ ms row, Stranded (run (step tripleRenderer) {} ms) Db.sampleID row := by
  obtain ⟨hp, -, honly⟩ := create_cases (inv_run (r := tripleRenderer) []) rfl triple_created
  obtain ⟨u, hu, honly⟩ := honly _ (List.mem_of_getElem? (show tripleRow.actionList[0]? = some _ from rfl))
    (by decide) (fun _ hq => by cases hq)
  have hu : Db.machine1 = u.toString := hu
  have hdue : tripleRow.Due u.toString := ⟨⟨by decide, by decide, by decide⟩, _, rfl, hu⟩
  have hvisible : ¬ tripleRow.BetweenActions := by
    rintro ⟨hs, -⟩
    cases hs
  obtain ⟨ms, ⟨⟨row, e, hrow, hlist, hstands, hs, -, ⟨a, hget, hown⟩, hend⟩, -⟩, hothers⟩ :=
    does_block (r := tripleRenderer) hp triple_created honly hdue hvisible (by decide) (Or.inl ⟨rfl, rfl⟩)
  -- the block ends with the second action
  have he : e = 1 := by
    rw [← hu] at hown hend
    match e, hget, hend with
    | 0, _, hend => exact absurd ⟨_, rfl, rfl⟩ hend
    | 1, _, _ => rfl
    | 2, hget, _ =>
      cases hget
      exact absurd hown (by decide)
    | e + 3, hget, _ => cases hget
  subst he
  have hbetween : row.BetweenActions := by
    refine ⟨hs, ?_, ?_⟩
    · rw [hstands.2]
      decide
    · rw [hstands.2, hlist]
      decide
  refine ⟨.create { getWorkerID := .ok, parse := Db.uuidColumn } Db.sampleEnv "template" "devices" :: ms, row, hrow,
    hbetween, ?_⟩
  rintro w ⟨b, hb, rfl⟩ ⟨p, j, hlive, -⟩
  have hpos := (inv_run (r := tripleRenderer) (.create { getWorkerID := .ok, parse := Db.uuidColumn } Db.sampleEnv
    "template" "devices" :: ms)).reachable.positioned hrow
  rw [front_of_between hpos hbetween, hstands.2, hlist] at hb
  cases hb
  have hnone : (run (step tripleRenderer)
    (System.create tripleRenderer {} { getWorkerID := .ok, parse := Db.uuidColumn }
      Db.sampleEnv "template" "devices") ms).live Db.machine2 = none := by
    rw [hothers _ (by rw [← hu]; decide)]
    unfold System.create
    split <;> rfl
  have hlive : (run (step tripleRenderer)
    (System.create tripleRenderer {} { getWorkerID := .ok, parse := Db.uuidColumn }
      Db.sampleEnv "template" "devices") ms).live Db.machine2 = some p := hlive
  rw [hnone] at hlive
  cases hlive

theorem stranded_forever_after_two :
    ∃ ms row, Stranded (run (step tripleRenderer) {} ms) Db.sampleID row ∧
      ∀ after, Db.getWorkflowState none (run (step tripleRenderer) {} (ms ++ after)).store Db.sampleID.toString =
        .running := by
  obtain ⟨ms, row, h⟩ := exists_stranded
  exact ⟨ms, row, h, fun after => (stranded_forever _ ms after _ row h).2⟩

/-! ### Handovers -/

/-- The actions at positions `i` and `i + 1` are those of different workers. -/
def Handover (actions : List WorkflowAction) (i : Nat) : Prop :=
  ∃ a b, actions[i]? = some a ∧ actions[i + 1]? = some b ∧ a.workerId ≠ b.workerId

/-- The position is not past a handover after the first action. -/
def Short (actions : List WorkflowAction) (n : Int) : Prop := ∀ i : Nat, 1 ≤ i → Handover actions i → n ≤ i

/-- A worker does not get past a handover by going on with its next action. -/
private theorem short_concluded (hj : j.Placed cfg) (h : Short j.actions j.actionIndex) {status : State}
    {updated : Bool} (hj' : j.concluded cfg status updated = .ok (.job j')) :
    j'.actions = j.actions ∧ Short j.actions j'.actionIndex := by
  rcases hj.concluded_cases status updated with ⟨-, he⟩ | ⟨-, -, he, -⟩ | ⟨-, -, a, j₁, hget, he, hplaced, rfl⟩
  · rw [he] at hj'; cases hj'
  · rw [he] at hj'; cases hj'
  · rw [he] at hj'
    cases hj'
    refine ⟨rfl, fun i hi hhand => ?_⟩
    have hle := h i hi hhand
    have hpos := hj.nonneg
    show j.actionIndex + 1 ≤ i
    by_contra hgt
    have hidx : j.actionIndex.toNat = i := by omega
    obtain ⟨b, b', hb, hb', hne⟩ := hhand
    have hgetj := hj.get
    rw [hidx, hb] at hgetj
    rw [hidx, hb'] at hget
    rw [Option.some.inj hgetj, Option.some.inj hget] at hne
    exact hne (hj.worker.trans hplaced.worker.symm)

/-- No row gets past a handover after the first action, and no worker is sent there or goes there. -/
def confined : Discipline where
  Row := fun row => Short row.actionList row.currentActionIndex
  Sent := fun w row c => ∀ n, turn w c row.actionList = .ok (some n) → Short row.actionList n
  Work := fun _ row j => Short row.actionList j.actionIndex
  created := by
    intro row _ hun i _ _
    rw [hun.index]
    omega
  served := by
    intro w row t hp hrow hdue hvisible n hn i hi hhand
    have hle := hrow i hi hhand
    have hfront := front_of_turn hn
    rcases front_cases hp.toPositioned with hcur | hnext
    · omega
    · -- the action the row stands at is done, so it is the first one
      by_cases hs : row.currentActionState = .success
      · by_contra hgt
        have hindex : row.currentActionIndex = i := by omega
        obtain ⟨a, b, -, hb, -⟩ := hhand
        have hlt := (List.getElem?_eq_some_iff.1 hb).1
        exact hvisible ⟨hs, by omega, by omega⟩
      · exfalso
        obtain ⟨hfailed, htimeout, -⟩ := hdue.1
        unfold front at hnext
        split at hnext
        · rename_i hne
          have := hp.index_bounds.2.1 hne
          omega
        · revert hnext
          cases hst : row.currentActionState with
          | success => exact absurd hst hs
          | failed => exact absurd hst hfailed
          | timeout => exact absurd hst htimeout
          | pending | running | unrecognized =>
            intro hnext
            have : row.currentActionIndex = row.currentActionIndex + 1 := hnext
            omega
  received := by
    intro cfg row c n j hsent hturn _ hj
    obtain ⟨a, j', hj', -, rfl⟩ := processContext_of_turn hturn
    rw [hj'] at hj
    cases hj
    exact hsent n hturn
  worked := by
    intro cfg row j row' y hp hrow hs hw h
    constructor
    · rw [h.list]
      rcases h.index_cases hp hs with rfl | hindex
      · exact hrow
      · rw [hindex]
        exact hw
    · intro j' hy
      have hw' : Short j.actions j.actionIndex := by
        rw [hs.actions_eq]
        exact hw
      rw [h.list]
      cases h with
      | announce _ _ hjob =>
        obtain ⟨ph, rfl, -⟩ := hjob j' hy
        exact hw
      | exits => cases hy
      | execute =>
        cases hy
        exact hw
      | skip =>
        rw [← hs.actions_eq]
        exact (short_concluded hs.toPlaced hw' hy).2
      | conclude _ _ hjob =>
        obtain ⟨left, rfl⟩ := hjob j' hy
        exact hw
      | concluded =>
        rw [← hs.actions_eq]
        exact (short_concluded hs.toPlaced hw' hy).2
  sentKept := by
    intro cfg row j row' y w c _ _ _ h _ _ hsent
    rw [h.list]
    exact hsent
  workKept := by
    intro cfg row j row' y cfg' j' _ _ _ h _ _ hw
    rw [h.list]
    exact hw

/-- Workflows stay, with their lists. -/
private theorem Inv.run_rows (hinv : Inv x) (hrow : x.store.workflowState id = some row) (ms : List Move) :
    ∃ row', (run (Fleet.step r) x ms).store.workflowState id = some row' ∧ row'.actionList = row.actionList := by
  refine (run_inv (I := fun y : System => Inv y ∧ ∃ row', y.store.workflowState id = some row' ∧
    row'.actionList = row.actionList) ⟨hinv, row, hrow, rfl⟩ ?_).2
  rintro y m ⟨hinv, row', hrow', hlist⟩
  obtain ⟨row'', hrow'', hlist', -⟩ := hinv.step_rows (r := r) m hrow'
  exact ⟨hinv.step m, row'', hrow'', hlist'.trans hlist⟩

/-- A workflow that can be completed has no handover after its first action. -/
private theorem no_handover_of_completes (ms after : List Move)
    (hrow : (run (step r) {} ms).store.workflowState id = some row)
    (h : Db.getWorkflowState none (run (step r) {} (ms ++ after)).store id.toString = .success) (i : Nat)
    (hi : 1 ≤ i) :
    ¬ Handover row.actionList i := by
  intro hhand
  obtain ⟨row', hrow', hlist⟩ := (inv_run (r := r) ms).run_rows (r := r) hrow after
  rw [← run_append] at hrow'
  have hp := (inv_run (r := r) (ms ++ after)).reachable.positioned hrow'
  obtain ⟨-, hindex⟩ := Db.getWorkflowState_eq_success h (Pg.UUID.ofString?_toString id) hrow'
  have hshort : Short row'.actionList row'.currentActionIndex :=
    (confined.holds_run (r := r) (ms ++ after)).rows id row' hrow'
  have hle := hshort i hi (by rw [hlist]; exact hhand)
  obtain ⟨a, b, -, hb, -⟩ := hhand
  have hlt := (List.getElem?_eq_some_iff.1 hb).1
  rw [hp.total, hlist] at hindex
  omega

/-- A workflow whose last action has succeeded is completed. -/
private theorem completed_of_last {e : Nat} (hs : Db.Reachable s) (hrow : s.workflowState id = some row)
    (hstands : StandsAt row e) (hsuccess : row.currentActionState = .success) (he : e + 1 = row.actionList.length) :
    Db.getWorkflowState none s id.toString = .success := by
  have hc : Db.getWorkflowContexts none s id.toString = .ok (row.context id.toString) :=
    Db.getWorkflowContexts_eq_ok.2 ⟨rfl, id, row, Pg.UUID.ofString?_toString id, hrow, rfl⟩
  have hstate : (row.context id.toString).currentActionState = .success := hsuccess
  have hindex : (row.context id.toString).currentActionIndex =
      (row.context id.toString).totalNumberOfActions - 1 := by
    show row.currentActionIndex = row.totalNumberOfActions - 1
    rw [hstands.2, (hs.positioned hrow).total]
    omega
  unfold Db.getWorkflowState
  simp only [hc, hstate, hindex, ne_eq, not_true_eq_false, if_false, if_true]

/-- A block that is not the last one ends with a handover. -/
private theorem handover_of_block {actions : List WorkflowAction} {e : Nat}
    (hown : ∃ a, actions[e]? = some a ∧ a.workerId = w) (hend : ¬ ∃ a, actions[e + 1]? = some a ∧ a.workerId = w)
    (he : e + 1 ≠ actions.length) : Handover actions e ∧ ∃ b, actions[e + 1]? = some b := by
  obtain ⟨a, hget, rfl⟩ := hown
  have hlt := (List.getElem?_eq_some_iff.1 hget).1
  have hnext : actions[e + 1]? = some actions[e + 1] := List.getElem?_eq_getElem (by omega)
  refine ⟨⟨a, _, hget, hnext, fun hc => hend ⟨_, hnext, hc.symm⟩⟩, _, hnext⟩

/-- Without a handover after the first action, the worker of the first action and, if it is another one, that of the
second do all the actions. -/
private theorem completes_of_no_handover (hinv : Inv x) (hrow : x.store.workflowState id = some row)
    (hun : row.Unreported) (hne : row.actionList ≠ [])
    (honly : ∀ a ∈ row.actionList, ∃ u, a.workerId = u.toString ∧ OnlyOn x.store u id)
    (hno : ∀ i, 1 ≤ i → ¬ Handover row.actionList i) :
    ∃ ms, Db.getWorkflowState none (run (Fleet.step r) x ms).store id.toString = .success := by
  have hrun : ∀ ms, Inv (run (Fleet.step r) x ms) := fun ms => run_inv (I := Inv) hinv fun _ m h => h.step m
  obtain ⟨a, actions, hlist⟩ := List.exists_cons_of_ne_nil hne
  obtain ⟨u, hu, honlyu⟩ := honly a (by rw [hlist]; exact List.mem_cons_self)
  have hdue : row.Due u.toString := by
    refine ⟨⟨by rw [hun.state]; decide, by rw [hun.state]; decide, fun hc => ?_⟩, a, ?_, hu⟩
    · rw [hun.state] at hc
      cases hc.1
    · rw [Db.StateRow.nextAction?, hun.state, hun.index, hlist]
      rfl
  have hvisible : ¬ row.BetweenActions := by
    rintro ⟨hs, -⟩
    rw [hun.state] at hs
    cases hs
  have hfront : front row = 0 := if_pos hun.action
  obtain ⟨ms, ⟨⟨row₁, e, hrow₁, hlist₁, hstands, hs, -, hown, hend⟩, hmap⟩, -⟩ :=
    does_block (r := r) (hinv.reachable.placed hrow) hrow honlyu hdue hvisible (by rw [hun.state]; decide)
      (Or.inl ⟨hun.action, hfront⟩)
  by_cases he : e + 1 = row.actionList.length
  · exact ⟨ms, completed_of_last (hrun ms).reachable hrow₁ hstands hs (by rw [hlist₁]; exact he)⟩
  -- the second action is the first of another worker
  obtain ⟨hhand, b, hb⟩ := handover_of_block hown hend he
  have he0 : e = 0 := by
    by_contra hpos
    exact hno e (by omega) hhand
  subst he0
  obtain ⟨v, hv, honlyv⟩ := honly b (List.mem_of_getElem? hb)
  have hindex : row₁.currentActionIndex = 0 := hstands.2
  have hlen := (List.getElem?_eq_some_iff.1 hb).1
  have hdue₁ : row₁.Due v.toString := by
    refine ⟨⟨by rw [hs]; decide, by rw [hs]; decide, fun hc => ?_⟩, b, ?_, hv⟩
    · rw [hlist₁, hindex] at hc
      have := hc.2
      omega
    · rw [Db.StateRow.nextAction?, if_pos hs, hindex, hlist₁]
      exact hb
  have hvisible₁ : ¬ row₁.BetweenActions := by
    rintro ⟨-, hpos, -⟩
    omega
  have hfront₁ : front row₁ = row₁.currentActionIndex + 1 := by
    unfold front
    rw [if_neg hstands.1, hs]
    rfl
  obtain ⟨ms', ⟨⟨row₂, e₂, hrow₂, hlist₂, hstands₂, hs₂, hle, hown₂, hend₂⟩, -⟩, -⟩ :=
    does_block (r := r) ((hrun ms).reachable.placed hrow₁) hrow₁
      (by unfold OnlyOn; rw [hmap]; exact honlyv) hdue₁ hvisible₁
      (by rw [hs]; decide) (Or.inr ⟨hstands.1, hfront₁⟩)
  refine ⟨ms ++ ms', ?_⟩
  have hlast : e₂ + 1 = row₂.actionList.length := by
    by_contra he₂
    obtain ⟨hhand₂, -⟩ := handover_of_block hown₂ hend₂ (by rw [← hlist₂]; exact he₂)
    rw [hlist₁] at hhand₂
    exact hno e₂ (by omega) hhand₂
  have hreach := (hrun (ms ++ ms')).reachable
  rw [run_append] at hreach ⊢
  exact completed_of_last hreach hrow₂ hstands₂ hs₂ hlast

/-- Whatever has happened before, for a workflow with an action that is created for workers that have nothing else to
do: there is a run of the service and its workers in which it is completed if and only if no two neighbouring actions
after the first are those of different workers. -/
theorem completes_iff (r : Template.Renderer H) (before : List Move) (reg : Db.Registry) (env : Db.CreateEnv)
    (template hardware : String) (row : Db.StateRow)
    (hfresh : (run (step r) {} before).store.workflowState env.id = none)
    (hrow : (run (step r) {} (before ++ [.create reg env template hardware])).store.workflowState env.id = some row)
    (hne : row.actionList ≠ []) (hzero : ∀ a ∈ row.actionList, a.workerId ≠ Pg.UUID.zero.toString)
    (hown : ∀ a ∈ row.actionList, ∀ q ∈ (run (step r) {} before).store.workflowWorkerMap, q.2.toString ≠ a.workerId) :
    (∃ after, Db.getWorkflowState none
        (run (step r) {} (before ++ [.create reg env template hardware] ++ after)).store env.id.toString = .success) ↔
      ∀ i, 1 ≤ i → ¬ Handover row.actionList i := by
  constructor
  · rintro ⟨after, h⟩
    exact no_handover_of_completes _ after hrow h
  · intro hno
    have hrow' := hrow
    rw [run_concat] at hrow'
    obtain ⟨-, hun, honly⟩ := create_cases (inv_run (r := r) before) hfresh hrow'
    obtain ⟨ms, h⟩ := completes_of_no_handover (r := r)
      (inv_run (r := r) (before ++ [.create reg env template hardware]))
      hrow hun hne (fun a ha => by rw [run_concat]; exact honly a ha (hzero a ha) (hown a ha)) hno
    exact ⟨ms, by rw [run_append]; exact h⟩

theorem completes_iff_late_handover :
    ¬ ∃ after, Db.getWorkflowState none (run (step tripleRenderer) {} ([] ++
      [.create { getWorkerID := .ok, parse := Db.uuidColumn } Db.sampleEnv "template" "devices"] ++ after)).store
      Db.sampleID.toString = .success := by
  have hiff := completes_iff tripleRenderer [] { getWorkerID := .ok, parse := Db.uuidColumn } Db.sampleEnv "template"
    "devices" tripleRow rfl triple_created (by decide) (by decide +kernel) (fun _ _ _ hq => by cases hq)
  rw [show Db.sampleEnv.id = Db.sampleID from rfl] at hiff
  rw [hiff]
  intro hno
  exact hno 1 le_rfl ⟨_, _, rfl, rfl, by decide⟩

end Tink.Fleet
