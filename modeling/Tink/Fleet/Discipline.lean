import Tink.Db.Dispatch
import Tink.Fleet.Once

/-!
# A rule for invariants of the fleet

The invariants of a fleet speak of rows, of contexts on their way to a worker and of workers at work.  `Effect` says
once what one report or one execution does to the row of a workflow and to the job of the worker (`Sound.effect`).  A
`Discipline` is a predicate for each of the three together with the proofs that reports and executions keep it, each
about one row only; that it holds in every run of the whole system follows once and for all (`Discipline.holds_run`).
-/

namespace Tink.Fleet

open Machine Worker

/-- A report leaves the row as it is, or the row admits it and is moved. -/
def Reports (row : Db.StateRow) (req : WorkflowActionStatus) (row' : Db.StateRow) : Prop :=
  row' = row ∨ ∃ env, Db.Admits env row req ∧ row' = row.after req

/-- What one report or one execution of a worker does to the row of its workflow, and what becomes of the worker. -/
inductive Effect (cfg : Config) (row : Db.StateRow) (j : Job) : Db.StateRow → Outcome Empty Progress → Prop where
  | announce {left : Nat} {row' : Db.StateRow} {y : Outcome Empty Progress} (hph : j.phase = .announce left)
      (hrow : Reports row j.announcement row')
      (hy : ∀ j', y = .ok (.job j') → ∃ ph, j' = { j with phase := ph } ∧ ∀ req left, ph ≠ .conclude req left) :
      Effect cfg row j row' y
  | exits (hph : j.phase = .execute) : Effect cfg row j row (.ok .exit)
  | execute (hph : j.phase = .execute) (hr : 0 < cfg.retries) (e : Exit) :
      Effect cfg row j row (.ok (.job { j with phase := .conclude (j.conclusion e) cfg.retries }))
  | skip (hph : j.phase = .execute) (hr : cfg.retries = 0) (status : State) (updated : Bool) :
      Effect cfg row j row (j.concluded cfg status updated)
  | conclude {e : Exit} {left : Nat} {row' : Db.StateRow} {y : Outcome Empty Progress}
      (hph : j.phase = .conclude (j.conclusion e) left) (hrow : Reports row (j.conclusion e) row')
      (hy : ∀ j', y = .ok (.job j') → ∃ left, j' = { j with phase := .conclude (j.conclusion e) left }) :
      Effect cfg row j row' y
  | concluded {e : Exit} {left : Nat} {env : Db.ReportEnv} (hph : j.phase = .conclude (j.conclusion e) left)
      (hadm : Db.Admits env row (j.conclusion e)) (updated : Bool) :
      Effect cfg row j (row.after (j.conclusion e)) (j.concluded cfg e.status updated)

variable {H : Type} {r : Template.Renderer H} {s : Db.Store} {cfg cfg' : Config} {row row' : Db.StateRow}
    {id : Pg.UUID}
  {w : String} {j j' : Job} {y : Outcome Empty Progress} {req : WorkflowActionStatus} {p p' : Process} {x : System}

private theorem Reports.list (h : Reports row req row') : row'.actionList = row.actionList := by
  rcases h with rfl | ⟨env, -, rfl⟩ <;> rfl

theorem Effect.list (h : Effect cfg row j row' y) : row'.actionList = row.actionList := by
  cases h with
  | announce _ hrow _ => exact hrow.list
  | exits => rfl
  | execute => rfl
  | skip => rfl
  | conclude _ hrow _ => exact hrow.list
  | concluded => rfl

/-- What a report does to the row of its workflow, whatever becomes of the answer. -/
private theorem deliver_reports (hp : Db.Placed row) (hrow : s.workflowState id = some row)
    (req : WorkflowActionStatus) (hid : Pg.UUID.ofString? req.workflowId = some id) (d : Delivery)
    (env : Db.ReportEnv) :
    ∃ row', (deliver d env s req).1.workflowState id = some row' ∧ Reports row req row' ∧
      ((deliver d env s req).2 = true → Db.Admits env row req ∧ row' = row.after req) := by
  rcases deliver_cases d env s req with ⟨hstore, hnot⟩ | ⟨hstore, hack⟩
  · refine ⟨row, by rw [hstore]; exact hrow, Or.inl rfl, fun hc => ?_⟩
    rw [hnot] at hc
    cases hc
  · rw [hstore]
    by_cases hadm : Db.Admits env row req
    · exact ⟨row.after req, hp.step_of_admits hrow hid hadm, Or.inr ⟨env, hadm, rfl⟩, fun _ => ⟨hadm, rfl⟩⟩
    · refine ⟨row, hp.step_of_not_admits hrow fun hc => hadm hc.2, Or.inl rfl, fun hc => ?_⟩
      exact absurd (hp.admits_of_ok hid hrow (hack hc)) hadm

/-- What one step of a worker at work does. -/
theorem Sound.effect (hp : Db.Placed row) (hrow : s.workflowState id = some row)
    (hid : Pg.UUID.ofString? j.wfContext.workflowId = some id) (h : Sound row cfg j) (i : Session.Input) :
    ∃ row', (Session.step cfg ⟨s, .ok (.job j)⟩ i).store.workflowState id = some row' ∧
      Effect cfg row j row' (Session.step cfg ⟨s, .ok (.job j)⟩ i).worker := by
  have hdue := h.due
  cases hph : j.phase with
  | announce left =>
    have hs : sends (.ok (.job j)) = some (j.actionIndex, j.announcement) := by rw [sends, hph]
    obtain ⟨row', hrow', hreports, -⟩ := deliver_reports hp hrow j.announcement hid i.delivery i.env
    rw [Session.step_of_sends hs]
    refine ⟨row', hrow', .announce hph hreports ?_⟩
    intro j' hj'
    simp only [Worker.step, Job.step, hph] at hj'
    split at hj'
    · cases hj'
      exact ⟨.execute, rfl, by simp⟩
    · split at hj'
      · cases hj'
      · cases hj'
        exact ⟨.announce (left - 1), rfl, by simp⟩
  | execute =>
    have hs : sends (.ok (.job j)) = none := by rw [sends, hph]
    rw [Session.step_of_silent hs]
    refine ⟨row, hrow, ?_⟩
    simp only [Worker.step, Job.step, hph]
    split
    · exact .exits hph
    · split
      · rename_i hr
        exact .execute hph hr i.exit
      · exact .skip hph (by omega) _ _
  | conclude req left =>
    rw [hph] at hdue
    obtain ⟨-, ⟨e, rfl⟩, -⟩ := hdue
    have hs : sends (.ok (.job j)) = some (j.actionIndex, j.conclusion e) := by rw [sends, hph]
    obtain ⟨row', hrow', hreports, hack⟩ := deliver_reports hp hrow (j.conclusion e) hid i.delivery i.env
    rw [Session.step_of_sends hs]
    refine ⟨row', hrow', ?_⟩
    simp only [Worker.step, Job.step, hph]
    by_cases hacked : (deliver i.delivery i.env s (j.conclusion e)).2 = true
    · obtain ⟨hadm, rfl⟩ := hack hacked
      rw [if_pos hacked]
      exact .concluded hph hadm _
    · rw [if_neg hacked]
      refine .conclude hph hreports ?_
      intro j' hj'
      split at hj'
      · cases hj'
      · cases hj'
        exact ⟨left - 1, rfl⟩

/-- What a step of a worker at work does to the tables: there are the same rows as before, and only that of its own
workflow changes. -/
private theorem Inv.work_store (h : Inv x) (hlive : x.live w = some p) (hj : p.current = some j) (i : Session.Input) :
    ∃ id₀ row₀ row₁, Pg.UUID.ofString? j.wfContext.workflowId = some id₀ ∧ x.store.workflowState id₀ = some row₀ ∧
      Sound row₀ ⟨w, p.retries⟩ j ∧
      Effect ⟨w, p.retries⟩ row₀ j row₁ (Session.step ⟨w, p.retries⟩ ⟨x.store, .ok (.job j)⟩ i).worker ∧
      (x.work w i).store.workflowState = Function.update x.store.workflowState id₀ (some row₁) := by
  obtain ⟨id₀, row₀, hid₀, hrow₀, hsound⟩ := (h.processes w p hlive).current j hj
  obtain ⟨row₁, hrow₁, heffect⟩ := hsound.effect (h.reachable.placed hrow₀) hrow₀ hid₀ i
  refine ⟨id₀, row₀, row₁, hid₀, hrow₀, hsound, heffect, ?_⟩
  rw [work_eq hlive hj i]
  funext id
  by_cases hne : id = id₀
  · rw [hne, Function.update_self]
    exact hrow₁
  · rw [Function.update_of_ne hne]
    rcases hsound.store (s := x.store) i with hst | ⟨req, hreq, hst⟩
    · simp only [hst]
    · simp only [hst]
      rcases Db.step_workflowState (s := x.store) (i.env, req) with hst' | ⟨s', hup, hst'⟩
      · rw [hst']
      · -- the report is about the workflow of the job
        obtain ⟨u, _, _, hu, -, -, -, rfl⟩ := Db.reportUpdate_eq_ok.1 hup
        have hu : Pg.UUID.ofString? req.workflowId = some u := hu
        rw [hreq, hid₀] at hu
        cases hu
        rw [hst']
        exact Function.update_of_ne hne _ _

/-- Where a row comes from: it was there before the move, or was created by it, or is that of the workflow on which
the worker that has made the move is at work. -/
theorem Inv.row_cases (h : Inv x) (m : Move) (hrow' : (Fleet.step r x m).store.workflowState id = some row') :
    x.store.workflowState id = some row' ∨ (x.store.workflowState id = none ∧ Db.Placed row' ∧ row'.Unreported) ∨
      ∃ w i p j row, m = .work w i ∧ x.live w = some p ∧ p.current = some j ∧
        Pg.UUID.ofString? j.wfContext.workflowId = some id ∧ x.store.workflowState id = some row ∧
        Sound row ⟨w, p.retries⟩ j ∧
        Effect ⟨w, p.retries⟩ row j row' (Session.step ⟨w, p.retries⟩ ⟨x.store, .ok (.job j)⟩ i).worker := by
  cases m with
  | create reg env template hardware =>
    have hrow' : (x.create r reg env template hardware).store.workflowState id = some row' := hrow'
    unfold System.create at hrow'
    split at hrow'
    · rename_i hfresh hcreate
      obtain ⟨row₁, hrows, hp, hun⟩ := Db.createWorkflow_placed hcreate
      simp only [hrows, Function.update_apply] at hrow'
      split at hrow'
      · rename_i heq
        cases hrow'
        right; left
        rw [heq, (Db.createWorkflow_eq_ok hcreate).1]
        exact ⟨hfresh, hp, hun⟩
      · left; exact hrow'
    · left; exact hrow'
  | start w retries | crash w | poll w failure | serve w env | cut w k | receive w failure =>
    left
    exact hrow'
  | work w i =>
    have hrow' : (x.work w i).store.workflowState id = some row' := hrow'
    rcases work_cases w i with hsame | ⟨p, j, hlive, hj⟩
    · left
      rw [hsame] at hrow'
      exact hrow'
    · obtain ⟨id₀, row₀, row₁, hid₀, hrow₀, hsound, heffect, hstore⟩ := h.work_store hlive hj i
      rw [hstore, Function.update_apply] at hrow'
      split at hrow'
      · rename_i hid
        cases hrow'
        right; right
        rw [← hid] at hid₀ hrow₀
        exact ⟨w, i, p, j, row₀, rfl, hlive, hj, hid₀, hrow₀, hsound, heffect⟩
      · left; exact hrow'

/-! ### The rule -/

/-- What is to hold of the rows, of the contexts sent to a worker and of the worker's job, and why it is kept.  The
last two fields are about the others: a worker goes on with an action of the workflow while someone else is told of
it, or is at work on it as well. -/
structure Discipline where
  Row : Db.StateRow → Prop
  Sent : String → Db.StateRow → WorkflowContext → Prop
  Work : Config → Db.StateRow → Job → Prop
  created : ∀ {row}, Db.Placed row → row.Unreported → Row row
  served : ∀ {w row} (t : String), Db.Placed row → Row row → row.Due w → ¬ row.BetweenActions →
    Sent w row (row.context t)
  received : ∀ {cfg row c n j}, Sent cfg.workerID row c → turn cfg.workerID c row.actionList = .ok (some n) →
    n = front row → processContext cfg c row.actionList = .ok (.job j) → Work cfg row j
  worked : ∀ {cfg row j row' y}, Db.Placed row → Row row → Sound row cfg j → Work cfg row j →
    Effect cfg row j row' y →
    Row row' ∧ ∀ j', y = .ok (.job j') → Work cfg row' j'
  sentKept : ∀ {cfg row j row' y w c}, Db.Placed row → Sound row cfg j → Work cfg row j → Effect cfg row j row' y →
    w ≠ cfg.workerID → (∀ n, turn w c row.actionList = .ok (some n) → n = front row) → Sent w row c → Sent w row' c
  workKept : ∀ {cfg row j row' y cfg' j'}, Db.Placed row → Sound row cfg j → Work cfg row j →
    Effect cfg row j row' y →
    cfg'.workerID ≠ cfg.workerID → Sound row cfg' j' → Work cfg' row j' → Work cfg' row' j'

namespace Discipline

/-- What holds of the process of the worker `w`. -/
structure Within (d : Discipline) (s : Db.Store) (w : String) (p : Process) : Prop where
  sent : ∀ c ∈ p.sent, ∀ id row, Pg.UUID.ofString? c.workflowId = some id → s.workflowState id = some row →
    d.Sent w row c
  current : ∀ j, p.current = some j → ∀ id row, Pg.UUID.ofString? j.wfContext.workflowId = some id →
    s.workflowState id = some row → d.Work ⟨w, p.retries⟩ row j

structure Holds (d : Discipline) (x : System) : Prop where
  rows : ∀ id row, x.store.workflowState id = some row → d.Row row
  processes : ∀ w p, x.live w = some p → d.Within x.store w p

variable {d : Discipline}

/-- A process that is sent nothing new, and has no new job. -/
private theorem Within.sub (h : d.Within s w p) (hr : p'.retries = p.retries) (hsent : ∀ c ∈ p'.sent, c ∈ p.sent)
    (hcurrent : ∀ j, p'.current = some j → p.current = some j) : d.Within s w p' := by
  refine ⟨fun c hc => h.sent c (hsent c hc), fun j hj => ?_⟩
  rw [hr]
  exact h.current j (hcurrent j hj)

private theorem Within.poll (h : d.Within s w p) (failure : Option String) : d.Within s w (p.poll w s failure) := by
  unfold Process.poll
  split
  · split
    · exact h
    · split
      · exact h.sub rfl (fun _ hc => hc) fun _ hj => hj
      · exact h
  · exact h

private theorem Within.serve (hs : Db.Reachable s) (hrows : ∀ id row, s.workflowState id = some row → d.Row row)
    (h : d.Within s w p) (env : Db.StreamEnv) : d.Within s w (p.serve w s env) := by
  have hdrop : ∀ l, d.Within s w { p with pending := l } := fun l => h.sub rfl (fun _ hc => hc) fun _ hj => hj
  unfold Process.serve
  cases hpending : p.pending with
  | nil => exact h
  | cons wf wfs =>
    simp only
    split
    · exact hdrop _
    · rename_i c hc
      split
      · exact hdrop _
      · rename_i e _
        exact e.elim
      · exact hdrop _
      · rename_i happ
        split
        · exact hdrop _
        · obtain ⟨-, id, row, hid, hrow, rfl⟩ := Db.getWorkflowContexts_eq_ok.1 hc
          have hread : env.actionsErr wf = none := by
            cases herr : env.actionsErr wf with
            | none => rfl
            | some e =>
              rw [herr] at happ
              exact absurd happ (Db.isApplicableToSend_failed e _)
          rw [hread] at happ
          have hp := hs.placed hrow
          obtain ⟨hdue, hbetween⟩ := (Db.isApplicableToSend_iff_due hp.toPositioned hid hrow).1 happ
          refine ⟨?_, h.current⟩
          intro c hc id' row' hid' hrow'
          rcases List.mem_append.1 hc with hc | hc
          · exact h.sent c hc id' row' hid' hrow'
          · rw [List.mem_singleton] at hc
            rw [hc] at hid' ⊢
            have hid' : Pg.UUID.ofString? wf = some id' := hid'
            rw [hid] at hid'
            cases hid'
            rw [hrow] at hrow'
            cases hrow'
            exact d.served wf hp (hrows id row hrow) hdue hbetween

private theorem Within.receive (hp : p.Valid s w) (h : d.Within s w p) (failure : Option String)
    (hp' : p.receive w s failure = some p') : d.Within s w p' := by
  unfold Process.receive at hp'
  split at hp'
  · rename_i c cs hcurrent hsent
    obtain ⟨id, row, hid, hrow, hturn⟩ := hp.sent c (by rw [hsent]; exact List.mem_cons_self)
    have hrest : ∀ o, (∀ j, o = some j → ∀ id row, Pg.UUID.ofString? j.wfContext.workflowId = some id →
        s.workflowState id = some row → d.Work ⟨w, p.retries⟩ row j) →
        d.Within s w { p with sent := cs, current := o } := by
      intro o ho
      refine ⟨fun c' hc' => h.sent c' ?_, ho⟩
      rw [hsent]
      exact List.mem_cons_of_mem c hc'
    rw [Db.getWorkflowActions_eq hid hrow] at hp'
    simp only at hp'
    -- a list that was not read is empty, and no turn is found in it
    have hjob : ∀ j, processContext ⟨w, p.retries⟩ c (if failure = none then row.actionList else []) = .ok (.job j) →
        j.wfContext = c ∧ d.Work ⟨w, p.retries⟩ row j := by
      intro j hj
      split at hj
      · cases ht : turn w c row.actionList with
        | panic => simp [processContext, ht] at hj
        | error e => exact e.elim
        | ok o =>
          cases o with
          | none => simp [processContext, ht] at hj
          | some n =>
            have hn := hturn n ht
            refine ⟨(sound_of_turn ht hn hj).1, ?_⟩
            refine d.received ?_ ht hn hj
            exact h.sent c (by rw [hsent]; exact List.mem_cons_self) id row hid hrow
      · cases ht : turn w c [] with
        | panic => simp [processContext, ht] at hj
        | error e => exact e.elim
        | ok o =>
          cases o with
          | none => simp [processContext, ht] at hj
          | some n =>
            obtain ⟨-, a, hget, -⟩ := turn_eq_some ht
            simp at hget
    cases hy : processContext ⟨w, p.retries⟩ c (if failure = none then row.actionList else []) with
    | panic => rw [hy] at hp'; cases hp'
    | error e => exact e.elim
    | ok progress =>
      rw [hy] at hp'
      cases progress with
      | exit => cases hp'
      | next =>
        cases hp'
        exact hrest none fun _ hj => by cases hj
      | job j =>
        cases hp'
        obtain ⟨hc, hwork⟩ := hjob j hy
        refine hrest (some j) ?_
        intro j' hj' id' row' hid' hrow'
        cases hj'
        rw [hc, hid] at hid'
        cases hid'
        rw [hrow] at hrow'
        cases hrow'
        exact hwork
  · cases hp'
    exact h

private theorem Holds.onProcess {q : Process} {w' : String} (h : d.Holds x) {f : Process → Option Process}
    (hf : ∀ p p', x.live w = some p → d.Within x.store w p → f p = some p' → d.Within x.store w p')
    (hq : (x.onProcess w f).live w' = some q) : d.Within (x.onProcess w f).store w' q := by
  rcases Processes.of_onProcess hq with hq | ⟨rfl, p, hlive, hp⟩
  · exact h.processes w' q hq
  · exact hf p q hlive (h.processes w' p hlive) hp

private theorem Holds.rows_step (hinv : Inv x) (h : d.Holds x) (m : Move)
    (hrow' : (step r x m).store.workflowState id = some row') : d.Row row' := by
  rcases hinv.row_cases m hrow' with hrow | ⟨-, hp, hun⟩ |
    ⟨w, i, p, j, row, rfl, hlive, hj, hid, hrow, hsound, heffect⟩
  · exact h.rows id row' hrow
  · exact d.created hp hun
  · have hwork := (h.processes w p hlive).current j hj id row hid hrow
    exact (d.worked (hinv.reachable.placed hrow) (h.rows id row hrow) hsound hwork heffect).1

/-- Processes have to do with workflows that exist, and these are kept. -/
private theorem Holds.create (hinv : Inv x) (h : d.Holds x) (reg : Db.Registry) (env : Db.CreateEnv)
    (template hardware : String) (hp : (x.create r reg env template hardware).live w = some p) :
    d.Within (x.create r reg env template hardware).store w p := by
  have hkept := (hinv.create (r := r) reg env template hardware).2
  have hlive : (x.create r reg env template hardware).live = x.live := by
    unfold System.create
    split <;> rfl
  rw [hlive] at hp
  have hvalid := hinv.processes w p hp
  refine ⟨?_, ?_⟩
  · intro c hc id row hid hrow
    obtain ⟨id', row', hid', hrow', -⟩ := hvalid.sent c hc
    rw [hid'] at hid
    cases hid
    rw [hkept _ row' hrow'] at hrow
    cases hrow
    exact (h.processes w p hp).sent c hc _ _ hid' hrow'
  · intro j hj id row hid hrow
    obtain ⟨id', row', hid', hrow', -⟩ := hvalid.current j hj
    rw [hid'] at hid
    cases hid
    rw [hkept _ row' hrow'] at hrow
    cases hrow
    exact (h.processes w p hp).current j hj _ _ hid' hrow'

/-- What holds of the process that has made a step of its work: the workflow whose row changes is not among the other
contexts it has. -/
private theorem Holds.work_self (hinv : Inv x) (h : d.Holds x) (hlive : x.live w = some p) (hj : p.current = some j)
    (i : Session.Input)
    (hp' : p.resume (Session.step ⟨w, p.retries⟩ ⟨x.store, .ok (.job j)⟩ i).worker = some p') :
    d.Within (x.work w i).store w p' := by
  have hvalid := hinv.processes w p hlive
  obtain ⟨id₀, row₀, row₁, hid₀, hrow₀, hsound, heffect, hstore⟩ := hinv.work_store hlive hj i
  have hids : p.ids = j.wfContext.workflowId :: Process.ids { p with current := none } := by
    unfold Process.ids
    rw [hj]
    rfl
  have hnodup := hvalid.nodup
  rw [hids, List.nodup_cons] at hnodup
  have hcanon := hvalid.canonical
  rw [hids] at hcanon
  have hsent : ∀ c ∈ p.sent, ∀ id row', Pg.UUID.ofString? c.workflowId = some id →
      (x.work w i).store.workflowState id = some row' → d.Sent w row' c := by
    intro c hc id row' hid hrow'
    have hmem : c.workflowId ∈ Process.ids { p with current := none } := by
      unfold Process.ids
      exact List.mem_append_right _ (List.mem_append_left _ (List.mem_map_of_mem hc))
    have hne : id ≠ id₀ := by
      rintro rfl
      apply hnodup.1
      rw [canonical_inj (hcanon _ List.mem_cons_self) (hcanon _ (List.mem_cons_of_mem _ hmem)) hid₀ hid]
      exact hmem
    rw [hstore, Function.update_of_ne hne] at hrow'
    exact (h.processes w p hlive).sent c hc id row' hid hrow'
  cases hy : (Session.step ⟨w, p.retries⟩ ⟨x.store, .ok (.job j)⟩ i).worker with
  | panic => rw [hy] at hp'; cases hp'
  | error e => exact e.elim
  | ok progress =>
    rw [hy] at hp'
    cases progress with
    | exit => cases hp'
    | next =>
      cases hp'
      exact ⟨hsent, fun _ hc => by cases hc⟩
    | job j' =>
      cases hp'
      refine ⟨hsent, ?_⟩
      intro j'' hj'' id row' hid hrow'
      cases hj''
      have hplaced := hinv.reachable.placed hrow₀
      obtain ⟨_, -, -, hctx, -⟩ := hsound.step hplaced hrow₀ hid₀ i
      rw [(hctx j' hy).1, hid₀] at hid
      cases hid
      rw [hstore, Function.update_self] at hrow'
      cases hrow'
      have hwork := (h.processes w p hlive).current j hj _ _ hid₀ hrow₀
      exact (d.worked hplaced (h.rows _ _ hrow₀) hsound hwork heffect).2 j' hy

/-- What holds of the other processes then. -/
private theorem Holds.work_other {w' : String} (hinv : Inv x) (h : d.Holds x) (hlive : x.live w = some p)
    (hj : p.current = some j) (i : Session.Input) (hw : w' ≠ w) (hp' : x.live w' = some p') :
    d.Within (x.work w i).store w' p' := by
  obtain ⟨id₀, row₀, row₁, hid₀, hrow₀, hsound, heffect, hstore⟩ := hinv.work_store hlive hj i
  have hplaced := hinv.reachable.placed hrow₀
  have hwork := (h.processes w p hlive).current j hj _ _ hid₀ hrow₀
  have hvalid := hinv.processes w' p' hp'
  have hwithin := h.processes w' p' hp'
  refine ⟨?_, ?_⟩
  · intro c hc id row' hid hrow'
    rw [hstore, Function.update_apply] at hrow'
    split at hrow'
    · rename_i heq
      subst heq
      cases hrow'
      obtain ⟨id', row, hid', hrow, hturn⟩ := hvalid.sent c hc
      rw [hid'] at hid
      cases hid
      rw [hrow₀] at hrow
      cases hrow
      exact d.sentKept hplaced hsound hwork heffect hw hturn (hwithin.sent c hc _ _ hid' hrow₀)
    · exact hwithin.sent c hc id row' hid hrow'
  · intro j' hj' id row' hid hrow'
    rw [hstore, Function.update_apply] at hrow'
    split at hrow'
    · rename_i heq
      subst heq
      cases hrow'
      obtain ⟨id', row, hid', hrow, hsound'⟩ := hvalid.current j' hj'
      rw [hid'] at hid
      cases hid
      rw [hrow₀] at hrow
      cases hrow
      exact d.workKept hplaced hsound hwork heffect hw hsound' (hwithin.current j' hj' _ _ hid' hrow₀)
    · exact hwithin.current j' hj' id row' hid hrow'

theorem Holds.step (hinv : Inv x) (h : d.Holds x) (m : Move) : d.Holds (step r x m) := by
  refine ⟨fun id row hrow => h.rows_step hinv m hrow, fun w' q hq => ?_⟩
  cases m with
  | create reg env template hardware => exact h.create hinv reg env template hardware hq
  | start w retries =>
    rcases Processes.of_start hq with hq | ⟨-, rfl⟩
    · exact h.processes w' q hq
    · exact ⟨fun _ hc => (by cases hc), fun _ hj => (by cases hj)⟩
  | crash w => exact h.onProcess (fun _ _ _ _ hp' => by cases hp') hq
  | poll w failure =>
    refine h.onProcess (fun p p' _ hp hp' => ?_) hq
    cases hp'
    exact hp.poll failure
  | serve w env =>
    refine h.onProcess (fun p p' _ hp hp' => ?_) hq
    cases hp'
    exact hp.serve hinv.reachable h.rows env
  | cut w k =>
    refine h.onProcess (fun p p' _ hp hp' => ?_) hq
    cases hp'
    exact hp.sub rfl (fun _ hc => List.mem_of_mem_take hc) fun _ hj => hj
  | receive w failure =>
    exact h.onProcess (fun p p' hlive hp hp' => hp.receive (hinv.processes w p hlive) failure hp') hq
  | work w i =>
    have hq : (x.work w i).live w' = some q := hq
    show d.Within (x.work w i).store w' q
    rcases work_cases w i with hsame | ⟨p, j, hlive, hj⟩
    · rw [hsame] at hq ⊢
      exact h.processes w' q hq
    · rw [work_eq hlive hj i] at hq
      by_cases hw : w' = w
      · subst hw
        simp only [Function.update_self] at hq
        exact h.work_self hinv hlive hj i hq
      · simp only [Function.update_of_ne hw] at hq
        exact h.work_other hinv hlive hj i hw hq

/-- What the steps of single workers keep holds in every run of the system. -/
theorem holds_run (d : Discipline) (ms : List Move) : d.Holds (run (Fleet.step r) {} ms) := by
  refine (run_inv (I := fun x => Inv x ∧ d.Holds x) ⟨inv_run (r := r) [], ?_⟩ ?_).2
  · exact ⟨fun _ _ hrow => (by cases hrow), fun _ _ hlive => (by cases hlive)⟩
  · rintro x m ⟨hinv, h⟩
    exact ⟨hinv.step m, h.step hinv m⟩

end Discipline

end Tink.Fleet
