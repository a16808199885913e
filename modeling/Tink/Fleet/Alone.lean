import Tink.Db.Dispatch
import Tink.Fleet.Once

/-!
# A worker that is left alone

The good case: a worker whose reports are answered and whose containers succeed.  It announces, executes and concludes
one action after the other (`session_action`) up to the end of its block (`session_block`).  In the system, a worker
that starts again and polls for the only workflow it takes part in gets the job if the workflow is sent to it
(`reaches_job`), and then does its block (`does_block`).
-/

namespace Tink.Fleet

open Machine Worker

variable {H : Type} {r : Template.Renderer H} {cfg : Config} {row : Db.StateRow} {id : Pg.UUID} {w : String} {j : Job}
  {x : System} {p : Process} {s : Db.Store}

/-- A `RUNNING` report about the action at position `n` moves the row there. -/
def Ready (row : Db.StateRow) (n : Int) : Prop :=
  (row.currentActionName = "" ∧ n = 0) ∨ (row.currentActionName ≠ "" ∧ n = row.currentActionIndex + 1)

/-- The worker `w` has done the actions from position `n` on, as far as they are its own. -/
structure BlockDone (s s' : Db.Store) (id : Pg.UUID) (actions : List WorkflowAction) (w : String) (n : Int) :
    Prop where
  row : ∃ row, ∃ e : Nat, s'.workflowState id = some row ∧ row.actionList = actions ∧ StandsAt row e ∧
    row.currentActionState = .success ∧ n ≤ e ∧ (∃ a, actions[e]? = some a ∧ a.workerId = w) ∧
    ¬ ∃ a, actions[e + 1]? = some a ∧ a.workerId = w
  map : s'.workflowWorkerMap = s.workflowWorkerMap

private theorem admits_announcement (hp : Db.Placed row) (hj : j.Placed cfg) (hlist : j.actions = row.actionList)
    (h : Ready row j.actionIndex) : Db.Admits {} row j.announcement := by
  have hget := hj.get
  rw [hlist] at hget
  obtain ⟨htask, hname⟩ := hp.names _ (List.mem_of_getElem? hget)
  have hindex : row.reportIndex j.announcement = j.actionIndex := by
    rw [row.reportIndex_eq]
    rcases h with ⟨hne, h0⟩ | ⟨hne, hnext⟩
    · rw [if_neg fun hc => hc.2 hne, hp.index_bounds.2.1 hne, h0]
    · rw [if_pos ⟨rfl, hne⟩, hnext]
  refine ⟨htask, hname, rfl, rfl, rfl, ?_, j.action, ?_, rfl, rfl⟩
  · show Pg.isSmallint State.running.value = true
    decide
  · rw [hindex]
    exact hget

/-- A report that is admitted and can be recorded is stored and acknowledged. -/
private theorem deliver_of_admits {req : WorkflowActionStatus} (hp : Db.Placed row)
    (hrow : s.workflowState id = some row)
    (hid : Pg.UUID.ofString? req.workflowId = some id) (hadm : Db.Admits {} row req) (hrec : Db.Recordable {} req) :
    deliver .answered {} s req = (Db.step s ({}, req), true) := by
  have hok : (Db.reportActionStatus {} s req).2 = .ok () := by
    rcases Db.reportActionStatus_of_update (hp.reportUpdate_eq hid hrow hadm) with ⟨-, e, -, hout⟩ | ⟨hnot, -⟩
    · rw [hout]
    · exact absurd hrec hnot
  exact Prod.ext rfl (deliver_answered hok)

private theorem step_announced (cfg : Config) {s' : Db.Store} {left : Nat} (hph : j.phase = .announce left)
    (h : deliver .answered {} s j.announcement = (s', true)) :
    Session.step cfg ⟨s, .ok (.job j)⟩ {} = ⟨s', .ok (.job { j with phase := .execute })⟩ := by
  have hs : sends (.ok (.job j)) = some (j.actionIndex, j.announcement) := by rw [sends, hph]
  rw [Session.step_of_sends hs]
  simp only [h, Worker.step, Job.step, hph, if_true]

private theorem step_executed (hr : 0 < cfg.retries) (hph : j.phase = .execute) :
    Session.step cfg ⟨s, .ok (.job j)⟩ {} =
      ⟨s, .ok (.job { j with phase := .conclude (j.conclusion {}) cfg.retries })⟩ := by
  have hs : sends (.ok (.job j)) = none := by rw [sends, hph]
  rw [Session.step_of_silent hs]
  simp only [Worker.step, Job.step, hph, if_pos hr, reduceCtorEq, if_false]

private theorem step_concluded (cfg : Config) {s' : Db.Store} {req : WorkflowActionStatus} {left : Nat}
    (hph : j.phase = .conclude req left) (h : deliver .answered {} s req = (s', true)) :
    Session.step cfg ⟨s, .ok (.job j)⟩ {} = ⟨s', j.concluded cfg req.actionStatus true⟩ := by
  have hs : sends (.ok (.job j)) = some (j.actionIndex, req) := by rw [sends, hph]
  rw [Session.step_of_sends hs]
  simp only [h, Worker.step, Job.step, hph, if_true]

/-- The report about an action of the list can be recorded. -/
private theorem recordable_announcement (hp : Db.Placed row) (hmem : j.action ∈ row.actionList)
    (hid : Pg.UUID.ofString? j.wfContext.workflowId = some id) : Db.Recordable {} j.announcement :=
  hp.recordable hmem hid rfl rfl rfl (show Pg.isInt 0 = true by decide)
    (show Pg.varchar 200 "Started execution" = some _ by rfl)
    (show Pg.isSmallint State.running.value = true by decide)

private theorem recordable_success (hp : Db.Placed row) (hmem : j.action ∈ row.actionList)
    (hid : Pg.UUID.ofString? j.wfContext.workflowId = some id) : Db.Recordable {} (j.conclusion {}) :=
  hp.recordable hmem hid rfl rfl rfl (show Pg.isInt 0 = true by decide)
    (show Pg.varchar 200 "finished execution successfully" = some _ by rfl)
    (show Pg.isSmallint State.success.value = true by decide)

private theorem admits_success (hp : Db.Placed row) (hget : row.actionList[j.actionIndex.toNat]? = some j.action)
    (h : StandsAt row j.actionIndex) : Db.Admits {} row (j.conclusion {}) := by
  obtain ⟨htask, hname⟩ := hp.names _ (List.mem_of_getElem? hget)
  have hindex : row.reportIndex (j.conclusion {}) = j.actionIndex := by
    rw [row.reportIndex_eq, if_neg fun hc => j.conclusion_ne_running {} hc.1]
    exact h.2
  refine ⟨htask, hname, rfl, rfl, rfl, ?_, j.action, ?_, rfl, rfl⟩
  · show Pg.isSmallint State.success.value = true
    decide
  · rw [hindex]
    exact hget

/-- A worker reports, executes and reports, and all goes well. -/
theorem session_action {left : Nat} (hp : Db.Placed row) (hrow : s.workflowState id = some row)
    (hid : Pg.UUID.ofString? j.wfContext.workflowId = some id) (hr : 0 < cfg.retries) (hj : j.Placed cfg)
    (hlist : j.actions = row.actionList) (hph : j.phase = .announce left) (hready : Ready row j.actionIndex) :
    ∃ s' row', run (Session.step cfg) ⟨s, .ok (.job j)⟩ [{}, {}, {}] = ⟨s', j.concluded cfg .success true⟩ ∧
      s'.workflowState id = some row' ∧ row'.actionList = row.actionList ∧ Db.Placed row' ∧
      StandsAt row' j.actionIndex ∧ row'.currentActionState = .success ∧
      s'.workflowWorkerMap = s.workflowWorkerMap := by
  have hget := hj.get
  rw [hlist] at hget
  have hmem := List.mem_of_getElem? hget
  have hadm := admits_announcement hp hj hlist hready
  have hstored : (Db.step s ({}, j.announcement)).workflowState id = some (row.after j.announcement) :=
    hp.step_of_admits hrow hid hadm
  have hstep₁ := step_announced cfg hph
    (deliver_of_admits hp hrow hid hadm (recordable_announcement hp hmem hid))
  have hstep₂ := step_executed (s := Db.step s ({}, j.announcement)) (j := { j with phase := .execute }) hr rfl
  -- the row stands at the action then
  have hp' := hp.after hadm
  have hstands : StandsAt (row.after j.announcement) j.actionIndex :=
    ⟨hadm.action_ne, hp.reportIndex_of_admits hadm hj.nonneg hget rfl rfl⟩
  have hadm' := admits_success hp' hget hstands
  have hstep₃ := step_concluded cfg (j := { j with phase := .conclude (j.conclusion {}) cfg.retries }) rfl
    (deliver_of_admits hp' hstored hid hadm' (recordable_success hp' hmem hid))
  have hstored' : (Db.step (Db.step s ({}, j.announcement)) ({}, j.conclusion {})).workflowState id =
      some ((row.after j.announcement).after (j.conclusion {})) := hp'.step_of_admits hstored hid hadm'
  refine ⟨_, _, ?_, hstored', rfl, hp'.after hadm', ?_, rfl, ?_⟩
  · rw [run_cons, run_cons, run_cons, run_nil, hstep₁, hstep₂]
    exact hstep₃
  · exact standsAt_of_concluded (j.conclusion_ne_running {}) hadm' hstands
  · rw [Db.step_workflowWorkerMap, Db.step_workflowWorkerMap]

/-- The worker goes on to the end of its block. -/
theorem session_block (cfg : Config) (hr : 0 < cfg.retries) (k : Nat) (hp : Db.Placed row)
    (hrow : s.workflowState id = some row)
    (hid : Pg.UUID.ofString? j.wfContext.workflowId = some id) (hj : j.Placed cfg)
    (hlist : j.actions = row.actionList)
    (hph : j.phase = .announce cfg.retries) (hctx : j.wfContext.currentActionState ≠ .running)
    (hready : Ready row j.actionIndex) (hk : row.actionList.length - j.actionIndex.toNat ≤ k) :
    ∃ is s', run (Session.step cfg) ⟨s, .ok (.job j)⟩ is = ⟨s', .ok .next⟩ ∧
      BlockDone s s' id row.actionList cfg.workerID j.actionIndex := by
  induction k generalizing s row j with
  | zero =>
    have hget := hj.get
    rw [hlist] at hget
    have := (List.getElem?_eq_some_iff.1 hget).1
    omega
  | succ k ih =>
    obtain ⟨s₁, row₁, hrun, hrow₁, hlist₁, hp₁, hstands, hsuccess, hmap⟩ :=
      session_action hp hrow hid hr hj hlist hph hready
    have hget := hj.get
    rw [hlist] at hget
    have hpos := hj.nonneg
    rcases hj.concluded_cases .success true with ⟨hne, -⟩ | ⟨-, -, hnext, hlast⟩ |
      ⟨-, -, a, j₁, hgeta, hnext, hplaced, rfl⟩
    · cases hne rfl
    · -- the block ends here
      refine ⟨[{}, {}, {}], s₁, by rw [hrun, hnext],
        ⟨row₁, j.actionIndex.toNat, hrow₁, hlist₁, ?_, hsuccess, by omega,
        ⟨j.action, hget, hj.worker⟩, ?_⟩, hmap⟩
      · rw [Int.toNat_of_nonneg hpos]
        exact hstands
      · rw [← hlist]
        exact hlast
    · rw [if_pos ⟨hctx, hr⟩] at hnext hplaced
      have hready₁ : Ready row₁ (j.actionIndex + 1) := Or.inr ⟨hstands.1, by rw [hstands.2]⟩
      have hlt := (List.getElem?_eq_some_iff.1 hget).1
      obtain ⟨is, s₂, hrun₂, hdone⟩ := ih (j := ⟨j.wfContext, j.actions, j.actionIndex + 1, a, .announce cfg.retries⟩)
        hp₁ hrow₁ hid hplaced (hlist.trans hlist₁.symm) rfl hctx hready₁
        (by rw [hlist₁]; show row.actionList.length - (j.actionIndex + 1).toNat ≤ k; omega)
      obtain ⟨row₂, e, hrow₂, hlist₂, hstands₂, hsuccess₂, hle, hown, hend⟩ := hdone.row
      refine ⟨({} : Session.Input) :: {} :: {} :: is, s₂, ?_,
        ⟨row₂, e, hrow₂, hlist₂.trans hlist₁, hstands₂, hsuccess₂,
        ?_, ?_, ?_⟩, hdone.map.trans hmap⟩
      · rw [show ({} : Session.Input) :: {} :: {} :: is = [{}, {}, {}] ++ is from rfl, run_append, hrun, hnext, hrun₂]
      · have hle : j.actionIndex + 1 ≤ e := hle
        omega
      · rw [← hlist₁]; exact hown
      · rw [← hlist₁]; exact hend

/-- A worker that has nothing to do leaves the tables as they are. -/
private theorem session_done {progress : Outcome Empty Progress} (h : ∀ j, progress ≠ .ok (.job j))
    (is : List Session.Input) : run (Session.step cfg) ⟨s, progress⟩ is = ⟨s, progress⟩ := by
  have hstep : ∀ i, Session.step cfg ⟨s, progress⟩ i = ⟨s, progress⟩ := by
    intro i
    match progress, h with
    | .ok (.job j), h => exact absurd rfl (h j)
    | .ok .next, _ => rfl
    | .ok .exit, _ => rfl
    | .panic, _ => rfl
  induction is with
  | nil => rfl
  | cons i is ih => rw [run_cons, hstep, ih]

private theorem run_work_idle (h : ∀ p, x.live w = some p → p.current = none) (is : List Session.Input) :
    run (step r) x (is.map (Move.work w)) = x := by
  have hstep : ∀ i, step r x (.work w i) = x := by
    intro i
    rcases work_cases w i with hsame | ⟨p, j, hlive, hj⟩
    · exact hsame
    · rw [h p hlive] at hj
      cases hj
  induction is with
  | nil => rfl
  | cons i is ih => rw [List.map_cons, run_cons, hstep, ih]

/-- The work of one process in the system is that of a worker with the server. -/
private theorem run_work (hlive : x.live w = some p) (hj : p.current = some j) (is : List Session.Input) :
    run (step r) x (is.map (Move.work w)) =
      ⟨(run (Session.step ⟨w, p.retries⟩) ⟨x.store, .ok (.job j)⟩ is).store, Function.update x.live w
        (p.resume (run (Session.step ⟨w, p.retries⟩) ⟨x.store, .ok (.job j)⟩ is).worker)⟩ := by
  induction is generalizing x p j with
  | nil =>
    have hp : p.resume (.ok (.job j)) = some p := by
      show some { p with current := some j } = some p
      rw [← hj]
    rw [List.map_nil, run_nil, run_nil, hp, ← hlive, Function.update_eq_self]
  | cons i is ih =>
    rw [List.map_cons, run_cons, run_cons]
    show run (step r) (x.work w i) _ = _
    rw [work_eq hlive hj i]
    generalize hy : Session.step ⟨w, p.retries⟩ ⟨x.store, .ok (.job j)⟩ i = y
    obtain ⟨s', progress⟩ := y
    have hidle : (∀ j, progress ≠ .ok (.job j)) → ∀ q, p.resume progress = some q → q.current = none := by
      intro hno q hq
      match progress, hno with
      | .ok (.job j), hno => exact absurd rfl (hno j)
      | .ok .next, _ => cases hq; rfl
      | .ok .exit, _ => cases hq
      | .panic, _ => cases hq
    by_cases hjob : ∃ j', progress = .ok (.job j')
    · obtain ⟨j', rfl⟩ := hjob
      rw [ih (x := ⟨s', Function.update x.live w (p.resume (.ok (.job j')))⟩)
        (p := { p with current := some j' }) (j := j') (by simp only [Function.update_self]; rfl) rfl]
      rw [Function.update_idem]
      have hresume : ∀ z, Process.resume { p with current := some j' } z = p.resume z := by
        intro z
        match z with
        | .ok (.job _) => rfl
        | .ok .next => rfl
        | .ok .exit => rfl
        | .panic => rfl
      rw [hresume]
    · have hno : ∀ j, progress ≠ .ok (.job j) := fun j' hc => hjob ⟨j', hc⟩
      rw [session_done hno, run_work_idle]
      intro q hq
      simp only [Function.update_self] at hq
      exact hidle hno q hq

private theorem onProcess_eq (hlive : x.live w = some p) (f : Process → Option Process) :
    x.onProcess w f = ⟨x.store, Function.update x.live w (f p)⟩ := by
  rw [System.onProcess, Processes.onProcess_of_some hlive]

private theorem onProcess_update (s : Db.Store) (live : String → Option Process) (w : String) (p : Process)
    (f : Process → Option Process) :
    System.onProcess ⟨s, Function.update live w (some p)⟩ w f = ⟨s, Function.update live w (f p)⟩ := by
  rw [onProcess_eq (Function.update_self _ _ _), Function.update_idem]

/-- A worker starts again. -/
private theorem restarted (x : System) (w : String) (retries : Nat) :
    run (step r) x [.crash w, .start w retries] =
      ⟨x.store, Function.update x.live w (some { retries := retries })⟩ := by
  rw [run_cons, run_cons, run_nil]
  show (x.onProcess w fun _ => none).start w retries = _
  cases hlive : x.live w with
  | none => rw [System.onProcess, Processes.onProcess_of_none hlive, System.start, Processes.start_of_none hlive]
  | some p =>
    rw [onProcess_eq hlive, System.start, Processes.start_of_none (Function.update_self _ _ _), Function.update_idem]

/-- The worker with the id `u` takes part in the workflow `id` and in no other. -/
def OnlyOn (s : Db.Store) (u id : Pg.UUID) : Prop := s.workflowWorkerMap.filter (fun row => row.2 = u) = [(id, u)]

/-- A workflow just created: nothing is reported, and a worker of it that had nothing to do takes part in it only,
unless its id is the zero id. -/
theorem create_cases (hinv : Inv x) {reg : Db.Registry} {env : Db.CreateEnv} {template hardware : String}
    (hfresh : x.store.workflowState env.id = none)
    (hrow : (x.create r reg env template hardware).store.workflowState env.id = some row) :
    Db.Placed row ∧ row.Unreported ∧ ∀ a ∈ row.actionList, a.workerId ≠ Pg.UUID.zero.toString →
      (∀ q ∈ x.store.workflowWorkerMap, q.2.toString ≠ a.workerId) →
      ∃ u, a.workerId = u.toString ∧ OnlyOn (x.create r reg env template hardware).store u env.id := by
  have hinv' := (hinv.create (r := r) reg env template hardware).1
  unfold System.create at hrow hinv' ⊢
  split at hrow
  · rename_i s id _ hcreate
    obtain rfl := (Db.createWorkflow_eq_ok hcreate).1
    simp only [hfresh, hcreate] at hrow hinv' ⊢
    obtain ⟨row', hrows, hp, hun⟩ := Db.createWorkflow_placed hcreate
    have hrow' := hrow
    rw [hrows, Function.update_self] at hrow'
    cases hrow'
    refine ⟨hp, hun, fun a ha hzero hown => ?_⟩
    obtain ⟨u, hu, rfl | hmem⟩ := Db.createWorkflow_mapped hcreate hrow a ha
    · exact absurd hu hzero
    · refine ⟨u, hu, ?_⟩
      -- every row of the worker is that of this workflow
      have hall : ∀ q ∈ s.workflowWorkerMap.filter (fun row => row.2 = u), q = (env.id, u) := by
        intro q hq
        obtain ⟨hq, hqu⟩ := List.mem_filter.1 hq
        have hqu : q.2 = u := of_decide_eq_true hqu
        obtain ⟨-, text, data, s₁, -, -, hins, rfl⟩ := Db.createWorkflow_eq_ok hcreate
        obtain ⟨_, _, workers, -, -, -, -, rfl⟩ := Db.insertActionList_ok hins
        rcases (Db.mem_foldl_insertIntoWfWorkerTable env.id).1 hq with hold | ⟨hid, -⟩
        · exact absurd (by rw [hqu, hu]) (hown q hold)
        · exact Prod.ext hid hqu
      have hin : (env.id, u) ∈ s.workflowWorkerMap.filter (fun row => row.2 = u) := List.mem_filter.2 ⟨hmem, by simp⟩
      have hnodup : (s.workflowWorkerMap.filter (fun row => row.2 = u)).Nodup := hinv'.map.filter _
      show s.workflowWorkerMap.filter (fun row => row.2 = u) = [(env.id, u)]
      rw [List.eq_replicate_of_mem hall] at hin hnodup ⊢
      have hlen := List.nodup_replicate.1 hnodup
      have hpos : (s.workflowWorkerMap.filter (fun row => row.2 = u)).length ≠ 0 := (List.mem_replicate.1 hin).1
      rw [show (s.workflowWorkerMap.filter (fun row => row.2 = u)).length = 1 by omega]
      rfl
  · rw [hfresh] at hrow
    cases hrow

/-- A worker that starts again, and is sent the only workflow it takes part in, starts with the action at the
front. -/
theorem reaches_job {u : Pg.UUID} (hp : Db.Placed row) (hrow : x.store.workflowState id = some row)
    (honly : OnlyOn x.store u id) (hdue : row.Due u.toString) (hvisible : ¬ row.BetweenActions)
    (hstate : row.currentActionState ≠ .running) :
    ∃ ms j, run (step r) x ms =
        ⟨x.store, Function.update x.live u.toString (some { retries := 1, current := some j })⟩ ∧
      j.Placed ⟨u.toString, 1⟩ ∧ j.wfContext = row.context id.toString ∧ j.actions = row.actionList ∧
      j.actionIndex = front row ∧ j.phase = .announce 1 := by
  have hid := Pg.UUID.ofString?_toString id
  obtain ⟨n, hturn⟩ := (Db.turn_iff_due hp.toPositioned id.toString).2 hdue
  obtain ⟨a, j, hj, hplaced, hjob⟩ :=
    processContext_of_turn (show turn (Config.mk u.toString 1).workerID _ _ = _ from hturn)
  have hctx : (row.context id.toString).currentActionState ≠ .running := hstate
  rw [if_pos ⟨hctx, Nat.one_pos⟩] at hjob
  refine ⟨[.crash u.toString, .start u.toString 1, .poll u.toString none, .serve u.toString {},
    .receive u.toString none],
    j, ?_, hplaced, by rw [hjob], by rw [hjob], ?_, by rw [hjob]⟩
  · -- what the three moves make of the fresh process
    have hpoll : Process.poll u.toString x.store none { retries := 1 } =
        { retries := 1, pending := [id.toString] } := by
      have hne : u.toString ≠ "" := Db.ne_empty_of_ofString? (Pg.UUID.ofString?_toString u)
      have hwfs : Db.getWorkflowsForWorker none x.store u.toString = .ok [id.toString] := by
        refine Db.getWorkflowsForWorker_eq_ok.2 ⟨rfl, u, Pg.UUID.ofString?_toString u, ?_⟩
        rw [show x.store.workflowWorkerMap.filter (fun row => row.2 = u) = [(id, u)] from honly]
        rfl
      unfold Process.poll
      simp only [hwfs, if_neg hne]
    have hserve : Process.serve u.toString x.store {} { retries := 1, pending := [id.toString] } =
        { retries := 1, sent := [row.context id.toString] } := by
      have hc : Db.getWorkflowContexts none x.store id.toString = .ok (row.context id.toString) :=
        Db.getWorkflowContexts_eq_ok.2 ⟨rfl, id, row, hid, hrow, rfl⟩
      have happ := (Db.isApplicableToSend_iff_due hp.toPositioned hid hrow).2 ⟨hdue, hvisible⟩
      unfold Process.serve
      simp only [hc, happ, List.nil_append]
    have hreceive : Process.receive u.toString x.store none { retries := 1, sent := [row.context id.toString] } =
        some { retries := 1, current := some j } := by
      have hactions : Db.getWorkflowActions none x.store (row.context id.toString).workflowId = .ok row.actionList :=
        Db.getWorkflowActions_eq hid hrow
      unfold Process.receive
      simp only [hactions, hj]
      rfl
    rw [show ([.crash u.toString, .start u.toString 1, .poll u.toString none, .serve u.toString {},
      .receive u.toString none] : List Move) = [.crash u.toString, .start u.toString 1] ++ [.poll u.toString none,
      .serve u.toString {}, .receive u.toString none] from rfl, run_append, restarted, run_cons, run_cons,
      run_cons, run_nil]
    simp only [step, onProcess_update, hpoll, hserve, hreceive]
  · rw [hjob]
    exact front_of_turn hturn

/-- The worker does its block then. -/
theorem does_block {u : Pg.UUID} (hp : Db.Placed row) (hrow : x.store.workflowState id = some row)
    (honly : OnlyOn x.store u id) (hdue : row.Due u.toString) (hvisible : ¬ row.BetweenActions)
    (hstate : row.currentActionState ≠ .running) (hready : Ready row (front row)) :
    ∃ ms, BlockDone x.store (run (step r) x ms).store id row.actionList u.toString (front row) ∧
      ∀ w, w ≠ u.toString → (run (step r) x ms).live w = x.live w := by
  obtain ⟨ms, j, hrun, hj, hctx, hlist, hindex, hph⟩ := reaches_job (r := r) hp hrow honly hdue hvisible hstate
  have hid : Pg.UUID.ofString? j.wfContext.workflowId = some id := by
    rw [hctx]
    exact Pg.UUID.ofString?_toString id
  obtain ⟨is, s', hsession, hdone⟩ := session_block ⟨u.toString, 1⟩ Nat.one_pos _ hp hrow hid hj hlist hph
    (by rw [hctx]; exact hstate) (by rw [hindex]; exact hready) le_rfl
  have hwork := run_work (r := r) (x := ⟨x.store, Function.update x.live u.toString
    (some { retries := 1, current := some j })⟩) (Function.update_self _ _ _) rfl is
  rw [hsession] at hwork
  refine ⟨ms ++ is.map (Move.work u.toString), ?_, ?_⟩
  · rw [run_append, hrun, hwork, ← hindex]
    exact hdone
  · intro w hw
    rw [run_append, hrun, hwork]
    simp only [Function.update_of_ne hw]

/-- A worker whose next action is its own as well gets to execute it. -/
theorem reaches_second {u : Pg.UUID} {a : WorkflowAction} (hp : Db.Placed row)
    (hrow : x.store.workflowState id = some row) (honly : OnlyOn x.store u id) (hdue : row.Due u.toString)
    (hvisible : ¬ row.BetweenActions) (hstate : row.currentActionState ≠ .running) (hready : Ready row (front row))
    (hget : row.actionList[(front row).toNat + 1]? = some a) (hown : a.workerId = u.toString) :
    ∃ ms p j, (run (step r) x ms).live u.toString = some p ∧ p.retries = 1 ∧ p.current = some j ∧ j.phase = .execute ∧
      Pg.UUID.ofString? j.wfContext.workflowId = some id ∧ j.actionIndex = front row + 1 := by
  obtain ⟨ms, j, hrun, hj, hctx, hlist, hindex, hph⟩ := reaches_job (r := r) hp hrow honly hdue hvisible hstate
  have hid : Pg.UUID.ofString? j.wfContext.workflowId = some id := by
    rw [hctx]
    exact Pg.UUID.ofString?_toString id
  have hctx' : j.wfContext.currentActionState ≠ .running := by
    rw [hctx]
    exact hstate
  obtain ⟨s₁, row₁, hsession, hrow₁, hlist₁, hp₁, hstands, -, -⟩ :=
    session_action hp hrow hid Nat.one_pos hj hlist hph (by rw [hindex]; exact hready)
  rcases hj.concluded_cases .success true with ⟨hne, -⟩ | ⟨-, -, -, hlast⟩ | ⟨-, -, b, j₁, hgetb, hnext, hplaced, rfl⟩
  · cases hne rfl
  · exact absurd ⟨a, by rw [hlist, hindex]; exact hget, hown⟩ hlast
  · rw [if_pos ⟨hctx', Nat.one_pos⟩] at hnext hplaced
    have hready₁ : Ready row₁ (j.actionIndex + 1) := Or.inr ⟨hstands.1, by rw [hstands.2]⟩
    have hgetb' : row₁.actionList[(j.actionIndex + 1).toNat]? = some b := by
      have hpos := hj.nonneg
      rw [hlist₁, ← hlist, show (j.actionIndex + 1).toNat = j.actionIndex.toNat + 1 by omega]
      exact hgetb
    have hadm := admits_announcement hp₁ hplaced (hlist.trans hlist₁.symm) hready₁
    have hrec := recordable_announcement (j := ⟨j.wfContext, j.actions, j.actionIndex + 1, b, .announce 1⟩) hp₁
      (List.mem_of_getElem? hgetb') hid
    have hann := step_announced ⟨u.toString, 1⟩ (j := ⟨j.wfContext, j.actions, j.actionIndex + 1, b, .announce 1⟩) rfl
      (deliver_of_admits hp₁ hrow₁ hid hadm hrec)
    have hwork := run_work (r := r) (x := ⟨x.store, Function.update x.live u.toString
      (some { retries := 1, current := some j })⟩) (Function.update_self _ _ _) rfl
      (([{}, {}, {}] : List Session.Input) ++ ([{}] : List Session.Input))
    rw [run_append, hsession, hnext, run_cons, run_nil, hann] at hwork
    refine ⟨ms ++ (([{}, {}, {}] : List Session.Input) ++ ([{}] : List Session.Input)).map (Move.work u.toString),
      { retries := 1, current := some ⟨j.wfContext, j.actions, j.actionIndex + 1, b, .execute⟩ },
      ⟨j.wfContext, j.actions, j.actionIndex + 1, b, .execute⟩, ?_, rfl, rfl, rfl, hid, ?_⟩
    · rw [run_append, hrun, hwork]
      exact Function.update_self _ _ _
    · show j.actionIndex + 1 = front row + 1
      rw [hindex]

end Tink.Fleet
