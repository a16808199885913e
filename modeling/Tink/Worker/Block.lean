import Tink.Db.Data
import Tink.Lib.Jsonb
import Tink.Worker.Data
import Tink.Worker.Job

/-!
# The block of actions a worker runs

The inner loop of `ProcessWorkflowActions` for a worker whose reports are all acknowledged.  A lap of the loop
executes one action and takes at most three answers from outside, unless `getWorkflowData` ends the process before it
(`lap`).  After a lap the worker is done, or it is at the next position, which is closer to the end of the list; so
the laps execute a block of consecutive actions, and the block ends at a failure, at the end of the list, in front of
an action of another worker, or where the process ends over the data (`executed_block`).
-/

namespace Tink.Worker

open Machine

/-- The position of the action that is executed in a step. -/
def executes (x : Outcome Empty Progress) (i : Input) : Option Int :=
  match x with
  | .ok (.job j) =>
    match j.phase with
    | .execute => if i.fetched then some j.actionIndex else none
    | _ => none
  | _ => none

/-- The positions executed during a run, each with what its container ended with. -/
def executed (cfg : Config) : Outcome Empty Progress → List Input → List (Int × Exit)
  | _, [] => []
  | x, i :: is => ((executes x i).map fun p => (p, i.exit)).toList ++ executed cfg (step cfg x i) is

/-- The step ends the process over the data of the workflow: `getWorkflowData` does not return before an execution, or
`updateWorkflowData` does not return after the report of a success. -/
def OverData (cfg : Config) (x : Outcome Empty Progress) (i : Input) : Prop :=
  match x with
  | .ok (.job j) =>
    match j.phase with
    | .announce _ => False
    | .execute => i.fetched = false ∨ (cfg.retries = 0 ∧ i.exit.status = .success ∧ i.updated = false)
    | .conclude actionStatus _ =>
      i.acknowledged = true ∧ actionStatus.actionStatus = .success ∧ i.updated = false
  | _ => False

/-- The loop is over. -/
def Ended (x : Outcome Empty Progress) : Prop := x = .ok .next ∨ x = .ok .exit

variable {cfg : Config} {c : WorkflowContext} {actions : List WorkflowAction} {j : Job} {is : List Input}
  {x : Outcome Empty Progress}

private theorem Ended.step (h : Ended x) (i : Input) : Worker.step cfg x i = x := by
  rcases h with rfl | rfl <;> rfl

private theorem Ended.run (h : Ended x) (is : List Input) : run (Worker.step cfg) x is = x := by
  induction is with
  | nil => rfl
  | cons i is ih => rw [run_cons, h.step, ih]

private theorem Ended.executed (h : Ended x) (is : List Input) : executed cfg x is = [] := by
  induction is with
  | nil => rfl
  | cons i is ih =>
    have hx : executes x i = none := by rcases h with rfl | rfl <;> rfl
    rw [Worker.executed, h.step, ih, hx]
    rfl

private theorem Ended.not_overData (h : Ended x) (is : List Input) :
    ¬ Once (Worker.step cfg) (OverData cfg) x is := by
  induction is with
  | nil => exact once_nil
  | cons i is ih =>
    rw [once_cons, h.step]
    rintro (hover | hover)
    · rcases h with rfl | rfl <;> exact hover
    · exact ih hover

/-- The beginning of a lap: the report that the action starts, or its execution. -/
def Job.Begins (cfg : Config) (j : Job) : Prop :=
  j.phase = (if j.wfContext.currentActionState ≠ .running ∧ 0 < cfg.retries then .announce cfg.retries else .execute)

/-- The end of the loop body does not depend on what was being done. -/
private theorem concluded_phase (cfg : Config) (j : Job) (ph : Phase) (status : State) (updated : Bool) :
    Job.concluded cfg { j with phase := ph } status updated = j.concluded cfg status updated := rfl

/-- What a lap comes to: the process ends over the data before the action is executed; or it is executed, and the rest
of the run is one from the end of the loop body. -/
inductive LapEnds (cfg : Config) (j : Job) (is rest : List Input) : Prop where
  | unfetched (hover : Once (step cfg) (OverData cfg) (.ok (.job j)) is)
      (hrun : run (step cfg) (.ok (.job j)) is = .ok .exit) (hexec : executed cfg (.ok (.job j)) is = [])
  | executed (e : Exit) (updated : Bool)
      (hover : Once (step cfg) (OverData cfg) (.ok (.job j)) is ↔ (e.status = .success ∧ updated = false) ∨
        Once (step cfg) (OverData cfg) (j.concluded cfg e.status updated) rest)
      (hrun : run (step cfg) (.ok (.job j)) is = run (step cfg) (j.concluded cfg e.status updated) rest)
      (hexec : executed cfg (.ok (.job j)) is =
        (j.actionIndex, e) :: executed cfg (j.concluded cfg e.status updated) rest)

/-- The data, an execution, and the report of its result, which is acknowledged. -/
private theorem lap_execute (cfg : Config) (hphase : j.phase = .execute)
    (hack : ∀ i ∈ is, i.acknowledged = true) (hlen : 2 ≤ is.length) :
    ∃ rest, is.length ≤ rest.length + 2 ∧ (∀ i ∈ rest, i ∈ is) ∧ LapEnds cfg j is rest := by
  obtain ⟨i, k, rest, rfl⟩ : ∃ i k rest, is = i :: k :: rest := by
    match is, hlen with
    | i :: k :: rest, _ => exact ⟨i, k, rest, rfl⟩
  cases hf : i.fetched with
  | false =>
    have h1 : step cfg (.ok (.job j)) i = .ok .exit := by simp [step, Job.step, hphase, hf]
    have hexit : Ended (.ok .exit) := .inr rfl
    refine ⟨rest, by simp, by simp +contextual, .unfetched (once_cons.2 (.inl ?_)) ?_ ?_⟩
    · simp [OverData, hphase, hf]
    · rw [run_cons, h1, hexit.run]
    · rw [executed, h1, hexit.executed]
      simp [executes, hphase, hf]
  | true =>
    have hexecutes : executes (.ok (.job j)) i = some j.actionIndex := by simp [executes, hphase, hf]
    by_cases hr : 0 < cfg.retries
    · -- the result is reported, and the next answer acknowledges it
      have h1 : step cfg (.ok (.job j)) i =
          .ok (.job { j with phase := .conclude (j.conclusion i.exit) cfg.retries }) := by
        simp [step, Job.step, hphase, hr, hf]
      have h2 : step cfg (.ok (.job { j with phase := .conclude (j.conclusion i.exit) cfg.retries })) k =
          j.concluded cfg i.exit.status k.updated := by
        simp only [step, Job.step, hack k (by simp), if_true]
        exact concluded_phase cfg j _ _ _
      refine ⟨rest, by simp, by simp +contextual, .executed i.exit k.updated ?_ ?_ ?_⟩
      · rw [once_cons, once_cons, h1, h2, ← or_assoc]
        refine or_congr_left ?_
        simp only [OverData, hphase, hf, hack k (by simp), Job.conclusion, true_and, reduceCtorEq, false_or]
        exact or_iff_right fun h => hr.ne' h.1
      · rw [run_cons, run_cons, h1, h2]
      · rw [executed, executed, h1, h2, hexecutes]
        rfl
    · have h1 : step cfg (.ok (.job j)) i = j.concluded cfg i.exit.status i.updated := by
        simp [step, Job.step, hphase, hr, hf]
      have hzero : cfg.retries = 0 := by omega
      refine ⟨k :: rest, by simp, by simp +contextual, .executed i.exit i.updated ?_ ?_ ?_⟩
      · rw [once_cons, h1]
        simp only [OverData, hphase, hf, hzero, true_and, reduceCtorEq, false_or]
      · rw [run_cons, h1]
      · rw [executed, h1, hexecutes]
        rfl

/-- One lap of the loop. -/
private theorem lap (hb : j.Begins cfg) (hack : ∀ i ∈ is, i.acknowledged = true) (hlen : 3 ≤ is.length) :
    ∃ rest, is.length ≤ rest.length + 3 ∧ (∀ i ∈ rest, i ∈ is) ∧ LapEnds cfg j is rest := by
  unfold Job.Begins at hb
  split at hb
  · obtain ⟨i, is', rfl⟩ := List.exists_cons_of_length_pos (show 0 < is.length by omega)
    have h1 : step cfg (.ok (.job j)) i = .ok (.job { j with phase := .execute }) := by
      simp [step, Job.step, hb, hack i (by simp)]
    have hexecutes : executes (.ok (.job j)) i = none := by simp [executes, hb]
    have hnot : ¬ OverData cfg (.ok (.job j)) i := by simp [OverData, hb]
    have hlen' : 2 ≤ is'.length := by simpa using hlen
    obtain ⟨rest, hle, hmem, hends⟩ := lap_execute (j := { j with phase := .execute }) cfg rfl
      (fun i hi => hack i (List.mem_cons_of_mem _ hi)) hlen'
    refine ⟨rest, by simp only [List.length_cons]; omega, fun i hi => List.mem_cons_of_mem _ (hmem i hi), ?_⟩
    -- the announcement is no execution and does not end the process
    have hexec : executed cfg (.ok (.job j)) (i :: is') =
        executed cfg (.ok (.job { j with phase := .execute })) is' := by
      rw [executed, h1, hexecutes]
      rfl
    have hover : Once (step cfg) (OverData cfg) (.ok (.job j)) (i :: is') ↔
        Once (step cfg) (OverData cfg) (.ok (.job { j with phase := .execute })) is' := by
      rw [once_cons, h1, or_iff_right hnot]
    cases hends with
    | unfetched ho hr he =>
      exact .unfetched (hover.2 ho) (by rw [run_cons, h1, hr]) (by rw [hexec, he])
    | executed e updated ho hr he =>
      rw [concluded_phase] at ho hr he
      exact .executed e updated (hover.trans ho) (by rw [run_cons, h1, hr]) (by rw [hexec, he])
  · obtain ⟨rest, hle, hrest⟩ := lap_execute cfg hb hack (by omega)
    exact ⟨rest, by omega, hrest⟩

/-- The block of the positions from `s` up to, and without, `e` in an action list, with the results of its actions. -/
structure Block (cfg : Config) (actions : List WorkflowAction) (s e : Nat) (outcome : Nat → Exit) : Prop where
  start_le : s ≤ e
  le_length : e ≤ actions.length
  worker : ∀ p, s ≤ p → p < e → ∃ a, actions[p]? = some a ∧ a.workerId = cfg.workerID
  succeeded : ∀ p, s ≤ p → p + 1 < e → (outcome p).status = .success

/-- How the loop is over after a block: over the data, with all of the block successful; or not so, after a failure,
at the end of the list or in front of an action of another worker. -/
inductive Ends (cfg : Config) (actions : List WorkflowAction) (s e : Nat) (outcome : Nat → Exit) (overData : Prop) :
    Progress → Prop where
  | data (hover : overData) (hall : ∀ p, s ≤ p → p < e → (outcome p).status = .success) :
      Ends cfg actions s e outcome overData .exit
  | failed (hover : ¬ overData) (hlt : s < e) (hne : (outcome (e - 1)).status ≠ .success) :
      Ends cfg actions s e outcome overData .exit
  | done (hover : ¬ overData) (hlt : s < e) (hs : (outcome (e - 1)).status = .success)
      (hstop : e = actions.length ∨ ∃ a, actions[e]? = some a ∧ a.workerId ≠ cfg.workerID) :
      Ends cfg actions s e outcome overData .next

/-- The executions of a block, in order. -/
def executions (s e : Nat) (outcome : Nat → Exit) : List (Int × Exit) :=
  (List.range' s (e - s)).map fun p : Nat => ((p : Int), outcome p)

private theorem executions_self (s : Nat) (outcome : Nat → Exit) : executions s s outcome = [] := by
  simp [executions]

private theorem executions_cons {s e : Nat} (h : s < e) (outcome : Nat → Exit) :
    executions s e outcome = ((s : Int), outcome s) :: executions (s + 1) e outcome := by
  have hlen : e - s = (e - (s + 1)) + 1 := by omega
  rw [executions, hlen, List.range'_succ, List.map_cons]
  rfl

private theorem executions_congr {s e : Nat} {f g : Nat → Exit} (h : ∀ p, s ≤ p → f p = g p) :
    executions s e f = executions s e g := by
  refine List.map_congr_left fun p hp => ?_
  rw [h p (List.mem_range'_1.1 hp).1]

/-- The block of one action. -/
private theorem Block.single {s : Nat} {a : WorkflowAction} (hget : actions[s]? = some a)
    (hw : a.workerId = cfg.workerID) (e : Exit) : Block cfg actions s (s + 1) fun _ => e := by
  have hlt := (List.getElem?_eq_some_iff.1 hget).1
  refine ⟨by omega, by omega, fun p hp hpe => ?_, fun p hp hpe => by omega⟩
  obtain rfl : p = s := by omega
  exact ⟨a, hget, hw⟩

section

variable {s e : Nat} {outcome : Nat → Exit} {a : WorkflowAction} {y : Exit}

/-- A block with one more action in front, which has succeeded. -/
private theorem Block.extend (h : Block cfg actions (s + 1) e outcome) (hget : actions[s]? = some a)
    (hw : a.workerId = cfg.workerID) (hy : y.status = .success) :
    Block cfg actions s e (Function.update outcome s y) := by
  have hlt := h.start_le
  refine ⟨by omega, h.le_length, fun p hp hpe => ?_, fun p hp hpe => ?_⟩
  · rcases Nat.eq_or_lt_of_le hp with rfl | hp
    · exact ⟨a, hget, hw⟩
    · exact h.worker p hp hpe
  · rcases Nat.eq_or_lt_of_le hp with rfl | hp
    · rw [Function.update_self]
      exact hy
    · rw [Function.update_of_ne (by omega)]
      exact h.succeeded p hp hpe

private theorem Ends.extend {overData overData' : Prop} {p : Progress}
    (h : Ends cfg actions (s + 1) e outcome overData p) (hover : overData' ↔ overData) (hy : y.status = .success) :
    Ends cfg actions s e (Function.update outcome s y) overData' p := by
  have hlast : s + 1 < e → Function.update outcome s y (e - 1) = outcome (e - 1) :=
    fun hlt => Function.update_of_ne (by omega) ..
  cases h with
  | data ho hall =>
    refine .data (hover.2 ho) fun p hp hpe => ?_
    rcases Nat.eq_or_lt_of_le hp with rfl | hp
    · rw [Function.update_self]
      exact hy
    · rw [Function.update_of_ne (by omega)]
      exact hall p hp hpe
  | failed ho hlt hne => exact .failed (fun h => ho (hover.1 h)) (by omega) (by rw [hlast hlt]; exact hne)
  | done ho hlt hs hstop => exact .done (fun h => ho (hover.1 h)) (by omega) (by rw [hlast hlt]; exact hs) hstop

end

/-- From the beginning of a lap at position `s`, with as many answers as the rest of the list can take. -/
private theorem block_of_job (m : Nat) (hj : j.Placed cfg) (hb : j.Begins cfg)
    (hm : j.actions.length - j.actionIndex.toNat = m) (hack : ∀ i ∈ is, i.acknowledged = true)
    (hlen : 3 * m ≤ is.length) :
    ∃ e outcome p, Block cfg j.actions j.actionIndex.toNat e outcome ∧
      executed cfg (.ok (.job j)) is = executions j.actionIndex.toNat e outcome ∧
      Ends cfg j.actions j.actionIndex.toNat e outcome (Once (step cfg) (OverData cfg) (.ok (.job j)) is) p ∧
      run (step cfg) (.ok (.job j)) is = .ok p := by
  -- on the number of actions from the position on
  induction m generalizing j is with
  | zero =>
    have := (List.getElem?_eq_some_iff.1 hj.get).1
    omega
  | succ m ih =>
    have hlt := (List.getElem?_eq_some_iff.1 hj.get).1
    have hcast : ((j.actionIndex.toNat : Nat) : Int) = j.actionIndex := Int.toNat_of_nonneg hj.nonneg
    obtain ⟨rest, hle, hmem, hlap⟩ := lap hb hack (by omega)
    cases hlap with
    | unfetched hover hrun hexec =>
      refine ⟨j.actionIndex.toNat, fun _ => {}, .exit, ⟨le_rfl, by omega, ?_, ?_⟩, ?_, .data hover ?_, hrun⟩
      · intro p hp hpe; omega
      · intro p hp hpe; omega
      · rw [hexec, executions_self]
      · intro p hp hpe; omega
    | executed y updated hover hrun hexec =>
      -- if the loop ends here, the block is this position alone
      have hone : ∀ p : Progress, Ended (.ok p) → j.concluded cfg y.status updated = .ok p →
          executed cfg (.ok (.job j)) is = executions j.actionIndex.toNat (j.actionIndex.toNat + 1) (fun _ => y) ∧
            run (step cfg) (.ok (.job j)) is = .ok p ∧
            (Once (step cfg) (OverData cfg) (.ok (.job j)) is ↔ y.status = .success ∧ updated = false) := by
        intro p hp he
        rw [hover, hrun, hexec, he, hp.run, hp.executed, executions_cons (by omega), executions_self, hcast]
        exact ⟨rfl, rfl, or_iff_left (hp.not_overData rest)⟩
      have hblock := Block.single hj.get hj.worker y
      rcases hj.concluded_cases y.status updated with
        ⟨hend, he⟩ | ⟨hs, hupdated, he, hnone⟩ | ⟨hs, hupdated, a, j', hget, he, hj', rfl⟩
      · obtain ⟨h1, h2, h3⟩ := hone .exit (.inr rfl) he
        refine ⟨_, _, .exit, hblock, h1, ?_, h2⟩
        by_cases hs : y.status = .success
        · exact .data (h3.2 ⟨hs, hend hs⟩) fun _ _ _ => hs
        · exact .failed (fun ho => hs (h3.1 ho).1) (by omega) hs
      · obtain ⟨h1, h2, h3⟩ := hone .next (.inl rfl) he
        refine ⟨_, _, .next, hblock, h1, .done (fun ho => ?_) (by omega) hs ?_, h2⟩
        · rw [hupdated] at h3
          cases (h3.1 ho).2
        · by_cases hlast : j.actionIndex.toNat + 1 = j.actions.length
          · exact .inl hlast
          · have hnext : j.actionIndex.toNat + 1 < j.actions.length := by omega
            exact .inr ⟨_, List.getElem?_eq_getElem hnext,
              fun hw => hnone ⟨_, List.getElem?_eq_getElem hnext, hw⟩⟩
      · have hnat : (j.actionIndex + 1).toNat = j.actionIndex.toNat + 1 := by have := hj.nonneg; omega
        have hm' : j.actions.length - (j.actionIndex + 1).toNat = m := by omega
        obtain ⟨e, outcome, p, hblock', hexec', hends, hrun'⟩ :=
          ih hj' rfl hm' (fun i hi => hack i (hmem i hi)) (by omega)
        simp only [hnat] at hblock' hexec' hends
        have hlt' := hblock'.start_le
        have hover' : Once (step cfg) (OverData cfg) (.ok (.job j)) is ↔
            Once (step cfg) (OverData cfg) (j.concluded cfg y.status updated) rest := by
          rw [hover, hupdated]
          exact or_iff_right fun h => by cases h.2
        rw [he] at hover'
        have hne : ∀ p, j.actionIndex.toNat + 1 ≤ p → outcome p = Function.update outcome j.actionIndex.toNat y p :=
          fun p hp => (Function.update_of_ne (by omega) ..).symm
        refine ⟨e, _, p, hblock'.extend hj.get hj.worker hs, ?_, hends.extend hover' hs, ?_⟩
        · have hlt : j.actionIndex.toNat < e := hlt'
          rw [hexec, he, hexec', executions_congr hne, executions_cons hlt, Function.update_self, hcast]
        · rw [hrun, he, hrun']

/-- A worker whose turn it is at position `s` and whose reports are all acknowledged runs a block of actions that
begins there, each once and in order, and then the loop is over: three answers for every action from `s` on are
enough.  The block ends with the first action that does not succeed, with the last of the list or in front of an
action of another worker, or the process ends over the data of the workflow. -/
theorem executed_block (cfg : Config) (c : WorkflowContext) (actions : List WorkflowAction) (s : Nat)
    (hturn : turn cfg.workerID c actions = .ok (some (s : Int))) (is : List Input)
    (hack : ∀ i ∈ is, i.acknowledged = true) (hlen : 3 * (actions.length - s) ≤ is.length) :
    ∃ e outcome p, Block cfg actions s e outcome ∧
      executed cfg (processContext cfg c actions) is = executions s e outcome ∧
      Ends cfg actions s e outcome (Once (step cfg) (OverData cfg) (processContext cfg c actions) is) p ∧
      run (step cfg) (processContext cfg c actions) is = .ok p := by
  obtain ⟨a, j, hj, hplaced, rfl⟩ := processContext_of_turn hturn
  rw [hj]
  exact block_of_job (actions.length - s) hplaced rfl rfl hack hlen

/-- The first two of three actions are the worker's, and it gets through both; with a data file that cannot be sent
after the first one, it is that one only. -/
theorem executed_block_two_of_three :
    let action : String → String → WorkflowAction := fun name workerId => { taskName := "os", name, workerId }
    let actions := [action "wipe" "m1", action "stream" "m1", action "boot" "m2"]
    let start := processContext ⟨"m1", 1⟩ { workflowId := "w" } actions
    let runsBlock : List Input → Prop := fun is =>
      ∃ e outcome p, Block ⟨"m1", 1⟩ actions 0 e outcome ∧ executed ⟨"m1", 1⟩ start is = executions 0 e outcome ∧
        Ends ⟨"m1", 1⟩ actions 0 e outcome (Once (step ⟨"m1", 1⟩) (OverData ⟨"m1", 1⟩) start is) p ∧
        run (step ⟨"m1", 1⟩) start is = .ok p
    runsBlock (List.replicate 9 {}) ∧ runsBlock [{}, {}, { updated := false }, {}, {}, {}, {}, {}, {}] := by
  intro action actions start runsBlock
  constructor
  · exact executed_block ⟨"m1", 1⟩ { workflowId := "w" } actions 0 rfl _ (by decide) le_rfl
  · exact executed_block ⟨"m1", 1⟩ { workflowId := "w" } actions 0 rfl _ (by decide) le_rfl

/-- A data file that `json.Unmarshal` accepts and a column of type jsonb does not: an escape for the character 0. -/
def nulFile : String := "\x7b\"key\":\"\\u0000\"\x7d"

/-- Both actions are the worker's.  The first one leaves that file, which the server refuses, and succeeds: the
process ends over the data, and the second one is not executed. -/
theorem refused_data_ends_loop :
    let workflowId := "018f6b2e-0000-7000-8000-000000000001"
    let action : String → WorkflowAction := fun name => { taskName := "os", name, workerId := "m1" }
    let actions := [action "wipe", action "stream"]
    let success : WorkflowActionStatus :=
      { workflowId, taskName := "os", actionName := "wipe", actionStatus := .success, workerId := "m1" }
    let jsonb : String → Except String String := fun t =>
      if (Json.Jsonb.ofText t).isSome then .ok t else .error "pq: unsupported Unicode escape sequence"
    ∃ e, Db.updateWorkflowData jsonb 5 {} [] ⟨workflowId, "\x7b\x7d", nulFile⟩ = .error e ∧
      (let file : Bytes := nulFile.toList.map fun c => UInt8.ofNat c.toNat
       let update := updateWorkflowData ⟨1000, fun _ => true⟩ { sendErr := some e.message }
         ⟨fun _ => some file, fun _ => none⟩
         success
       let is : List Input := [{}, {}, { updated := !update.exited }, {}, {}, {}]
       let start := processContext ⟨"m1", 1⟩ { workflowId } actions
       update.request.map UpdateWorkflowDataRequest.data = some file ∧
         executed ⟨"m1", 1⟩ start is = [(0, {})] ∧ ({} : Exit).status = .success ∧
         run (step ⟨"m1", 1⟩) start is = .ok .exit) := by
  intro workflowId action actions success jsonb
  have hinsert : Db.insertIntoWfDataTable jsonb 5 {} [] ⟨workflowId, "\x7b\x7d", nulFile⟩ =
      .error "INSERT Into workflow_data: pq: unsupported Unicode escape sequence" := by decide +kernel
  have hrefused : Db.updateWorkflowData jsonb 5 {} [] ⟨workflowId, "\x7b\x7d", nulFile⟩ =
      .error ⟨.aborted, "INSERT Into workflow_data: pq: unsupported Unicode escape sequence"⟩ := by
    rw [Db.updateWorkflowData, if_neg (by decide), hinsert]
    dsimp only
    rw [Db.abortedStatus, GoFormat.sprintf_of_not_mem (by decide)]
  exact ⟨_, hrefused, rfl, rfl, rfl, rfl⟩

end Tink.Worker
