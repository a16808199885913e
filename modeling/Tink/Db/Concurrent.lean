import Tink.Db.Index
import Tink.Lib.Race

/-!
# Two reports at a time

`ReportActionStatus` makes four queries: it reads the context, reads the action list, updates the state row and
records the event, each in a transaction of its own.  Here two calls about one workflow take these steps in any order;
they may be served by two processes, so a panic ends one call only.

A call alone is the handler of `Tink.Db.Server` (`call_alone`).  Two calls are two clients of the state row
(`sim_run`): each reads the row, and stores what it makes of the row it has read.  If both have read before either has
stored, the second update writes over the first.  That is the outcome of no order exactly if the two reports clash
(`serialisable_iff_no_clash`).
-/

namespace Tink.Db

open Pg Machine Race

/-! ### The steps of a call -/

/-- The checks and the first query. -/
def readContext (report : Report) (s : Store) : Outcome GrpcStatus WorkflowContext := do
  checkRequest report.2
  aborted (getWorkflowContexts report.1.contextsErr s report.2.workflowId)

/-- The second query, and the decision. -/
def decideContext (report : Report) (s : Store) (c : WorkflowContext) : Outcome GrpcStatus WorkflowContext := do
  let wfActions ← aborted (getWorkflowActions report.1.actionsErr s report.2.workflowId)
  reportContext c wfActions report.2

/-- The update. -/
def storeContext (report : Report) (s : Store) (c : WorkflowContext) : Outcome GrpcStatus Store :=
  aborted (updateWorkflowState report.1.updateErr s c)

/-- How far a call of `ReportActionStatus` is. -/
inductive Call where
  | start
  | gotContext (c : WorkflowContext)
  | decided (c : WorkflowContext)
  | updated
  | done (answer : Outcome GrpcStatus Unit)

/-- Go on with a value; an error or a panic ends the call. -/
def Call.proceed (next : WorkflowContext → Call) : Outcome GrpcStatus WorkflowContext → Call
  | .ok c => next c
  | .error e => .done (.error e)
  | .panic => .done .panic

/-- One step of a call: the tables afterwards, and where the call is then. -/
def Call.next (report : Report) (s : Store) : Call → Store × Call
  | .start => (s, .proceed .gotContext (readContext report s))
  | .gotContext c => (s, .proceed .decided (decideContext report s c))
  | .decided c =>
    match storeContext report s c with
    | .ok s' => (s', .updated)
    | .error e => (s, .done (.error e))
    | .panic => (s, .done .panic)
  | .updated =>
    match insertIntoWorkflowEventTable report.1.eventErr s report.2 with
    | .error e => (s, .done (.error ⟨.aborted, e⟩))
    | .ok s' => (s', .done (.ok ()))
  | .done a => (s, .done a)

/-- The tables and two calls in progress. -/
structure Pair where
  store : Store
  call : Who → Call

def Pair.init (s : Store) : Pair where
  store := s
  call _ := .start

/-- Call `w` takes a step. -/
def Pair.step (reports : Who → Report) (p : Pair) (w : Who) : Pair where
  store := ((p.call w).next (reports w) p.store).1
  call := Function.update p.call w ((p.call w).next (reports w) p.store).2

variable {reports : Who → Report} {report : Report} {id : UUID} {s s' : Store} {row v x : StateRow}
    {w : Who} {p : Pair}
  {c : WorkflowContext}

/-- The three steps up to the update. -/
private theorem reportUpdate_eq_steps (report : Report) (s : Store) :
    reportUpdate report.1 s report.2 =
      (readContext report s >>= decideContext report s) >>= storeContext report s := by
  unfold reportUpdate readContext decideContext
  cases checkRequest report.2 with
  | panic => rfl
  | error e => rfl
  | ok u =>
    cases aborted (getWorkflowContexts report.1.contextsErr s report.2.workflowId) with
    | panic => rfl
    | error e => rfl
    | ok c => cases aborted (getWorkflowActions report.1.actionsErr s report.2.workflowId) <;> rfl

/-- A call whose four steps are not interrupted is the handler. -/
theorem call_alone (hstart : p.call w = .start) :
    (run (Pair.step reports) p [w, w, w, w]).store = (reportActionStatus (reports w).1 p.store (reports w).2).1 ∧
      (run (Pair.step reports) p [w, w, w, w]).call w =
        .done (reportActionStatus (reports w).1 p.store (reports w).2).2 := by
  simp only [run_cons, run_nil, Pair.step, Function.update_self, hstart, Call.next]
  unfold reportActionStatus
  rw [reportUpdate_eq_steps]
  cases hread : readContext (reports w) p.store with
  | panic => exact ⟨rfl, rfl⟩
  | error e => exact ⟨rfl, rfl⟩
  | ok c =>
    simp only [Call.proceed, Outcome.ok_bind]
    cases hdec : decideContext (reports w) p.store c with
    | panic => exact ⟨rfl, rfl⟩
    | error e => exact ⟨rfl, rfl⟩
    | ok c' =>
      simp only [Outcome.ok_bind]
      cases hst : storeContext (reports w) p.store c' with
      | panic => exact ⟨rfl, rfl⟩
      | error e => exact ⟨rfl, rfl⟩
      | ok s' => cases hev : insertIntoWorkflowEventTable (reports w).1.eventErr s' (reports w).2 <;> simp [hev]

/-! ### Two clients of the row -/

open Classical in
/-- What the call `w` stores if it has read the row `v`. -/
noncomputable def storedRow (reports : Who → Report) (w : Who) (v : StateRow) : Option StateRow :=
  if Admits (reports w).1 v (reports w).2 then some (v.after (reports w).2) else none

/-- A row of the same workflow. -/
structure Peer (row v : StateRow) : Prop where
  placed : Placed v
  list : v.actionList = row.actionList
  total : v.totalNumberOfActions = row.totalNumberOfActions

private theorem storedRow_of_admits (h : Admits (reports w).1 v (reports w).2) :
    storedRow reports w v = some (v.after (reports w).2) := if_pos h

private theorem storedRow_of_not_admits (h : ¬ Admits (reports w).1 v (reports w).2) :
    storedRow reports w v = none := if_neg h

private theorem Peer.storedRow (hv : Peer row v) (hx : Peer row x) (w : Who) :
    Peer row ((storedRow reports w v).getD x) := by
  by_cases h : Admits (reports w).1 v (reports w).2
  · rw [storedRow_of_admits h, Option.getD_some]
    exact ⟨hv.placed.after h, hv.list, hv.total⟩
  · rw [storedRow_of_not_admits h, Option.getD_none]
    exact hx

/-- The call is where the client is. -/
def Matches (report : Report) (id : UUID) : Stage StateRow → Call → Prop
  | .fresh, call => call = .start
  | .viewed v, call =>
    ∃ s, s.workflowState id = some v ∧ call = .proceed .gotContext (readContext report s)
  | .decided v, call =>
    ∃ s, s.workflowState id = some v ∧ call = .proceed .decided (readContext report s >>= decideContext report s)
  | .stored v, call =>
    (Admits report.1 v report.2 →
      call = .updated ∨ ∃ a, call = .done a ∧ (a = .ok () ↔ Recordable report.1 report.2)) ∧
    (¬ Admits report.1 v report.2 → ∃ a, call = .done a ∧ a ≠ .ok ())

/-- The decision depends on the row through the action list only. -/
private theorem decideContext_congr (hid : UUID.ofString? report.2.workflowId = some id)
    (hs : s.workflowState id = some x) (hs' : s'.workflowState id = some v) (hlist : x.actionList = v.actionList)
    (c : WorkflowContext) : decideContext report s c = decideContext report s' c := by
  unfold decideContext
  rw [getWorkflowActions_eq hid hs, getWorkflowActions_eq hid hs', hlist]

/-- The update writes the columns of the context over those of any row of the workflow. -/
private theorem storeContext_transfer (hid : UUID.ofString? c.workflowId = some id) (hs : s.workflowState id = some x)
    (hs' : s'.workflowState id = some v) (hlist : x.actionList = v.actionList)
    (htotal : x.totalNumberOfActions = v.totalNumberOfActions) {t' : Store} (h : storeContext report s' c = .ok t') :
    ∃ t, storeContext report s c = .ok t ∧ t.workflowState id = t'.workflowState id := by
  unfold storeContext at h ⊢
  obtain ⟨hup, hst, hix, id', task, name, worker, hid', ht, hn, hw, rfl⟩ :=
    updateWorkflowState_eq_ok.1 (aborted_eq_ok.1 h)
  rw [hid] at hid'
  cases hid'
  refine ⟨_, aborted_eq_ok.2
    (updateWorkflowState_eq_ok.2 ⟨hup, hst, hix, id, task, name, worker, hid, ht, hn, hw, rfl⟩), ?_⟩
  simp only [Function.update_self, hs, hs', Option.map_some, hlist, htotal]

/-- The context decided on is about the workflow of the request. -/
private theorem workflowId_of_decided (h : (readContext report s >>= decideContext report s) = .ok c) :
    c.workflowId = report.2.workflowId := by
  obtain ⟨c₀, hread, hdec⟩ := Outcome.bind_eq_ok.1 h
  obtain ⟨-, -, hctx⟩ := Outcome.bind_eq_ok.1 hread
  obtain ⟨-, _, row, -, -, rfl⟩ := getWorkflowContexts_eq_ok.1 (aborted_eq_ok.1 hctx)
  obtain ⟨_, -, hrep⟩ := Outcome.bind_eq_ok.1 hdec
  obtain ⟨-, _, -, -, -, -, rfl⟩ := reportContext_eq_ok.1 hrep
  rfl

/-- The third step: what the handler would have stored in the row it has read is stored in the row there is. -/
private theorem Matches.store (hid : UUID.ofString? report.2.workflowId = some id) (hv : Peer row v) (hx : Peer row x)
    (hrow : s.workflowState id = some x) {call : Call} (h : Matches report id (.decided v) call) :
    (Admits report.1 v report.2 → (call.next report s).1.workflowState id = some (v.after report.2) ∧
        (call.next report s).2 = .updated) ∧
      (¬ Admits report.1 v report.2 → (call.next report s).1.workflowState id = some x ∧
        ∃ a, (call.next report s).2 = .done a ∧ a ≠ .ok ()) := by
  obtain ⟨s', hs', rfl⟩ := h
  have hup : (∃ t, reportUpdate report.1 s' report.2 = .ok t) ↔ Admits report.1 v report.2 :=
    hv.placed.updates_iff hid hs'
  rw [reportUpdate_eq_steps] at hup
  cases hdec : (readContext report s' >>= decideContext report s') with
  | panic =>
    have hnot : ¬ Admits report.1 v report.2 := by rw [← hup, hdec]; simp
    exact ⟨fun h => absurd h hnot, fun _ => ⟨hrow, _, rfl, by simp⟩⟩
  | error e =>
    have hnot : ¬ Admits report.1 v report.2 := by rw [← hup, hdec]; simp
    exact ⟨fun h => absurd h hnot, fun _ => ⟨hrow, _, rfl, by simp⟩⟩
  | ok c =>
    have hcid : UUID.ofString? c.workflowId = some id := by rw [workflowId_of_decided hdec]; exact hid
    rw [hdec, Outcome.ok_bind] at hup
    have hlist : x.actionList = v.actionList := hx.list.trans hv.list.symm
    have htotal : x.totalNumberOfActions = v.totalNumberOfActions := hx.total.trans hv.total.symm
    constructor
    · intro hadm
      have hu := hv.placed.reportUpdate_eq hid hs' hadm
      rw [reportUpdate_eq_steps, hdec, Outcome.ok_bind] at hu
      obtain ⟨t, ht, hrow'⟩ := storeContext_transfer hcid hrow hs' hlist htotal hu
      simp only [Call.proceed, Call.next, ht, hrow', Function.update_self, and_self]
    · intro hnot
      cases hst : storeContext report s c with
      | panic => simp only [Call.proceed, Call.next, hst]; exact ⟨hrow, _, rfl, by simp⟩
      | error e => simp only [Call.proceed, Call.next, hst]; exact ⟨hrow, _, rfl, by simp⟩
      | ok t =>
        obtain ⟨t', ht', -⟩ := storeContext_transfer hcid hs' hrow hlist.symm htotal.symm hst
        exact absurd (hup.1 ⟨t', ht'⟩) hnot

/-- The fourth step: the event is recorded, or the call fails. -/
private theorem next_updated (report : Report) (s : Store) :
    (Call.next report s .updated).1.workflowState = s.workflowState ∧
      ∃ a, (Call.next report s .updated).2 = .done a ∧ (a = .ok () ↔ Recordable report.1 report.2) := by
  unfold Call.next Recordable insertIntoWorkflowEventTable
  cases report.1.eventErr with
  | some msg => exact ⟨rfl, _, rfl, by simp⟩
  | none =>
    cases hc : eventColumns report.2 with
    | error e => exact ⟨rfl, _, rfl, by simp⟩
    | ok e => exact ⟨rfl, _, rfl, by simp⟩

/-- The value a client has read. -/
def views {R : Type} : Stage R → Option R
  | .fresh => none
  | .viewed v | .decided v | .stored v => some v

/-- The two calls are two clients of the row. -/
structure Sim (reports : Who → Report) (id : UUID) (row : StateRow) (is : List Who) (sys : Sys StateRow) (p : Pair) :
    Prop where
  row_eq : p.store.workflowState id = some sys.value
  value : Peer row sys.value
  views : ∀ w, ∀ v ∈ views (sys.stage w), Peer row v
  call : ∀ w, Matches (reports w) id (sys.stage w) (p.call w)
  done : ∀ w, 4 ≤ is.count w → ∃ a, p.call w = .done a

section

variable {is : List Who} {sys : Sys StateRow}

/-- A step in which client `w` comes to the stage `st`, and the row becomes `x`. -/
private theorem Sim.update (hsim : Sim reports id row is sys p) {st : Stage StateRow} (hx : Peer row x)
    (hst : ∀ v ∈ Db.views st, Peer row v) (hrow : (Pair.step reports p w).store.workflowState id = some x)
    (hcall : Matches (reports w) id st ((p.call w).next (reports w) p.store).2)
    (hdone : 3 ≤ is.count w → ∃ a, ((p.call w).next (reports w) p.store).2 = .done a) :
    Sim reports id row (is ++ [w]) { value := x, stage := Function.update sys.stage w st }
      (Pair.step reports p w) := by
  have hne := Who.other_ne w
  refine ⟨hrow, hx, (Who.forall_iff w).2 ⟨?_, ?_⟩, (Who.forall_iff w).2 ⟨?_, ?_⟩, (Who.forall_iff w).2 ⟨?_, ?_⟩⟩
  · simp only [Function.update_self]; exact hst
  · simp only [Function.update_of_ne hne]; exact hsim.views w.other
  · simp only [Pair.step, Function.update_self]; exact hcall
  · simp only [Pair.step, Function.update_of_ne hne]; exact hsim.call w.other
  · intro h4
    rw [List.count_append, List.count_singleton_self] at h4
    simp only [Pair.step, Function.update_self]
    exact hdone (by omega)
  · intro h4
    rw [List.count_append, List.count_singleton, if_neg (by simpa using hne.symm), Nat.add_zero] at h4
    simp only [Pair.step, Function.update_of_ne hne]
    exact hsim.done w.other h4

private theorem Sim.step (hsim : Sim reports id row is sys p)
    (hid : UUID.ofString? (reports w).2.workflowId = some id)
    {v₀ : StateRow} (hcount : sys.stage w = stageAt (is.count w) v₀) :
    Sim reports id row (is ++ [w]) (Race.step (storedRow reports) sys w) (Pair.step reports p w) := by
  have hcall := hsim.call w
  have hviews := hsim.views w
  have hlt : (∀ u, sys.stage w ≠ .stored u) → is.count w < 3 := by
    rw [hcount]
    exact lt_three_of_not_stored
  unfold Race.step
  cases hst : sys.stage w with
  | fresh =>
    rw [hst] at hcall hlt
    have hcall : p.call w = .start := hcall
    refine hsim.update hsim.value ?_ ?_ ?_ fun h3 => ?_
    · intro v hv
      cases hv
      exact hsim.value
    · simp only [Pair.step, hcall, Call.next]
      exact hsim.row_eq
    · rw [hcall]
      exact ⟨p.store, hsim.row_eq, rfl⟩
    · have := hlt (by simp)
      omega
  | viewed v =>
    rw [hst] at hcall hviews hlt
    obtain ⟨s', hs', hcall⟩ := hcall
    have hlist := hsim.value.list.trans (hviews v rfl).list.symm
    have hnext : (p.call w).next (reports w) p.store =
        (p.store, .proceed .decided (readContext (reports w) s' >>= decideContext (reports w) s')) := by
      rw [hcall]
      cases readContext (reports w) s' with
      | panic => rfl
      | error e => rfl
      | ok c =>
        simp only [Call.proceed, Call.next, Outcome.ok_bind, decideContext_congr hid hsim.row_eq hs' hlist]
    refine hsim.update hsim.value hviews ?_ ?_ fun h3 => ?_
    · simp only [Pair.step, hnext]
      exact hsim.row_eq
    · rw [hnext]
      exact ⟨s', hs', rfl⟩
    · have := hlt (by simp)
      omega
  | decided v =>
    rw [hst] at hcall hviews hlt
    obtain ⟨hyes, hno⟩ := Matches.store hid (hviews v rfl) hsim.value hsim.row_eq hcall
    refine hsim.update ((hviews v rfl).storedRow hsim.value w) hviews ?_ ?_ fun h3 => ?_
    · by_cases hadm : Admits (reports w).1 v (reports w).2
      · rw [storedRow_of_admits hadm]; exact (hyes hadm).1
      · rw [storedRow_of_not_admits hadm]; exact (hno hadm).1
    · exact ⟨fun hadm => Or.inl (hyes hadm).2, fun hadm => (hno hadm).2⟩
    · have := hlt (by simp)
      omega
  | stored v =>
    rw [hst] at hcall hviews
    have hsame : sys = { value := sys.value, stage := Function.update sys.stage w (.stored v) } := by
      rw [← hst, Function.update_eq_self]
    rw [hsame]
    by_cases hup : p.call w = .updated
    · obtain ⟨hrows, a, hdone, hrec⟩ := next_updated (reports w) p.store
      have hadm : Admits (reports w).1 v (reports w).2 := by
        by_contra hnot
        obtain ⟨b, hb, -⟩ := hcall.2 hnot
        rw [hup] at hb; cases hb
      refine hsim.update hsim.value hviews ?_ ?_ fun _ => ?_
      · simp only [Pair.step, hup, hrows]; exact hsim.row_eq
      · rw [hup]; exact ⟨fun _ => Or.inr ⟨a, hdone, hrec⟩, fun hnot => absurd hadm hnot⟩
      · rw [hup]; exact ⟨a, hdone⟩
    · obtain ⟨a, ha⟩ : ∃ a, p.call w = .done a := by
        by_cases hadm : Admits (reports w).1 v (reports w).2
        · rcases hcall.1 hadm with h | ⟨a, h, -⟩
          · exact absurd h hup
          · exact ⟨a, h⟩
        · obtain ⟨a, h, -⟩ := hcall.2 hadm
          exact ⟨a, h⟩
      have hnext : (p.call w).next (reports w) p.store = (p.store, p.call w) := by rw [ha]; rfl
      refine hsim.update hsim.value hviews ?_ ?_ fun _ => ?_
      · simp only [Pair.step, hnext]; exact hsim.row_eq
      · rw [hnext]; exact hcall
      · rw [hnext]; exact ⟨a, ha⟩

/-- The calls stay two clients of the row along every schedule. -/
theorem sim_run (hid : ∀ w, UUID.ofString? (reports w).2.workflowId = some id) (hrow : s.workflowState id = some row)
    (hp : Placed row) (is : List Who) :
    Sim reports id row is (run (Race.step (storedRow reports)) (Race.init row) is)
      (run (Pair.step reports) (.init s) is) := by
  induction is using List.reverseRecOn with
  | nil =>
    refine ⟨hrow, ⟨hp, rfl, rfl⟩, ?_, fun _ => rfl, ?_⟩
    · intro w v hv
      cases hv
    · intro w h4
      simp at h4
  | append_singleton is w ih =>
    obtain ⟨view, hinv⟩ := inv_run (f := storedRow reports) row is
    rw [run_concat, run_concat]
    exact ih.step (hid w) (hinv.stage w)

end

/-! ### Serial orders -/

/-- The calls have ended as if `w` had come first: the row and the acknowledgements are those of this order. -/
structure AsSerial (reports : Who → Report) (id : UUID) (s : Store) (p : Pair) (w : Who) : Prop where
  row : p.store.workflowState id = (step (step s (reports w)) (reports w.other)).workflowState id
  first : p.call w = .done (.ok ()) ↔ (reportActionStatus (reports w).1 s (reports w).2).2 = .ok ()
  second : p.call w.other = .done (.ok ()) ↔
    (reportActionStatus (reports w.other).1 (step s (reports w)) (reports w.other).2).2 = .ok ()

/-- The handler on its own, by what the row admits. -/
private theorem report_alone (hp : Placed row) (hid : UUID.ofString? (reports w).2.workflowId = some id)
    (hrow : s.workflowState id = some row) :
    (step s (reports w)).workflowState id = some (alone (storedRow reports) w row) ∧
      ((reportActionStatus (reports w).1 s (reports w).2).2 = .ok () ↔
        Admits (reports w).1 row (reports w).2 ∧ Recordable (reports w).1 (reports w).2) := by
  unfold alone
  by_cases hadm : Admits (reports w).1 row (reports w).2
  · rw [storedRow_of_admits hadm]
    refine ⟨hp.step_of_admits hrow hid hadm, ?_⟩
    rcases reportActionStatus_of_update (hp.reportUpdate_eq hid hrow hadm) with ⟨hrec, e, -, hout⟩ | ⟨hrec, msg, hout⟩
    · rw [hout]; simp [hadm, hrec]
    · rw [hout]; simp [hrec]
  · rw [storedRow_of_not_admits hadm]
    refine ⟨hp.step_of_not_admits hrow fun h => hadm h.2, ?_⟩
    refine iff_of_false (reportActionStatus_ne_ok fun hu => hadm ((hp.updates_iff hid hrow).1 hu)) fun h => hadm h.1

/-- How a schedule in which both calls take all their steps ends. -/
private theorem Sim.end {is : List Who} {sys : Sys StateRow} (hsim : Sim reports id row is sys p)
    {view : Who → StateRow} (hstage : ∀ w, sys.stage w = stageAt (is.count w) (view w)) (h4 : 4 ≤ is.count w) :
    p.call w = .done (.ok ()) ↔
      Admits (reports w).1 (view w) (reports w).2 ∧ Recordable (reports w).1 (reports w).2 := by
  obtain ⟨a, ha⟩ := hsim.done w h4
  have hcall := hsim.call w
  obtain ⟨n, hn⟩ : ∃ n, is.count w = n + 3 := ⟨is.count w - 3, by omega⟩
  rw [hstage w, hn] at hcall
  obtain ⟨hyes, hno⟩ : _ ∧ _ := hcall
  rw [ha] at hyes hno ⊢
  by_cases hadm : Admits (reports w).1 (view w) (reports w).2
  · rcases hyes hadm with h | ⟨b, h, hrec⟩
    · cases h
    · cases h
      simp [hadm, hrec]
  · obtain ⟨b, h, hne⟩ := hno hadm
    cases h
    simp [hadm, hne]

/-! ### Two reports that the same row admits -/

section

variable {env env' : ReportEnv} {req req' : WorkflowActionStatus}

private theorem StateRow.reportIndex_after (row : StateRow) (hne : req.actionName ≠ "")
    (req' : WorkflowActionStatus) :
    (row.after req).reportIndex req' =
      if req'.actionStatus = .running then row.reportIndex req + 1 else row.reportIndex req := by
  have hname : (row.after req).currentActionName ≠ "" := hne
  rw [StateRow.reportIndex_eq]
  simp only [hname, ne_eq, not_false_eq_true, and_true]
  rfl

/-- The second report is looked for where the row admitted it, or is not admitted any more. -/
private theorem Placed.admits_after_iff (hp : Placed row) (hadm : Admits env row req) (hadm' : Admits env' row req') :
    Admits env' (row.after req) req' ↔ (row.after req).reportIndex req' = row.reportIndex req' := by
  obtain ⟨a, hget, htask, hname⟩ := hadm'.action
  have hnonneg : ∀ q : WorkflowActionStatus, 0 ≤ row.reportIndex q := by
    intro q
    have hpos := hp.index_bounds.1
    have hindex := row.reportIndex_eq q
    split at hindex <;> omega
  have hnonneg' : 0 ≤ (row.after req).reportIndex req' := by
    have hindex := row.reportIndex_after hadm.action_ne req'
    have hpos := hnonneg req
    split at hindex <;> omega
  constructor
  · intro h
    obtain ⟨b, hget', htask', hname'⟩ := h.action
    have hget' : row.actionList[((row.after req).reportIndex req').toNat]? = some b := hget'
    have hpos := hp.position_unique hget hget' (htask.trans htask'.symm) (hname.trans hname'.symm)
    have := hnonneg req'
    omega
  · intro h
    refine ⟨hadm'.task_ne, hadm'.action_ne, hadm'.contexts, hadm'.actions, hadm'.update, hadm'.state, a, ?_,
      htask, hname⟩
    rw [h]
    exact hget

private theorem StateRow.after_after (h : (row.after req).reportIndex req' = row.reportIndex req') :
    (row.after req).after req' = row.after req' := by
  unfold StateRow.after at h ⊢
  rw [h]

/-- Two reports with one state that are about one position write the same row. -/
private theorem StateRow.after_eq_after (hadm : Admits env row req) (hadm' : Admits env' row req')
    (hindex : row.reportIndex req = row.reportIndex req') (hstate : req.actionStatus = req'.actionStatus) :
    row.after req = row.after req' := by
  obtain ⟨a, hget, htask, hname⟩ := hadm.action
  obtain ⟨b, hget', htask', hname'⟩ := hadm'.action
  rw [hindex, hget'] at hget
  cases hget
  unfold StateRow.after
  rw [hindex, hstate, ← htask, ← hname, htask', hname']

end

/-- The kinds of two reports that a row admits for which the outcome depends on the interleaving, if `w` stores first:
both are `RUNNING` and acknowledged; or something was reported before, and the one stored first is the `RUNNING`
report; or nothing was, and the one stored second is. -/
def ClashingKinds (reports : Who → Report) (row : StateRow) (w : Who) : Prop :=
  ((∀ u, (reports u).2.actionStatus = .running) ∧ ∀ u, Recordable (reports u).1 (reports u).2) ∨
    (row.currentActionName ≠ "" ∧ (reports w).2.actionStatus = .running ∧
      (reports w.other).2.actionStatus ≠ .running) ∨
    (row.currentActionName = "" ∧ (reports w).2.actionStatus ≠ .running ∧ (reports w.other).2.actionStatus = .running)

/-- The row admits both reports, and they are of clashing kinds. -/
structure Clash (reports : Who → Report) (row : StateRow) (w : Who) : Prop where
  admits : ∀ u, Admits (reports u).1 row (reports u).2
  kinds : ClashingKinds reports row w

/-- The outcome with the given views and row is that of the order in which `u` comes first. -/
private def EndsAs (reports : Who → Report) (row : StateRow) (view : Who → StateRow) (value : StateRow) (u : Who) :
    Prop :=
  value = alone (storedRow reports) u.other (alone (storedRow reports) u row) ∧
    (Admits (reports u).1 (view u) (reports u).2 ∧ Recordable (reports u).1 (reports u).2 ↔
      Admits (reports u).1 row (reports u).2 ∧ Recordable (reports u).1 (reports u).2) ∧
    (Admits (reports u.other).1 (view u.other) (reports u.other).2 ∧
        Recordable (reports u.other).1 (reports u.other).2 ↔
      Admits (reports u.other).1 (alone (storedRow reports) u row) (reports u.other).2 ∧
        Recordable (reports u.other).1 (reports u.other).2)

private theorem alone_of_admits (h : Admits (reports w).1 v (reports w).2) :
    alone (storedRow reports) w v = v.after (reports w).2 := by
  rw [alone, storedRow_of_admits h]; rfl

private theorem alone_of_not_admits (h : ¬ Admits (reports w).1 v (reports w).2) :
    alone (storedRow reports) w v = v := by
  rw [alone, storedRow_of_not_admits h]; rfl

/-- Both have read `row`, and `w.other` has written over `w`: when this is the outcome of the order `w`, `w.other`. -/
private theorem endsAs_first_iff (hp : Placed row) (hadm : ∀ u, Admits (reports u).1 row (reports u).2) :
    EndsAs reports row (fun _ => row) (row.after (reports w.other).2) w ↔
      Admits (reports w.other).1 (row.after (reports w).2) (reports w.other).2 ∨
        (row.after (reports w.other).2 = row.after (reports w).2 ∧
          ¬ Recordable (reports w.other).1 (reports w.other).2) := by
  unfold EndsAs
  rw [alone_of_admits (hadm w)]
  by_cases h : Admits (reports w.other).1 (row.after (reports w).2) (reports w.other).2
  · have hindex := (hp.admits_after_iff (hadm w) (hadm w.other)).1 h
    rw [alone_of_admits h, StateRow.after_after hindex]
    simp [h, hadm]
  · rw [alone_of_not_admits h]
    simp [h, hadm]

/-- The same for the order `w.other`, `w`. -/
private theorem endsAs_second_iff (hp : Placed row) (hadm : ∀ u, Admits (reports u).1 row (reports u).2) :
    EndsAs reports row (fun _ => row) (row.after (reports w.other).2) w.other ↔
      (Admits (reports w).1 (row.after (reports w.other).2) (reports w).2 ∧
        row.after (reports w.other).2 = row.after (reports w).2) ∨
      (¬ Admits (reports w).1 (row.after (reports w.other).2) (reports w).2 ∧
        ¬ Recordable (reports w).1 (reports w).2) := by
  unfold EndsAs
  rw [alone_of_admits (hadm w.other), Who.other_other]
  by_cases h : Admits (reports w).1 (row.after (reports w.other).2) (reports w).2
  · have hindex := (hp.admits_after_iff (hadm w.other) (hadm w)).1 h
    rw [alone_of_admits h, StateRow.after_after hindex]
    simp [h, hadm]
  · rw [alone_of_not_admits h]
    simp [h, hadm]

/-- When two overlapping reports that the row admits end as in some order. -/
private theorem endsAs_iff (hp : Placed row) (hadm : ∀ u, Admits (reports u).1 row (reports u).2) (w : Who) :
    (∃ u, EndsAs reports row (fun _ => row) (row.after (reports w.other).2) u) ↔ ¬ ClashingKinds reports row w := by
  have hexists : (∃ u, EndsAs reports row (fun _ => row) (row.after (reports w.other).2) u) ↔
      EndsAs reports row (fun _ => row) (row.after (reports w.other).2) w ∨
        EndsAs reports row (fun _ => row) (row.after (reports w.other).2) w.other := by
    constructor
    · rintro ⟨u, hu⟩
      rcases w.eq_or_eq_other u with rfl | rfl
      · left; exact hu
      · right; exact hu
    · rintro (h | h)
      · exact ⟨_, h⟩
      · exact ⟨_, h⟩
  rw [hexists, endsAs_first_iff hp hadm, endsAs_second_iff hp hadm, hp.admits_after_iff (hadm w) (hadm w.other),
    hp.admits_after_iff (hadm w.other) (hadm w), row.reportIndex_after (hadm w).action_ne,
    row.reportIndex_after (hadm w.other).action_ne]
  have hindex := row.reportIndex_eq (reports w).2
  have hindex' := row.reportIndex_eq (reports w.other).2
  -- rows with different states differ
  have hstate : (reports w.other).2.actionStatus ≠ (reports w).2.actionStatus →
      row.after (reports w.other).2 ≠ row.after (reports w).2 := fun hne h =>
    hne (congrArg StateRow.currentActionState h)
  have hsucc : ∀ i : Int, ¬ i + 1 = i := fun i => by omega
  unfold ClashingKinds
  rw [Who.forall_iff w, Who.forall_iff w]
  by_cases hw : (reports w).2.actionStatus = .running
  · by_cases ho : (reports w.other).2.actionStatus = .running
    · -- both are about the next position
      have hsame : row.reportIndex (reports w.other).2 = row.reportIndex (reports w).2 := by
        rw [hindex, hindex', hw, ho]
      have heq := StateRow.after_eq_after (hadm w.other) (hadm w) hsame (ho.trans hw.symm)
      simp [hw, ho, hsame, heq, hsucc]
      tauto
    · have hne := hstate (by rw [hw]; exact ho)
      by_cases hr : row.currentActionName = ""
      · have hsame : row.reportIndex (reports w.other).2 = row.reportIndex (reports w).2 := by
          rw [hindex, hindex']; simp [hr]
        simp [hw, ho, hr, hsame]
      · have hi : row.reportIndex (reports w).2 = row.currentActionIndex + 1 := by rw [hindex]; simp [hw, hr]
        have ho' : row.reportIndex (reports w.other).2 = row.currentActionIndex := by rw [hindex']; simp [ho]
        simp [hw, ho, hr, hi, ho', hne, hsucc]
  · by_cases ho : (reports w.other).2.actionStatus = .running
    · have hne := hstate (by rw [ho]; exact fun h => hw h.symm)
      by_cases hr : row.currentActionName = ""
      · have hsame : row.reportIndex (reports w.other).2 = row.reportIndex (reports w).2 := by
          rw [hindex, hindex']; simp [hr]
        simp [hw, ho, hr, hsame, hne, hsucc]
      · have hi : row.reportIndex (reports w).2 = row.currentActionIndex := by rw [hindex]; simp [hw]
        have ho' : row.reportIndex (reports w.other).2 = row.currentActionIndex + 1 := by rw [hindex']; simp [ho, hr]
        simp [hw, ho, hr, hi, ho']
    · have hsame : row.reportIndex (reports w.other).2 = row.reportIndex (reports w).2 := by
        rw [hindex, hindex']; simp [hw, ho]
      simp [hw, ho, hsame]

/-- If one of the two reports is not admitted, overlapping makes no difference. -/
private theorem endsAs_of_not_admits (hnot : ¬ ∀ u, Admits (reports u).1 row (reports u).2) (w : Who) :
    ∃ u, EndsAs reports row (fun _ => row)
      ((storedRow reports w.other row).getD (alone (storedRow reports) w row)) u := by
  by_cases hw : Admits (reports w).1 row (reports w).2
  · have ho : ¬ Admits (reports w.other).1 row (reports w.other).2 := fun h => hnot ((Who.forall_iff w).2 ⟨hw, h⟩)
    refine ⟨w.other, ?_, ?_, ?_⟩
    · rw [alone_of_not_admits ho, storedRow_of_not_admits ho, Who.other_other]; rfl
    · exact Iff.rfl
    · rw [alone_of_not_admits ho]
  · refine ⟨w, ?_, ?_, ?_⟩
    · rw [alone_of_not_admits hw]; rfl
    · exact Iff.rfl
    · rw [alone_of_not_admits hw]

/-- Two calls about one workflow of a reachable store, whose steps are interleaved in any way: the row and the
acknowledgements are those of one of the two orders, except when both calls have read the row before either has stored
and the reports clash. -/
theorem serialisable_iff_no_clash (hs : Reachable s) (hid : ∀ w, UUID.ofString? (reports w).2.workflowId = some id)
    (hrow : s.workflowState id = some row) {is : List Who} (his : ∀ w, 4 ≤ is.count w) :
    (∃ w, AsSerial reports id s (run (Pair.step reports) (.init s) is) w) ↔
      ¬ (Overlap is ∧ ∃ w, First w is ∧ Clash reports row w) := by
  have hp := hs.placed hrow
  have hsim := sim_run hid hrow hp is
  obtain ⟨view, hinv⟩ := inv_run (f := storedRow reports) row is
  generalize run (Pair.step reports) (.init s) is = p at hsim ⊢
  generalize run (Race.step (storedRow reports)) (Race.init row) is = sys at hsim hinv
  -- what an order would have given, by the row
  have hends : ∀ u, AsSerial reports id s p u ↔ EndsAs reports row view sys.value u := by
    intro u
    obtain ⟨hrow₁, hack₁⟩ := report_alone hp (hid u) hrow
    have hpeer : Peer row row := ⟨hp, rfl, rfl⟩
    have hp₁ : Placed (alone (storedRow reports) u row) := (hpeer.storedRow hpeer u).placed
    obtain ⟨hrow₂, hack₂⟩ := report_alone hp₁ (hid u.other) hrow₁
    have hfirst := hsim.end hinv.stage (his u)
    have hsecond := hsim.end hinv.stage (his u.other)
    constructor
    · rintro ⟨h, h1, h2⟩
      rw [hsim.row_eq, hrow₂] at h
      rw [hfirst, hack₁] at h1
      rw [hsecond, hack₂] at h2
      exact ⟨Option.some.inj h, h1, h2⟩
    · rintro ⟨h, h1, h2⟩
      refine ⟨?_, ?_, ?_⟩
      · rw [hsim.row_eq, hrow₂, h]
      · rw [hfirst, hack₁, h1]
      · rw [hsecond, hack₂, h2]
  simp only [hends]
  obtain ⟨w, hfirst, hview, ⟨hover, hserial⟩, hvalue⟩ := hinv.after fun u => by have := his u; omega
  by_cases ho : Overlap is
  · have hviews : view = fun _ => row := funext ((Who.forall_iff w).2 ⟨hview, hover ho⟩)
    rw [hviews] at hvalue ⊢
    rw [hvalue]
    by_cases hadm : ∀ u, Admits (reports u).1 row (reports u).2
    · rw [storedRow_of_admits (hadm w.other), Option.getD_some, endsAs_iff hp hadm w, not_iff_not]
      constructor
      · intro hkinds
        exact ⟨ho, w, hfirst, hadm, hkinds⟩
      · rintro ⟨-, u, hu, hclash⟩
        rcases w.eq_or_eq_other u with rfl | rfl
        · exact hclash.kinds
        · exact absurd hu hfirst.not_other
    · refine iff_of_true (endsAs_of_not_admits hadm w) ?_
      rintro ⟨-, u, -, hclash⟩
      exact hadm hclash.admits
  · refine iff_of_true ⟨w, ?_, ?_, ?_⟩ fun h => ho h.1
    · rw [hvalue, hserial ho]; rfl
    · rw [hview]
    · rw [hserial ho]

/-- The calls take turns, so that both read before either stores. -/
def inTurns : List Who := [.first, .second, .first, .second, .first, .second, .first, .second]

theorem serialisable_iff_no_clash_two_results :
    ∃ s₁, createSample [("os", machine1, ["stream"])] = .ok (s₁, sampleID) ∧
      ∃ w, AsSerial (fun w => ({}, reportOf "os" "stream" (if w = .first then .success else .failed))) sampleID s₁
        (run (Pair.step fun w => ({}, reportOf "os" "stream" (if w = .first then .success else .failed))) (.init s₁)
          inTurns) w := by
  have hcreate : createSample [("os", machine1, ["stream"])] = .ok (_, sampleID) := rfl
  obtain ⟨row, hrow, -⟩ := placed_of_created hcreate []
  refine ⟨_, hcreate, (serialisable_iff_no_clash (.create .empty hcreate)
    (fun _ => UUID.ofString?_toString sampleID) hrow fun w => by cases w <;> decide).2 ?_⟩
  rintro ⟨-, w, -, -, ⟨hrun, -⟩ | ⟨-, hrun, -⟩ | ⟨-, -, hrun⟩⟩
  · cases hrun .first
  · cases w <;> cases hrun
  · cases w <;> cases hrun

/-- `SUCCESS` and `RUNNING` for the only action: both calls read the empty row. -/
def racingReports : Who → Report := fun w =>
  ({}, reportOf "os" "stream" (if w = .first then .success else .running))

/-- Both calls are acknowledged and the row is `RUNNING`: the success is lost, and no order gives that. -/
theorem acknowledged_success_overwritten :
    ∃ s, createSample [("os", machine1, ["stream"])] = .ok (s, sampleID) ∧
      (∀ w, (run (Pair.step racingReports) (.init s) inTurns).call w = .done (.ok ())) ∧
      ((run (Pair.step racingReports) (.init s) inTurns).store.workflowState sampleID).map
        StateRow.currentActionState =
        some .running ∧
      ¬ ∃ w, AsSerial racingReports sampleID s (run (Pair.step racingReports) (.init s) inTurns) w := by
  obtain ⟨s, hcreate, hfirst, hsecond, hstate, hserial, hanswer⟩ :
      ∃ s, createSample [("os", machine1, ["stream"])] = .ok (s, sampleID) ∧
        (run (Pair.step racingReports) (.init s) inTurns).call .first = .done (.ok ()) ∧
        (run (Pair.step racingReports) (.init s) inTurns).call .second = .done (.ok ()) ∧
        ((run (Pair.step racingReports) (.init s) inTurns).store.workflowState sampleID).map
          StateRow.currentActionState = some .running ∧
        ((step (step s (racingReports .second)) (racingReports .first)).workflowState sampleID).map
          StateRow.currentActionState = some .success ∧
        (reportActionStatus (racingReports .second).1 (step s (racingReports .first)) (racingReports .second).2).2 ≠
          .ok () :=
    ⟨_, rfl, rfl, rfl, rfl, rfl, nofun⟩
  refine ⟨s, hcreate, fun w => by cases w <;> assumption, hstate, ?_⟩
  rintro ⟨w, h⟩
  cases w with
  | first => exact hanswer (h.second.1 hsecond)
  | second =>
    rw [h.row, show Who.second.other = .first from rfl, hserial] at hstate
    cases hstate

end Tink.Db
