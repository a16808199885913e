import Tink.Db.Index
import Tink.Db.Trace
import Tink.Lib.GoTime

/-!
# The event log of a workflow

A report that is stored leaves two records: it moves the row of its workflow, and it adds a row to `workflow_event`,
with the time at which the server did so.  `ShowWorkflowEvents` sends the second record to a client, ordered by that
time; rows of the same time come in any order.

The two agree.  As long as no report is torn between its two transactions and the times, as the column holds them,
increase, a client can compute the row from the messages it gets (`told`): the last one says the state, and the
position is the number of announcements behind the first message.  A stream that breaks off tells a row the workflow
has had before (`events_tell_rows`).
-/

namespace Tink.Db

open Pg Machine

/-- The tables, with the column `created_at` of `workflow_event`. -/
structure Log where
  store : Store := {}
  createdAt : List Int := []

/-- The calls that write to the tables.  The time of a report is read between its two transactions. -/
inductive LogCall where
  | create (reg : Registry) (env : CreateEnv) (template hardware : String)
  | report (now : GoTime.Time) (report : Report)

section

variable {H : Type} (r : Template.Renderer H) (timestamptz : GoTime.Time → Int)

/-- `CreateWorkflow`; the ids of new workflows are fresh. -/
def Log.create (x : Log) (reg : Registry) (env : CreateEnv) (template hardware : String) : Log :=
  match x.store.workflowState env.id, createWorkflow r reg env x.store template hardware with
  | none, .ok (s, _) => { x with store := s }
  | _, _ => x

/-- The tables after a call.  A report is answered without an error once its event has been inserted. -/
def Log.step (x : Log) : LogCall → Log
  | .create reg env template hardware => x.create r reg env template hardware
  | .report now report =>
    match reportActionStatus report.1 x.store report.2 with
    | (s, .ok ()) => ⟨s, x.createdAt ++ [timestamptz now]⟩
    | (s, _) => { x with store := s }

end

/-- The call is no report whose event cannot be recorded. -/
def LogCall.Whole (x : Log) : LogCall → Prop
  | .create _ _ _ _ => True
  | .report _ (env, req) => ¬ ∃ row, Torn env x.store req row

/-! ### The stream -/

/-- The events of a workflow in the order they were recorded, with their times. -/
def Log.events (x : Log) (id : UUID) : List (EventRow × Int) :=
  (x.store.workflowEvent.zip x.createdAt).filter fun row => row.1.workflowId = id

/-- What the query `… ORDER BY created_at ASC` may return. -/
def Log.Selects (x : Log) (id : UUID) (rows : List (EventRow × Int)) : Prop :=
  rows.Perm (x.events id) ∧ rows.Pairwise fun a b => a.2 ≤ b.2

/-- The message made of a row; the id of the workflow is not among its columns. -/
def EventRow.toStatus (row : EventRow) : WorkflowActionStatus where
  workflowId := ""
  taskName := row.taskName
  actionName := row.actionName
  actionStatus := row.status
  seconds := row.executionTime
  message := row.message
  workerId := row.workerId.toString

/-- Whether the database is ready, an error of the query, and the number of messages sent before an error of the
stream. -/
structure ShowEnv where
  ready : Bool := true
  queryErr : Option String := none
  sendErr : Option (Nat × String) := none

/-- `ShowWorkflowEvents`, on the rows the query returns: the messages, with their times, and the answer. -/
def showWorkflowEvents (env : ShowEnv) (rows : List (EventRow × Int)) :
    List (WorkflowActionStatus × Int) × Except String Unit :=
  if ¬ env.ready then ([], .error "DB is not ready")
  else
    match env.queryErr, env.sendErr with
    | some e, _ => ([], .error e)
    | none, none => (rows.map fun row => (row.1.toStatus, row.2), .ok ())
    | none, some (n, e) =>
      if n < rows.length then ((rows.take n).map fun row => (row.1.toStatus, row.2), .error e)
      else (rows.map fun row => (row.1.toStatus, row.2), .ok ())

/-- The row a client computes from the action list and the messages. -/
def told (actions : List WorkflowAction) (events : List WorkflowActionStatus) : StateRow :=
  match events.getLast? with
  | none => { actionList := actions, totalNumberOfActions := actions.length }
  | some e =>
    let index := events.tail.countP fun e => e.actionStatus = .running
    { currentTaskName := e.taskName
      currentActionName := e.actionName
      currentActionState := e.actionStatus
      currentWorker := (actions[index]?.map WorkflowAction.workerId).getD ""
      actionList := actions
      currentActionIndex := index
      totalNumberOfActions := actions.length }

variable {H : Type} {r : Template.Renderer H} {timestamptz : GoTime.Time → Int} {x : Log} {s : Store} {row : StateRow}
  {id : UUID} {req : WorkflowActionStatus} {e : EventRow} {env : ReportEnv} {calls : List LogCall}

/-- What is sent is what the query has returned, or the beginning of it. -/
private theorem showWorkflowEvents_cases (env : ShowEnv) (rows : List (EventRow × Int)) :
    ∃ n ≤ rows.length, (showWorkflowEvents env rows).1.map Prod.fst = (rows.take n).map (fun row => row.1.toStatus) ∧
      ((showWorkflowEvents env rows).2 = .ok () → n = rows.length) := by
  unfold showWorkflowEvents
  split
  · exact ⟨0, by omega, by simp, by simp⟩
  · split
    · exact ⟨0, by omega, by simp, by simp⟩
    · exact ⟨rows.length, le_refl _, by simp, fun _ => rfl⟩
    · rename_i n e _ _
      split
      · exact ⟨n, by omega, by rw [List.map_map]; rfl, by simp⟩
      · exact ⟨rows.length, le_refl _, by simp, fun _ => rfl⟩

/-! ### What is told -/

private theorem Positioned.eq_told_nil (hp : Positioned row) (h : row.Unreported) : row = told row.actionList [] := by
  obtain ⟨task, action, state, worker, list, index, total⟩ := row
  obtain ⟨rfl, rfl, rfl, rfl, rfl⟩ := h
  have htotal : total = list.length := hp.total
  rw [htotal]
  rfl

/-- The columns of an event that a client reads. -/
private theorem eventColumns_spec (h : eventColumns req = .ok e) :
    UUID.ofString? req.workflowId = some e.workflowId ∧ varchar 200 req.taskName = some e.taskName ∧
      varchar 200 req.actionName = some e.actionName ∧ e.status = req.actionStatus := by
  obtain ⟨u, hu, h⟩ := except_bind_eq_ok.1 h
  obtain ⟨v, -, h⟩ := except_bind_eq_ok.1 h
  obtain ⟨task, htask, h⟩ := except_bind_eq_ok.1 h
  obtain ⟨action, haction, h⟩ := except_bind_eq_ok.1 h
  obtain ⟨seconds, -, h⟩ := except_bind_eq_ok.1 h
  obtain ⟨message, -, h⟩ := except_bind_eq_ok.1 h
  obtain ⟨state, hstate, h⟩ := except_bind_eq_ok.1 h
  cases h
  exact ⟨uuidColumn_eq_ok.1 hu, varcharColumn_eq_ok.1 htask, varcharColumn_eq_ok.1 haction,
    (smallintColumn_eq_ok.1 hstate).2.symm⟩

/-- An event has the names of its report, which are those of an action. -/
private theorem Positioned.event_names (hp : Positioned row) (hadm : Admits env row req)
    (he : eventColumns req = .ok e) :
    e.taskName = req.taskName ∧ e.actionName = req.actionName := by
  obtain ⟨a, hget, hat, han⟩ := hadm.action
  obtain ⟨ht, hn, -⟩ := hp.texts a (List.mem_of_getElem? hget)
  obtain ⟨-, htask, haction, -⟩ := eventColumns_spec he
  rw [← hat, ht] at htask
  rw [← han, hn] at haction
  exact ⟨(Option.some.inj htask).symm.trans hat, (Option.some.inj haction).symm.trans han⟩

/-- One more event tells the row that its report has led to. -/
private theorem Positioned.after_eq_told (hp : Positioned row) {events : List WorkflowActionStatus}
    (h : row = told row.actionList events) (hne : ∀ m ∈ events, m.actionName ≠ "") (hadm : Admits env row req)
    (he : eventColumns req = .ok e) : row.after req = told row.actionList (events ++ [e.toStatus]) := by
  obtain ⟨htask, haction⟩ := hp.event_names hadm he
  have htask : e.toStatus.taskName = req.taskName := htask
  have haction : e.toStatus.actionName = req.actionName := haction
  have hstate : e.toStatus.actionStatus = req.actionStatus := (eventColumns_spec he).2.2.2
  -- the position moves with every announcement but the first message
  have hindex : row.reportIndex req =
      ((events ++ [e.toStatus]).tail.countP fun m => m.actionStatus = .running : Nat) := by
    rw [row.reportIndex_eq]
    cases hev : events with
    | nil =>
      rw [hev] at h
      rw [h]
      simp [told]
    | cons m ms =>
      have hcur : row.currentActionName ≠ "" ∧
          row.currentActionIndex = (ms.countP fun m => m.actionStatus = .running : Nat) := by
        rw [hev] at h hne
        obtain ⟨l, hl⟩ : ∃ l, (m :: ms).getLast? = some l := ⟨_, List.getLast?_eq_some_getLast (by simp)⟩
        rw [h]
        simp only [told, hl]
        exact ⟨hne l (List.mem_of_getLast? hl), rfl⟩
      rw [List.cons_append, List.tail_cons, List.countP_append, hcur.2]
      by_cases hr : req.actionStatus = .running
      · rw [if_pos ⟨hr, hcur.1⟩]
        simp [hstate, hr]
      · rw [if_neg fun hc => hr hc.1]
        simp [hstate, hr]
  rw [StateRow.after, told, List.getLast?_concat, hindex, Int.toNat_natCast, hp.total, ← htask, ← haction, ← hstate]

/-! ### One call -/

/-- The events of a workflow, without their times. -/
def Log.own (x : Log) (id : UUID) : List EventRow := x.store.workflowEvent.filter fun e => e.workflowId = id

/-- Each row is told by the events of its workflow, and there are no other events. -/
structure Log.Told (x : Log) : Prop where
  length : x.createdAt.length = x.store.workflowEvent.length
  positioned : ∀ id row, x.store.workflowState id = some row → Positioned row
  names : ∀ e ∈ x.store.workflowEvent, e.actionName ≠ ""
  rows : ∀ id row, x.store.workflowState id = some row → row = told row.actionList ((x.own id).map EventRow.toStatus)
  none : ∀ id, x.store.workflowState id = none → x.own id = []

/-- The call has created a workflow. -/
structure Log.Creates (x x' : Log) (id : UUID) (row : StateRow) : Prop where
  fresh : x.store.workflowState id = none
  positioned : Positioned row
  unreported : row.Unreported
  state : x'.store.workflowState = Function.update x.store.workflowState id (some row)
  event : x'.store.workflowEvent = x.store.workflowEvent
  createdAt : x'.createdAt = x.createdAt

/-- The call was a report that is stored and recorded. -/
structure Log.Records (x x' : Log) (id : UUID) (row : StateRow) (env : ReportEnv) (req : WorkflowActionStatus)
    (e : EventRow) : Prop where
  stored : x.store.workflowState id = some row
  admits : Admits env row req
  columns : eventColumns req = .ok e
  workflow : e.workflowId = id
  state : x'.store.workflowState = Function.update x.store.workflowState id (some (row.after req))
  event : x'.store.workflowEvent = x.store.workflowEvent ++ [e]
  createdAt : ∃ time, x'.createdAt = x.createdAt ++ [time]

private theorem create_log_cases (x : Log) (reg : Registry) (env : CreateEnv) (template hardware : String) :
    x.create r reg env template hardware = x ∨ ∃ id row, x.Creates (x.create r reg env template hardware) id row := by
  unfold Log.create
  split
  · rename_i s id hfresh hcreate
    right
    obtain ⟨row, hrows, hp, hun⟩ := createWorkflow_rows hcreate
    obtain ⟨rfl, text, data, s₁, -, -, hins, rfl⟩ := createWorkflow_eq_ok hcreate
    obtain ⟨wf, actions, workers, -, -, -, -, rfl⟩ := insertActionList_ok hins
    exact ⟨_, row, hfresh, hp, hun, hrows, rfl, rfl⟩
  · left; rfl

/-- What a call that is not torn does. -/
private theorem Log.Told.step_cases (r : Template.Renderer H) (timestamptz : GoTime.Time → Int) (h : x.Told)
    {c : LogCall} (hw : c.Whole x) :
    x.step r timestamptz c = x ∨ (∃ id row, x.Creates (x.step r timestamptz c) id row) ∨
      ∃ id row env req e, x.Records (x.step r timestamptz c) id row env req e := by
  cases c with
  | create reg env template hardware =>
    rcases create_log_cases (r := r) x reg env template hardware with hsame | hcreates
    · left; exact hsame
    · right; left; exact hcreates
  | report now rep =>
    obtain ⟨env, req⟩ := rep
    by_cases hup : ∃ s', reportUpdate env x.store req = .ok s'
    · right; right
      obtain ⟨s', hu⟩ := hup
      obtain ⟨id, row, row', hid, hrow, hpass, happ, rfl⟩ := reportUpdate_eq_ok.1 hu
      have hp := h.positioned id row hrow
      have hadm : Admits env row req := hp.admits_iff_applied.2 ⟨hpass, row', happ⟩
      obtain rfl := hp.eq_after happ
      rcases reportActionStatus_of_update hu with ⟨-, e, he, hout⟩ | ⟨hnot, -⟩
      · have hid' := (eventColumns_spec he).1
        rw [hid] at hid'
        have hstep : x.step r timestamptz (.report now (env, req)) =
            ⟨(reportActionStatus env x.store req).1, x.createdAt ++ [timestamptz now]⟩ := by
          simp only [Log.step, hout]
        rw [hstep, hout]
        exact ⟨id, row, env, req, e, hrow, hadm, he, (Option.some.inj hid').symm, rfl, rfl, _, rfl⟩
      · exact absurd ⟨row, id, hid, hrow, hadm, hnot⟩ hw
    · left
      have hstore := reportActionStatus_of_no_update hup
      have hans := reportActionStatus_ne_ok hup
      rcases hout : reportActionStatus env x.store req with ⟨s, y⟩
      rw [hout] at hstore hans
      obtain rfl : s = x.store := hstore
      cases y with
      | ok u => exact absurd rfl hans
      | error e => simp only [Log.step, hout]
      | panic => simp only [Log.step, hout]

private theorem Log.own_concat {x' : Log} (h : x'.store.workflowEvent = x.store.workflowEvent ++ [e]) (id : UUID) :
    x'.own id = if e.workflowId = id then x.own id ++ [e] else x.own id := by
  rw [Log.own, Log.own, h, List.filter_append]
  split
  · rename_i hid
    simp [hid]
  · rename_i hid
    simp [hid]

/-- The row of one workflow is set, and the events of the others are what they were. -/
private theorem Log.Told.set_row {x' : Log} (h : x.Told)
    (hlength : x'.createdAt.length = x'.store.workflowEvent.length)
    (hnames : ∀ e ∈ x'.store.workflowEvent, e.actionName ≠ "")
    (hstate : x'.store.workflowState = Function.update x.store.workflowState id (some row)) (hp : Positioned row)
    (hown : ∀ id', id' ≠ id → x'.own id' = x.own id')
    (htold : row = told row.actionList ((x'.own id).map EventRow.toStatus)) : x'.Told := by
  have hself : x'.store.workflowState id = some row := by rw [hstate, Function.update_self]
  have hother : ∀ id', id' ≠ id → x'.store.workflowState id' = x.store.workflowState id' := by
    intro id' hne
    rw [hstate, Function.update_of_ne hne]
  refine ⟨hlength, fun id' row' hrow' => ?_, hnames, fun id' row' hrow' => ?_, fun id' hnone => ?_⟩
  · by_cases hid : id' = id
    · rw [hid, hself] at hrow'
      cases hrow'
      exact hp
    · rw [hother id' hid] at hrow'
      exact h.positioned id' row' hrow'
  · by_cases hid : id' = id
    · rw [hid, hself] at hrow'
      cases hrow'
      rw [hid]
      exact htold
    · rw [hother id' hid] at hrow'
      rw [hown id' hid]
      exact h.rows id' row' hrow'
  · by_cases hid : id' = id
    · rw [hid, hself] at hnone
      cases hnone
    · rw [hother id' hid] at hnone
      rw [hown id' hid]
      exact h.none id' hnone

private theorem Log.Told.creates {x' : Log} (h : x.Told) (hc : x.Creates x' id row) : x'.Told := by
  have hown : ∀ id', x'.own id' = x.own id' := fun id' => by rw [Log.own, Log.own, hc.event]
  refine h.set_row ?_ ?_ hc.state hc.positioned (fun id' _ => hown id') ?_
  · rw [hc.createdAt, hc.event]
    exact h.length
  · rw [hc.event]
    exact h.names
  · rw [hown, h.none id hc.fresh]
    exact hc.positioned.eq_told_nil hc.unreported

private theorem Log.Told.records {x' : Log} (h : x.Told) (hr : x.Records x' id row env req e) : x'.Told := by
  have hp := h.positioned id row hr.stored
  have hown := fun id' => Log.own_concat hr.event id'
  obtain ⟨-, row₁, happ⟩ := hp.admits_iff_applied.1 hr.admits
  obtain rfl := hp.eq_after happ
  have hname : e.actionName ≠ "" := by
    rw [(hp.event_names hr.admits hr.columns).2]
    exact hr.admits.action_ne
  refine h.set_row ?_ ?_ hr.state (hp.of_applied happ).1 (fun id' hne => ?_) ?_
  · obtain ⟨time, htime⟩ := hr.createdAt
    rw [htime, hr.event, List.length_append, List.length_append, h.length]
    rfl
  · rw [hr.event]
    intro e' he'
    rcases List.mem_append.1 he' with hold | hnew
    · exact h.names e' hold
    · obtain rfl := List.mem_singleton.1 hnew
      exact hname
  · rw [hown, if_neg fun hid => hne (hid.symm.trans hr.workflow)]
  · rw [hown, if_pos hr.workflow, List.map_append, List.map_singleton]
    refine hp.after_eq_told (h.rows id row hr.stored) ?_ hr.admits hr.columns
    intro m hm
    obtain ⟨e', he', rfl⟩ := List.mem_map.1 hm
    exact h.names e' (List.mem_of_mem_filter he')

private theorem Log.Told.step (r : Template.Renderer H) (timestamptz : GoTime.Time → Int) (h : x.Told) {c : LogCall}
    (hw : c.Whole x) : (x.step r timestamptz c).Told := by
  rcases Log.Told.step_cases r timestamptz h hw with hsame | ⟨id, row, hc⟩ | ⟨id, row, env, req, e, hr⟩
  · rw [hsame]; exact h
  · exact h.creates hc
  · exact h.records hr

/-- Where a row and an event come from that are there after a call. -/
private theorem Log.Told.before (h : x.Told) {c : LogCall} (hw : c.Whole x) {row' : StateRow} {n : Nat}
    (hrow' : (x.step r timestamptz c).store.workflowState id = some row')
    (hn : n < ((x.step r timestamptz c).own id).length) :
    ∃ row, x.store.workflowState id = some row ∧ row.actionList = row'.actionList ∧ n ≤ (x.own id).length ∧
      ((x.step r timestamptz c).own id).take n = (x.own id).take n := by
  rcases Log.Told.step_cases r timestamptz h hw with hsame | ⟨id₁, row₁, hc⟩ |
    ⟨id₁, row₁, env, req, e, hr⟩
  · rw [hsame] at hrow' hn ⊢
    exact ⟨row', hrow', rfl, by omega, rfl⟩
  · have hown : (x.step r timestamptz c).own id = x.own id := by rw [Log.own, Log.own, hc.event]
    rw [hown] at hn ⊢
    rw [hc.state, Function.update_apply] at hrow'
    split at hrow'
    · rename_i hid
      rw [hid, h.none id₁ hc.fresh] at hn
      cases hn
    · exact ⟨row', hrow', rfl, by omega, rfl⟩
  · have hown := Log.own_concat hr.event id
    rw [hr.state, Function.update_apply] at hrow'
    split at hrow'
    · rename_i hid
      cases hrow'
      rw [if_pos (hr.workflow.trans hid.symm)] at hown
      rw [hown, List.length_append, List.length_singleton] at hn
      rw [hown, List.take_append_of_le_length (by omega)]
      exact ⟨row₁, hid ▸ hr.stored, rfl, by omega, rfl⟩
    · rename_i hne
      rw [if_neg fun hid => hne (hid.symm.trans hr.workflow)] at hown
      rw [hown] at hn ⊢
      exact ⟨row', hrow', rfl, by omega, rfl⟩

/-! ### Whole runs -/

/-- The beginnings of the log tell the rows there have been. -/
def Log.History (r : Template.Renderer H) (timestamptz : GoTime.Time → Int) (p : List LogCall) (x : Log) : Prop :=
  ∀ id row, x.store.workflowState id = some row → ∀ n ≤ (x.own id).length, ∃ q, q <+: p ∧
    (run (Log.step r timestamptz) {} q).store.workflowState id =
      some (told row.actionList (((x.own id).take n).map EventRow.toStatus))

private theorem told_run (calls : List LogCall) (hw : Every (Log.step r timestamptz) LogCall.Whole {} calls) :
    (run (Log.step r timestamptz) {} calls).Told ∧
      Log.History r timestamptz calls (run (Log.step r timestamptz) {} calls) := by
  refine history_of_every (J := fun p x => x.Told ∧ Log.History r timestamptz p x) ⟨?_, ?_⟩ hw ?_
    calls (List.prefix_refl _)
  · exact ⟨rfl, fun _ _ h => (by cases h), fun _ h => (by cases h), fun _ _ h => (by cases h), fun _ _ => rfl⟩
  · intro id row hrow
    cases hrow
  · rintro p c ⟨h, hist⟩ hc
    have h' := Log.Told.step r timestamptz h hc
    refine ⟨h', fun id row hrow n hn => ?_⟩
    rcases Nat.eq_or_lt_of_le hn with rfl | hlt
    · refine ⟨p ++ [c], List.prefix_refl _, ?_⟩
      rw [run_concat, List.take_length, hrow]
      exact congrArg some (h'.rows id row hrow)
    · -- the events before the last one were there before
      obtain ⟨row₁, hrow₁, hlist, hle, htake⟩ := h.before hc hrow hlt
      obtain ⟨q, hq, hstate⟩ := hist id row₁ hrow₁ n hle
      refine ⟨q, hq.trans (List.prefix_append _ _), ?_⟩
      rw [htake, ← hlist]
      exact hstate

private theorem Log.Told.map_fst_events (h : x.Told) (id : UUID) : (x.events id).map Prod.fst = x.own id := by
  have hzip : (x.store.workflowEvent.zip x.createdAt).map Prod.fst = x.store.workflowEvent :=
    List.map_fst_zip (le_of_eq h.length.symm)
  rw [Log.own, ← hzip, List.filter_map, Log.events]
  rfl

/-- Rows whose times increase come in one order only. -/
private theorem Log.Told.selects (h : x.Told) (hinc : x.createdAt.Pairwise (· < ·)) {rows : List (EventRow × Int)}
    (hrows : x.Selects id rows) : rows = x.events id := by
  have hzip : (x.store.workflowEvent.zip x.createdAt).map Prod.snd = x.createdAt :=
    List.map_snd_zip (le_of_eq h.length)
  have hlt : (x.events id).Pairwise fun a b => a.2 < b.2 := by
    refine List.Pairwise.filter _ ?_
    rw [← hzip] at hinc
    exact List.pairwise_map.1 hinc
  refine hrows.1.eq_of_pairwise (fun a b ha hb hab hba => ?_) hrows.2 (hlt.imp fun hab => le_of_lt hab)
  -- two rows of the log have the same time only if they are the same
  have hnodup : ((x.events id).map Prod.snd).Nodup := by
    rw [List.Nodup, List.pairwise_map]
    exact hlt.imp fun hab => ne_of_lt hab
  exact List.inj_on_of_nodup_map hnodup (hrows.1.mem_iff.1 ha) hb (le_antisymm hab hba)

/-- In every run of calls, one after the other, without a torn report and with increasing times in the column: what a
client is sent of the log of a workflow tells a row the workflow has had, and tells the present one if the stream has
ended without an error. -/
theorem events_tell_rows (r : Template.Renderer H) (timestamptz : GoTime.Time → Int) (calls : List LogCall)
    (hwhole : Every (Log.step r timestamptz) LogCall.Whole {} calls)
    (htimes : (run (Log.step r timestamptz) {} calls).createdAt.Pairwise (· < ·)) {id : UUID} {row : StateRow}
    (hrow : (run (Log.step r timestamptz) {} calls).store.workflowState id = some row) {rows : List (EventRow × Int)}
    (hrows : (run (Log.step r timestamptz) {} calls).Selects id rows) (env : ShowEnv) :
    (∃ p, p <+: calls ∧ (run (Log.step r timestamptz) {} p).store.workflowState id =
        some (told row.actionList ((showWorkflowEvents env rows).1.map Prod.fst))) ∧
      ((showWorkflowEvents env rows).2 = .ok () →
        told row.actionList ((showWorkflowEvents env rows).1.map Prod.fst) = row) := by
  obtain ⟨h, hist⟩ := told_run calls hwhole
  obtain rfl := h.selects htimes hrows
  obtain ⟨n, hn, hsent, hok⟩ := showWorkflowEvents_cases env ((run (Log.step r timestamptz) {} calls).events id)
  have hlen : ((run (Log.step r timestamptz) {} calls).events id).length =
      ((run (Log.step r timestamptz) {} calls).own id).length := by
    rw [← h.map_fst_events id, List.length_map]
  have hmsgs : (((run (Log.step r timestamptz) {} calls).events id).take n).map (fun row => row.1.toStatus) =
      (((run (Log.step r timestamptz) {} calls).own id).take n).map EventRow.toStatus := by
    rw [← h.map_fst_events id, ← List.map_take, List.map_map]
    rfl
  rw [hsent, hmsgs]
  refine ⟨hist id row hrow n (by omega), fun hans => ?_⟩
  rw [List.take_of_length_le (by rw [hok hans]; omega)]
  exact (h.rows id row hrow).symm

/-- A workflow of two actions is created, and the first one is announced and succeeds; the column holds
microseconds. -/
def sampleCalls : List LogCall :=
  [.create { getWorkerID := .ok, parse := uuidColumn } sampleEnv "template" "devices",
    .report 1000 ({}, reportOf "os" "stream" .running), .report 5000 ({}, reportOf "os" "stream" .success)]

def sampleReader : Template.Renderer Unit :=
  { Template.Renderer.reading Unit (.ofNames [("os", machine1, ["stream", "boot"])]) with
    unmarshalDevices := fun _ => .ok () }

theorem events_tell_rows_first_action :
    ∃ row rows, (run (Log.step sampleReader (· / 1000)) {} sampleCalls).store.workflowState sampleID = some row ∧
      (run (Log.step sampleReader (· / 1000)) {} sampleCalls).Selects sampleID rows ∧
      told row.actionList ((showWorkflowEvents {} rows).1.map Prod.fst) = row := by
  have hwhole : Every (Log.step sampleReader (· / 1000)) LogCall.Whole {} sampleCalls := by
    refine every_of_forall_mem fun c hc x => ?_
    simp only [sampleCalls, List.mem_cons, List.not_mem_nil, or_false] at hc
    rcases hc with rfl | rfl | rfl
    · trivial
    · rintro ⟨row, -, -, -, -, hnot⟩
      exact hnot ⟨rfl, _, rfl⟩
    · rintro ⟨row, -, -, -, -, hnot⟩
      exact hnot ⟨rfl, _, rfl⟩
  have hrow : (run (Log.step sampleReader (· / 1000)) {} sampleCalls).store.workflowState sampleID = some _ := rfl
  have hrows : (run (Log.step sampleReader (· / 1000)) {} sampleCalls).Selects sampleID
      ((run (Log.step sampleReader (· / 1000)) {} sampleCalls).events sampleID) :=
    ⟨List.Perm.refl _, by decide +kernel⟩
  exact ⟨_, _, hrow, hrows, (events_tell_rows _ _ _ hwhole (by decide +kernel) hrow hrows {}).2 rfl⟩

end Tink.Db
