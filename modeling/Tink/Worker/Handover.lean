import Tink.Db.Data
import Tink.Worker.Data

/-!
# Workflow data between actions

The data of one workflow, in the table `workflow_data` and in the files of its workers.  Before an action its worker
fetches the latest version into its file, and after it the worker sends the file back.  Here the two sides are put
together: any number of workers fetch, change their files and send them in any order; processes are restarted, and a
call fails on its way there, at the database, or on its way back.  Updates come one at a time: the server counts the
versions and inserts the next one with no other update in between.

A worker does not send a file that it takes for unchanged, by the checksum it has in memory.  In every state that can
be reached this does no harm to an action whose data are fetched and sent without a fault: what it leaves is the
latest version then, unless it differs from what was fetched in nothing but the case of letters in base 64
(`turn_stores`).
-/

namespace Tink.Handover

open Machine Worker

/-- How data get into the columns and out of them: bytes as the text of a statement, which may be no text, a text as
bytes, what a JSON column makes of a text, and the text of the metadata. -/
structure Format where
  text : Bytes → Except String String
  bytes : String → Bytes
  jsonb : String → Except String String
  marshal : WorkflowMetadata → String
  bytes_empty : bytes "" = []
  bytes_ne : ∀ t u, jsonb t = .ok u → bytes u ≠ []

structure System where
  rows : List Db.DataRow
  workers : String → DataState

def System.set (x : System) (w : String) (s : DataState) : System :=
  { x with workers := Function.update x.workers w s }

/-- A process starts with an empty map; the files stay. -/
def System.restart (x : System) (w : String) : System := x.set w { files := (x.workers w).files }

/-- What goes wrong with a fetch: the call, the two queries, the file. -/
structure FetchFaults where
  lost : Option String := none
  latestErr : Option String := none
  selectErr : Option String := none
  openErr : Option String := none
  writeErr : Option Nat := none

/-- What goes wrong with an update: the file, the request, the database, the answer. -/
structure UpdateFaults where
  openErr : Option String := none
  readErr : Option Nat := none
  statErr : Option String := none
  requestLost : Bool := false
  db : Db.DataEnv := {}
  answerLost : Bool := false
  now : GoTime.Time := 0

inductive Move where
  | fetch (w : String) (faults : FetchFaults)
  /-- An action, or something else, leaves the file with this content, or removes it. -/
  | write (w : String) (content : Option Bytes)
  | update (w task action : String) (faults : UpdateFaults)
  | restart (w : String)

section

variable (cfg : DataConfig) (fmt : Format) (keep : Nat) (wfID : String)

/-- What `GetWorkflowData` returns to a worker. -/
def System.answer (x : System) (faults : FetchFaults) : Except String Bytes :=
  match faults.lost with
  | some e => .error e
  | none =>
    if wfID = "" then .error errInvalidWorkflowID
    else (Db.getfromWfDataTable faults.latestErr faults.selectErr x.rows wfID 0).map fmt.bytes

def System.fetch (x : System) (w : String) (faults : FetchFaults) : System :=
  match getWorkflowData ⟨x.answer fmt wfID faults, faults.openErr, faults.writeErr⟩ (x.workers w) wfID with
  | some s => x.set w s
  | none => x.restart w

/-- The table after `UpdateWorkflowData`, with no other call at work on it, and whether the worker gets an answer
without an error. -/
def serve (faults : UpdateFaults) (rows : List Db.DataRow) (req : UpdateWorkflowDataRequest) :
    List Db.DataRow × Bool :=
  match faults.requestLost, fmt.text req.data with
  | true, _ => (rows, false)
  | false, .error _ => (rows, false)
  | false, .ok data =>
    match Db.updateWorkflowData fmt.jsonb keep faults.db rows ⟨req.workflowId, fmt.marshal req.metadata, data⟩ with
    | .error _ => (rows, false)
    | .ok rows' => (rows', !faults.answerLost)

/-- The status that `updateWorkflowData` is given. -/
def finished (w task action : String) : WorkflowActionStatus where
  workflowId := wfID
  taskName := task
  actionName := action
  actionStatus := .success
  workerId := w

def System.update (x : System) (w task action : String) (faults : UpdateFaults) : System :=
  let env : UpdateEnv :=
    { openErr := faults.openErr, readErr := faults.readErr, statErr := faults.statErr, now := faults.now }
  let res := updateWorkflowData cfg env (x.workers w) (finished wfID w task action)
  match res.request with
  | none => if res.exited then x.restart w else x.set w res.state
  | some req =>
    -- without an answer the process exits
    match serve fmt keep faults x.rows req with
    | (rows, true) => { x with rows := rows }.set w res.state
    | (rows, false) => { x with rows := rows }.set w { files := res.state.files }

def System.step (x : System) : Move → System
  | .fetch w faults => x.fetch fmt wfID w faults
  | .write w content => x.set w { x.workers w with files := Function.update (x.workers w).files wfID content }
  | .update w task action faults => x.update cfg fmt keep wfID w task action faults
  | .restart w => x.restart w

end

variable {cfg : DataConfig} {fmt : Format} {keep : Nat} {wfID : String} {id : Pg.UUID} {x : System}
  {own : List (String × String)} {w : String}

/-! ### Reachable states -/

/-- The versions in the table are those of `own`, and no process knows any data while there are none. -/
structure Inv (fmt : Format) (keep : Nat) (wfID : String) (id : Pg.UUID) (own : List (String × String)) (x : System) :
    Prop where
  rows : Db.rowsOf id x.rows = Db.window id keep own
  texts : ∀ e ∈ own, fmt.bytes e.2 ≠ []
  unknown : own = [] → ∀ w, (x.workers w).workflowDataSHA wfID = none

/-- The version a fetch gets. -/
def latest (own : List (String × String)) : String := (own.getLast?.map Prod.snd).getD ""

private theorem getfromWfDataTable_latest {rows : List Db.DataRow} (h : Db.rowsOf id rows = Db.window id keep own)
    (hid : Pg.UUID.ofString? wfID = some id) (hkeep : 1 ≤ keep) (hlt : own.length < 2 ^ 31) :
    Db.getfromWfDataTable none none rows wfID 0 = .ok (latest own) := by
  have hlen : (Db.rowsOf id rows).length = own.length := by rw [h, Db.length_window]
  rw [Db.getfromWfDataTable, Db.getColumn_latest hid (by omega), hlen, h]
  rcases own.eq_nil_or_concat with rfl | ⟨own, e, rfl⟩
  · rfl
  · have hget : (own ++ [e])[own.length]? = some e := by simp
    have hin : (own ++ [e]).length < own.length + 1 + keep := by simp; omega
    have hcast : ((own ++ [e]).length : Int) = (own.length : Int) + 1 := by simp
    rw [List.concat_eq_append, hcast, Db.find?_window hget, if_pos hin, latest, List.getLast?_concat]
    rfl

private theorem System.set_workers_self (x : System) (w : String) (s : DataState) : (x.set w s).workers w = s :=
  Function.update_self ..

private theorem Inv.set (h : Inv fmt keep wfID id own x) {s : DataState}
    (hs : own = [] → (x.workers w).workflowDataSHA wfID = none → s.workflowDataSHA wfID = none) :
    Inv fmt keep wfID id own (x.set w s) := by
  refine ⟨h.rows, h.texts, fun hnil v => ?_⟩
  show (Function.update x.workers w s v).workflowDataSHA wfID = none
  by_cases hv : v = w
  · rw [hv, Function.update_self]
    exact hs hnil (h.unknown hnil w)
  · rw [Function.update_of_ne hv]
    exact h.unknown hnil v

private theorem Inv.restart (h : Inv fmt keep wfID id own x) (w : String) : Inv fmt keep wfID id own (x.restart w) :=
  h.set fun _ _ => rfl

/-- Without a version a fetch gets nothing, whatever goes wrong. -/
private theorem Inv.answer_nil (h : Inv fmt keep wfID id [] x) (hid : Pg.UUID.ofString? wfID = some id)
    (faults : FetchFaults) :
    (x.answer fmt wfID faults).toOption.getD [] = [] := by
  have hrows : Db.rowsOf id x.rows = [] := h.rows
  have hcount : Db.getLatestVersionWfData none x.rows wfID = .ok 0 := by
    rw [Db.getLatestVersionWfData_ok hid (by rw [hrows]; decide), hrows]
    rfl
  have hselect : ∀ version, Db.selectVersion x.rows id version = none := by
    intro version
    rw [Db.selectVersion_eq, hrows]
    rfl
  unfold System.answer
  split
  · rfl
  · split
    · rfl
    · rw [Db.getfromWfDataTable, Db.getColumn, if_pos rfl]
      cases faults.latestErr with
      | some e => rfl
      | none =>
        rw [hcount, Db.uuidColumn_eq_ok.2 hid]
        cases faults.selectErr with
        | some e => exact fmt.bytes_empty
        | none =>
          show fmt.bytes (((Db.selectVersion x.rows id 0).map _).getD "") = []
          rw [hselect]
          exact fmt.bytes_empty

private theorem Inv.fetch (h : Inv fmt keep wfID id own x) (hid : Pg.UUID.ofString? wfID = some id) (w : String)
    (faults : FetchFaults) : Inv fmt keep wfID id own (x.fetch fmt wfID w faults) := by
  unfold System.fetch
  split
  · rename_i s hs
    refine h.set fun hnil hsha => ?_
    subst hnil
    unfold getWorkflowData at hs
    rw [if_pos (h.answer_nil hid faults)] at hs
    cases hs
    exact hsha
  · exact h.restart w

/-- A call that is acknowledged has stored its columns. -/
private theorem stored_of_ok {jsonb : String → Except String String} {maxVersions : Int} {env : Db.DataEnv}
    {rows rows' : List Db.DataRow} {req : Db.UpdateWorkflowDataRequest}
    (hreq : Pg.UUID.ofString? req.workflowId = some id)
    (h : Db.updateWorkflowData jsonb maxVersions env rows req = .ok rows') :
    ∃ e, Db.stored jsonb id (env, req) = some e := by
  unfold Db.updateWorkflowData at h
  split at h
  · cases h
  · split at h
    · cases h
    · rename_i hins
      obtain ⟨version, hcount, hins⟩ := Db.except_bind_eq_ok.1 hins
      have hc : env.countErr = none := by
        cases he : env.countErr with
        | none => rfl
        | some e => rw [he] at hcount; cases hcount
      obtain ⟨ht, id', e, hcols, -⟩ := Db.insertVersion_eq_ok hins
      have hid := Db.dataColumns_uuid hcols
      rw [hreq] at hid
      cases hid
      exact ⟨e, Db.stored_eq_some.2 ⟨hc, ht, hcols⟩⟩

private theorem jsonb_of_stored {env : Db.DataEnv} {req : Db.UpdateWorkflowDataRequest} {e : String × String}
    (h : Db.stored fmt.jsonb id (env, req) = some e) : fmt.jsonb req.data = .ok e.2 := by
  obtain ⟨-, -, hcols⟩ := Db.stored_eq_some.1 h
  obtain ⟨u, -, hcols⟩ := Db.except_bind_eq_ok.1 hcols
  obtain ⟨m, -, hcols⟩ := Db.except_bind_eq_ok.1 hcols
  obtain ⟨d, hd, hcols⟩ := Db.except_bind_eq_ok.1 hcols
  cases hcols
  exact hd

/-- What a call stores becomes the last version. -/
private theorem Inv.stored (h : Inv fmt keep wfID id own x) (hkeep : 1 ≤ keep) (hlt : keep < 2 ^ 31)
    (hown : own.length + 1 < 2 ^ 31) {call : Db.DataEnv × Db.UpdateWorkflowDataRequest} {e : String × String}
    (he : Db.stored fmt.jsonb id call = some e) :
    ∃ rows, Db.updateWorkflowData fmt.jsonb keep call.1 x.rows call.2 = .ok rows ∧
      Db.rowsOf id rows = Db.window id keep (own ++ [e]) := by
  have hlen : (Db.rowsOf id x.rows).length = own.length := by rw [h.rows, Db.length_window]
  obtain ⟨rows, hok, hwindow⟩ := Db.updateWorkflowData_of_stored keep he (t := x.rows) (by omega)
  refine ⟨rows, hok, ?_⟩
  rw [hwindow, hlen, h.rows]
  exact (Db.window_concat hkeep hlt own hown e).symm

/-- A request adds a version, or does nothing and is not answered. -/
private theorem Inv.serve_cases (h : Inv fmt keep wfID id own x) (hkeep : 1 ≤ keep) (hlt : keep < 2 ^ 31)
    (hown : own.length + 1 < 2 ^ 31) (faults : UpdateFaults) {req : UpdateWorkflowDataRequest}
    (hreq : Pg.UUID.ofString? req.workflowId = some id) :
    serve fmt keep faults x.rows req = (x.rows, false) ∨
      ∃ rows e ack, serve fmt keep faults x.rows req = (rows, ack) ∧ fmt.bytes e.2 ≠ [] ∧
        Db.rowsOf id rows = Db.window id keep (own ++ [e]) := by
  unfold serve
  split
  · left; rfl
  · left; rfl
  · rename_i data _ _
    split
    · left; rfl
    · rename_i rows hrows
      right
      obtain ⟨e, he⟩ := stored_of_ok (show Pg.UUID.ofString? req.workflowId = some id from hreq) hrows
      obtain ⟨rows', hok, hwindow⟩ := h.stored hkeep hlt hown he
      rw [hrows] at hok
      cases hok
      exact ⟨rows, e, _, rfl, fmt.bytes_ne _ _ (jsonb_of_stored he), hwindow⟩

/-- All that `updateWorkflowData` can do: exit, find nothing new, send a request. -/
private theorem updated_cases (cfg : DataConfig) (env : UpdateEnv) (s : DataState) (st : WorkflowActionStatus) :
    ((updateWorkflowData cfg env s st).request = none ∧ ((updateWorkflowData cfg env s st).exited = true ∨
        (updateWorkflowData cfg env s st).state.workflowDataSHA = s.workflowDataSHA)) ∨
      ∃ req, (updateWorkflowData cfg env s st).request = some req ∧ req.workflowId = st.workflowId := by
  rcases updateWorkflowData_cases cfg env s st with ⟨-, h⟩ | ⟨-, -, h⟩ | ⟨-, -, -, h⟩ | ⟨-, -, -, h⟩
  · rw [h]; left; exact ⟨rfl, Or.inl rfl⟩
  · rw [h]; left; exact ⟨rfl, Or.inr rfl⟩
  · rw [h]; right; exact ⟨_, rfl, rfl⟩
  · rw [h]; right; exact ⟨_, rfl, rfl⟩

/-- With one more version in the table it does not matter what the processes know. -/
private theorem Inv.version (h : Inv fmt keep wfID id own x) {rows : List Db.DataRow} {e : String × String}
    (hne : fmt.bytes e.2 ≠ []) (hrows : Db.rowsOf id rows = Db.window id keep (own ++ [e])) (w : String)
    (s : DataState) :
    Inv fmt keep wfID id (own ++ [e]) ({ x with rows := rows }.set w s) := by
  refine ⟨hrows, fun e' he' => ?_, fun hnil => absurd hnil (by simp)⟩
  rcases List.mem_append.1 he' with hold | hnew
  · exact h.texts e' hold
  · obtain rfl := List.mem_singleton.1 hnew
    exact hne

private theorem Inv.update (cfg : DataConfig) (h : Inv fmt keep wfID id own x)
    (hid : Pg.UUID.ofString? wfID = some id)
    (hkeep : 1 ≤ keep) (hlt : keep < 2 ^ 31) (hown : own.length + 1 < 2 ^ 31) (w task action : String)
    (faults : UpdateFaults) :
    ∃ own', own'.length ≤ own.length + 1 ∧
      Inv fmt keep wfID id own' (x.update cfg fmt keep wfID w task action faults) := by
  unfold System.update
  simp only
  rcases updated_cases cfg
      { openErr := faults.openErr, readErr := faults.readErr, statErr := faults.statErr, now := faults.now }
      (x.workers w) (finished wfID w task action) with ⟨hreq, hres⟩ | ⟨req, hreq, hwf⟩
  · rw [hreq]
    refine ⟨own, by omega, ?_⟩
    simp only
    split
    · exact h.restart w
    · rename_i hexit
      refine h.set fun _ hsha => ?_
      rw [hres.resolve_left hexit]
      exact hsha
  · rw [hreq]
    have hreqid : Pg.UUID.ofString? req.workflowId = some id := by rw [hwf]; exact hid
    rcases h.serve_cases hkeep hlt hown faults hreqid with hno | ⟨rows, e, ack, hserve, hne, hrows⟩
    · simp only [hno]
      exact ⟨own, by omega, h.set fun _ _ => rfl⟩
    · refine ⟨own ++ [e], by simp, ?_⟩
      simp only [hserve]
      cases ack with
      | false => exact h.version hne hrows _ _
      | true => exact h.version hne hrows _ _

theorem Inv.step (cfg : DataConfig) (h : Inv fmt keep wfID id own x) (hid : Pg.UUID.ofString? wfID = some id)
    (hkeep : 1 ≤ keep) (hlt : keep < 2 ^ 31) (hown : own.length + 1 < 2 ^ 31) (m : Move) :
    ∃ own', own'.length ≤ own.length + 1 ∧ Inv fmt keep wfID id own' (x.step cfg fmt keep wfID m) := by
  cases m with
  | fetch w faults => exact ⟨own, by omega, h.fetch hid w faults⟩
  | write w content => exact ⟨own, by omega, h.set fun _ hsha => hsha⟩
  | update w task action faults => exact Inv.update cfg h hid hkeep hlt hown w task action faults
  | restart w => exact ⟨own, by omega, h.restart w⟩

/-- A table without data of the workflow, and workers with some files. -/
structure Fresh (id : Pg.UUID) (x : System) : Prop where
  rows : ∀ row ∈ x.rows, row.workflowId ≠ id
  workers : ∀ w, (x.workers w).workflowDataSHA = fun _ => none

theorem inv_run (cfg : DataConfig) (fmt : Format) (h0 : Fresh id x) (hid : Pg.UUID.ofString? wfID = some id)
    (hkeep : 1 ≤ keep) (hlt : keep < 2 ^ 31) (ms : List Move) (hms : ms.length < 2 ^ 31) :
    ∃ own, own.length ≤ ms.length ∧ Inv fmt keep wfID id own (run (System.step cfg fmt keep wfID) x ms) := by
  induction ms using List.reverseRecOn with
  | nil =>
    refine ⟨[], by simp, Db.rowsOf_eq_nil h0.rows, fun e he => (by cases he), fun _ w => ?_⟩
    rw [run_nil, h0.workers w]
  | append_singleton ms m ih =>
    rw [List.length_append, List.length_singleton] at hms
    obtain ⟨own, hle, h⟩ := ih (by omega)
    obtain ⟨own', hle', h'⟩ := Inv.step cfg h hid hkeep hlt (by omega) m
    rw [run_concat]
    exact ⟨own', by simp; omega, h'⟩

/-! ### One action -/

/-- Without a latest version there is none at all. -/
private theorem Inv.latest_eq_empty (h : Inv fmt keep wfID id own x) : latest own = "" → own = [] := by
  intro hempty
  rcases own.eq_nil_or_concat with rfl | ⟨own, e, rfl⟩
  · rfl
  · rw [List.concat_eq_append, latest, List.getLast?_concat] at hempty
    have hne := h.texts e (by simp)
    rw [show e.2 = "" from hempty] at hne
    exact absurd fmt.bytes_empty hne

private theorem Inv.bytes_latest_ne (h : Inv fmt keep wfID id own x) (hne : latest own ≠ "") :
    fmt.bytes (latest own) ≠ [] := by
  rcases own.eq_nil_or_concat with rfl | ⟨own, e, rfl⟩
  · exact absurd rfl hne
  · rw [List.concat_eq_append, latest, List.getLast?_concat]
    exact h.texts e (by simp)

/-- A process after it has fetched the data `d`. -/
def fetched (wfID : String) (s : DataState) (d : Bytes) : DataState where
  files := Function.update s.files wfID (some (overwrite ((s.files wfID).getD []) d))
  workflowDataSHA := Function.update s.workflowDataSHA wfID (some (checksum d))

/-- A fetch without a fault gets the latest version, if there is one. -/
private theorem Inv.fetch_eq (h : Inv fmt keep wfID id own x) (hid : Pg.UUID.ofString? wfID = some id)
    (hkeep : 1 ≤ keep) (hlt : own.length < 2 ^ 31) (w : String) :
    x.fetch fmt wfID w {} =
      x.set w (if latest own = "" then x.workers w else fetched wfID (x.workers w) (fmt.bytes (latest own))) := by
  have hanswer : x.answer fmt wfID {} = .ok (fmt.bytes (latest own)) := by
    simp only [System.answer, if_neg (Db.ne_empty_of_ofString? hid), getfromWfDataTable_latest h.rows hid hkeep hlt]
    rfl
  have hget : getWorkflowData ⟨x.answer fmt wfID {}, none, none⟩ (x.workers w) wfID =
      some (if latest own = "" then x.workers w else fetched wfID (x.workers w) (fmt.bytes (latest own))) := by
    rw [hanswer, getWorkflowData]
    show (if fmt.bytes (latest own) = [] then _ else _) = _
    by_cases hnil : latest own = ""
    · rw [hnil, if_pos fmt.bytes_empty, if_pos rfl]
    · rw [if_neg (h.bytes_latest_ne hnil), if_neg hnil]
      simp only [DataState.openDataFile, Function.update_idem]
      rfl
  unfold System.fetch
  rw [hget]

/-- A request that meets no fault adds the version it says. -/
private theorem Inv.serve_ok (h : Inv fmt keep wfID id own x) (hkeep : 1 ≤ keep) (hlt : keep < 2 ^ 31)
    (hown : own.length + 1 < 2 ^ 31) (faults : UpdateFaults) (hreq : faults.requestLost = false)
    (hdb : faults.db = {})
    (req : UpdateWorkflowDataRequest) (hid : Pg.UUID.ofString? req.workflowId = some id) {t u m : String}
    (htext : fmt.text req.data = .ok t) (hjsonb : fmt.jsonb t = .ok u)
    (hmeta : fmt.jsonb (fmt.marshal req.metadata) = .ok m) :
    ∃ rows, serve fmt keep faults x.rows req = (rows, !faults.answerLost) ∧
      Db.rowsOf id rows = Db.window id keep (own ++ [(m, u)]) := by
  have hstored : Db.stored fmt.jsonb id (faults.db, ⟨req.workflowId, fmt.marshal req.metadata, t⟩) = some (m, u) := by
    refine Db.stored_eq_some.2 ⟨by rw [hdb], by rw [hdb], ?_⟩
    rw [Db.dataColumns, Db.uuidColumn_eq_ok.2 hid, hmeta, hjsonb]
    rfl
  obtain ⟨rows, hok, hwindow⟩ := h.stored hkeep hlt hown hstored
  exact ⟨rows, by simp only [serve, hreq, htext, hok], hwindow⟩

/-- A valid file that is sent without a fault becomes the latest version, unless the process takes it for
unchanged. -/
private theorem Inv.update_rows (h : Inv fmt keep wfID id own x) (hid : Pg.UUID.ofString? wfID = some id)
    (hkeep : 1 ≤ keep)
    (hlt : keep < 2 ^ 31) (hown : own.length + 1 < 2 ^ 31) {task action : String} {now : GoTime.Time} {c : Bytes}
    {t u : String} (hfile : (x.workers w).files wfID = some c) (hjson : cfg.unmarshals c = true)
    (hsize : (c.length : Int) ≤ cfg.maxSize) (htext : fmt.text c = .ok t) (hjsonb : fmt.jsonb t = .ok u)
    (hmeta : ∀ sha, ∃ m, fmt.jsonb (fmt.marshal ⟨w, action, task, now, sha⟩) = .ok m) :
    Db.rowsOf id (x.update cfg fmt keep wfID w task action { now := now }).rows = Db.window id keep own ∧
        (∃ sha, (x.workers w).workflowDataSHA wfID = some sha ∧ Base64.equalFold sha (checksum c) = true) ∨
      (∃ m, Db.rowsOf id (x.update cfg fmt keep wfID w task action { now := now }).rows =
          Db.window id keep (own ++ [(m, u)])) ∧
        ∀ sha, (x.workers w).workflowDataSHA wfID = some sha → Base64.equalFold sha (checksum c) = false := by
  have hvalid : isValidDataFile cfg none c.length c = true := by
    simp [isValidDataFile, hjson, hsize]
  -- whatever the map has, the request is the same
  have hsent : ∀ s', updateWorkflowData cfg { now := now } (x.workers w) (finished wfID w task action) =
      sendUpdate { now := now } s' (finished wfID w task action) c (checksum c) →
      ∃ m, Db.rowsOf id (x.update cfg fmt keep wfID w task action { now := now }).rows =
        Db.window id keep (own ++ [(m, u)]) := by
    intro s' hres
    obtain ⟨m, hm⟩ := hmeta (checksum c)
    obtain ⟨rows, hserve, hrows⟩ := h.serve_ok hkeep hlt hown { now := now } rfl rfl
      ⟨wfID, c, ⟨w, action, task, now, checksum c⟩⟩ hid htext hjsonb hm
    have hreq : (updateWorkflowData cfg { now := now } (x.workers w) (finished wfID w task action)).request =
        some ⟨wfID, c, ⟨w, action, task, now, checksum c⟩⟩ := by rw [hres]; rfl
    refine ⟨m, ?_⟩
    simp only [System.update, hreq, hserve]
    exact hrows
  have hwf : (finished wfID w task action).workflowId = wfID := rfl
  have hread : readAll none (((x.workers w).files wfID).getD []) = c := by rw [hfile]; rfl
  have hcontent : ((x.workers w).files wfID).getD [] = c := by rw [hfile]; rfl
  rcases updateWorkflowData_cases cfg { now := now } (x.workers w) (finished wfID w task action) with
    ⟨hopen, -⟩ | ⟨-, hsame, hres⟩ | ⟨-, -, hsha, hres⟩ | ⟨-, -, ⟨sha, hsha, hfold⟩, hres⟩
  · exact absurd rfl hopen
  · left
    rcases hsame with hinvalid | ⟨sha, hsha, hfold⟩
    · rw [hwf, hread, hcontent, hvalid] at hinvalid
      cases hinvalid
    · rw [hwf, hread] at hfold
      refine ⟨?_, sha, hsha, hfold⟩
      simp only [System.update, hres]
      exact h.rows
  · right
    rw [hwf, hread] at hres
    refine ⟨hsent _ hres, fun sha hsome => ?_⟩
    rw [show (x.workers w).workflowDataSHA wfID = none from hsha] at hsome
    cases hsome
  · right
    rw [hwf, hread] at hres hfold
    refine ⟨hsent _ hres, fun sha' hsome => ?_⟩
    rw [show (x.workers w).workflowDataSHA wfID = some sha from hsha] at hsome
    cases hsome
    exact hfold

/-- Data are fetched for an action, which leaves the file with the content `c`, and the file is sent. -/
def turn (w task action : String) (c : Bytes) (now : GoTime.Time) : List Move :=
  [.fetch w {}, .write w (some c), .update w task action { now := now }]

/-- After any run of any number of workers, with whatever faults and restarts, of fewer than `2 ^ 31` moves: an action
is given the latest version, over what its worker's file had, and what it leaves is the latest version afterwards,
unless it is alike to what was fetched. -/
theorem turn_stores (cfg : DataConfig) (fmt : Format) (hkeep : 1 ≤ keep) (hlt : keep < 2 ^ 31)
    (hid : Pg.UUID.ofString? wfID = some id) (h0 : Fresh id x) (ms : List Move) (hms : ms.length + 1 < 2 ^ 31)
    (w task action : String) (now : GoTime.Time) {c : Bytes} {t u : String} (hjson : cfg.unmarshals c = true)
    (hsize : (c.length : Int) ≤ cfg.maxSize) (htext : fmt.text c = .ok t) (hjsonb : fmt.jsonb t = .ok u)
    (hmeta : ∀ sha, ∃ m, fmt.jsonb (fmt.marshal ⟨w, action, task, now, sha⟩) = .ok m) :
    ∃ d, Db.getfromWfDataTable none none (run (System.step cfg fmt keep wfID) x ms).rows wfID 0 = .ok d ∧
      ((run (System.step cfg fmt keep wfID) x (ms ++ [.fetch w {}])).workers w).files wfID =
        (if d = "" then ((run (System.step cfg fmt keep wfID) x ms).workers w).files wfID
        else some (overwrite ((((run (System.step cfg fmt keep wfID) x ms).workers w).files wfID).getD [])
          (fmt.bytes d))) ∧
      Db.getfromWfDataTable none none (run (System.step cfg fmt keep wfID) x (ms ++ turn w task action c now)).rows
        wfID 0 =
        .ok (if d ≠ "" ∧ Base64.Alike (sum (fmt.bytes d)) (sum c) then d else u) := by
  obtain ⟨own, hle, h⟩ := inv_run cfg fmt h0 hid hkeep hlt ms (by omega)
  rw [run_append, run_append]
  generalize run (System.step cfg fmt keep wfID) x ms = y at h ⊢
  have hfetch := h.fetch_eq hid hkeep (by omega) w
  refine ⟨latest own, getfromWfDataTable_latest h.rows hid hkeep (by omega), ?_, ?_⟩
  · show ((y.fetch fmt wfID w {}).workers w).files wfID = _
    rw [hfetch, System.set_workers_self]
    split
    · rfl
    · exact Function.update_self ..
  · -- the state in which the file is sent
    obtain ⟨z, hz⟩ : ∃ z, run (System.step cfg fmt keep wfID) y [.fetch w {}, .write w (some c)] = z := ⟨_, rfl⟩
    have hinv : Inv fmt keep wfID id own z := hz ▸ (h.fetch hid w {}).set fun _ hsha => hsha
    have hstate : z.workers w = { (y.fetch fmt wfID w {}).workers w with
        files := Function.update ((y.fetch fmt wfID w {}).workers w).files wfID (some c) } := by
      rw [← hz]
      exact System.set_workers_self ..
    have hfile : (z.workers w).files wfID = some c := by
      rw [hstate]
      exact Function.update_self ..
    have hsha : (z.workers w).workflowDataSHA wfID =
        if latest own = "" then none else some (checksum (fmt.bytes (latest own))) := by
      rw [hstate, hfetch, System.set_workers_self]
      split
      · rename_i hnil
        exact h.unknown (h.latest_eq_empty hnil) w
      · exact Function.update_self ..
    have hrun : run (System.step cfg fmt keep wfID) y (turn w task action c now) =
        z.update cfg fmt keep wfID w task action { now := now } := by
      rw [← hz]
      rfl
    rw [hrun]
    rcases hinv.update_rows hid hkeep hlt (by omega) hfile hjson hsize htext hjsonb hmeta with
      ⟨hrows, sha, hsome, hfold⟩ | ⟨⟨m, hrows⟩, hnew⟩
    · rw [hsha] at hsome
      split at hsome
      · cases hsome
      · rename_i hne
        cases hsome
        rw [getfromWfDataTable_latest hrows hid hkeep (by omega), if_pos ⟨hne, (Base64.equalFold_encode _ _).1 hfold⟩]
    · rw [getfromWfDataTable_latest hrows hid hkeep (by simp; omega), latest, List.getLast?_concat, if_neg]
      · rfl
      · rintro ⟨hne, halike⟩
        rw [hsha, if_neg hne] at hnew
        have hfold := hnew _ rfl
        rw [checksum, checksum, (Base64.equalFold_encode _ _).2 halike] at hfold
        cases hfold

/-- Data in ASCII, of which a column takes every text but the empty one. -/
def ascii : Format where
  text data := .ok (String.ofList (data.map fun b => Char.ofNat b.toNat))
  bytes t := t.toList.map fun c => UInt8.ofNat c.toNat
  jsonb t := if t = "" then .error "pq: invalid input syntax for type json" else .ok t
  marshal _ := "null"
  bytes_empty := rfl
  bytes_ne := by
    intro t u h
    split at h
    · cases h
    · rename_i hne
      cases h
      simpa using hne

/-- A second worker, after a first one that was started again. -/
theorem turn_stores_second_worker :
    ∃ d, Db.getfromWfDataTable none none (run (System.step sampleLimits ascii 1 Db.sampleID.toString)
        ⟨[], fun _ => { files := fun _ => none }⟩ (turn "m1" "os" "stream" sampleUpper 0 ++ [.restart "m1"])).rows
          Db.sampleID.toString 0 = .ok d ∧
      Db.getfromWfDataTable none none (run (System.step sampleLimits ascii 1 Db.sampleID.toString)
        ⟨[], fun _ => { files := fun _ => none }⟩ (turn "m1" "os" "stream" sampleUpper 0 ++ [.restart "m1"] ++
          turn "m2" "os" "boot" sampleBraces 1)).rows Db.sampleID.toString 0 =
        .ok (if d ≠ "" ∧ Base64.Alike (sum (ascii.bytes d)) (sum sampleBraces) then d else "\x7b\x7d") := by
  have h0 : Fresh Db.sampleID ⟨[], fun _ => { files := fun _ => none }⟩ := ⟨fun _ h => (by cases h), fun _ => rfl⟩
  obtain ⟨d, hd, -, hafter⟩ := turn_stores sampleLimits ascii (le_refl 1) (by decide)
    (Pg.UUID.ofString?_toString Db.sampleID) h0 (turn "m1" "os" "stream" sampleUpper 0 ++ [.restart "m1"]) (by decide)
    "m2" "os" "boot" 1 (show sampleLimits.unmarshals sampleBraces = true by decide) (by decide) rfl rfl
    fun _ => ⟨_, rfl⟩
  exact ⟨d, hd, hafter⟩

end Tink.Handover
