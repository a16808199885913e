import Tink.Db.Server

/-!
# Workflow data

The table `workflow_data` and the functions of `TinkDB` on it (`db/workflow.go`).  A row is a version of the data of a
workflow.  The number of a version is one more than the number of rows counted before it is inserted, and the
insertion clears the data of the version `maxVersions` before it; the metadata stays.

What a JSON column makes of a text is a parameter, `jsonb`: it rejects the text, or holds some normal form of it.

Used by one client after the other, the rows of a workflow are determined by the calls stored for it (`rowsOf_run`),
and the queries return what can be read off them (`retained`).
-/

namespace Tink.Db

open Pg Machine

/-- A row of `workflow_data`. -/
structure DataRow where
  workflowId : UUID
  version : Int
  metadata : String
  data : Option String
deriving DecidableEq

/-- `pb.UpdateWorkflowDataRequest`. -/
structure UpdateWorkflowDataRequest where
  workflowId : String
  metadata : String
  data : String

/-- The errors the database answers with during one `UpdateWorkflowData`. -/
structure DataEnv where
  countErr : Option String := none
  txErr : Option String := none

/-- The conversion to `int32`. -/
def int32 (n : Int) : Int := Int.bmod n (2 ^ 32)

/-- `SELECT COUNT(*)`, scanned into an `int32`. -/
def getLatestVersionWfData (failure : Option String) (t : List DataRow) (wfID : String) : Except String Int :=
  match failure with
  | some e => .error e
  | none => do
    let id ← uuidColumn wfID
    let version : Int := t.countP fun row => row.workflowId = id
    if isInt version then pure version
    else .error "sql: Scan error on column index 0, name \"count\": value out of range"

def getWorkflowDataVersion (failure : Option String) (t : List DataRow) (wfID : String) : Except String Int :=
  getLatestVersionWfData failure t wfID

/-- `UPDATE workflow_data SET data = NULL WHERE …`. -/
def clearVersion (id : UUID) (version : Int) (t : List DataRow) : List DataRow :=
  t.map fun row => if row.workflowId = id ∧ row.version = version then { row with data := none } else row

/-- The row of a workflow and a version, of which a query takes one column. -/
def selectVersion (t : List DataRow) (id : UUID) (version : Int) : Option DataRow :=
  t.find? fun row => row.workflowId = id ∧ row.version = version

/-- A query for a column of one version, the latest for version 0.  An error of the second query is logged. -/
def getColumn (column : DataRow → String) (latestErr selectErr : Option String) (t : List DataRow) (wfID : String)
    (version : Int) : Except String String := do
  let version ← if version = 0 then getLatestVersionWfData latestErr t wfID else pure version
  match selectErr, uuidColumn wfID with
  | none, .ok id => pure (((selectVersion t id version).map column).getD "")
  | _, _ => pure ""

/-- `GetfromWfDataTable`; a cleared column is read as empty. -/
def getfromWfDataTable : Option String → Option String → List DataRow → String → Int → Except String String :=
  getColumn fun row => row.data.getD ""

def getWorkflowMetadata : Option String → Option String → List DataRow → String → Int → Except String String :=
  getColumn DataRow.metadata

section

variable (jsonb : String → Except String String) (maxVersions : Int)

/-- The columns of the `INSERT`, apart from the version. -/
def dataColumns (req : UpdateWorkflowDataRequest) : Except String (UUID × String × String) := do
  let id ← uuidColumn req.workflowId
  let metadata ← jsonb req.metadata
  let data ← jsonb req.data
  pure (id, metadata, data)

/-- The transaction of `InsertIntoWfDataTable`. -/
def insertVersion (failure : Option String) (t : List DataRow) (req : UpdateWorkflowDataRequest) (version : Int) :
    Except String (List DataRow) :=
  match failure, dataColumns jsonb req with
  | some e, _ => .error e
  | none, .error e => .error ("INSERT Into workflow_data: " ++ e)
  | none, .ok (id, metadata, data) =>
    let t := t ++ [⟨id, version, metadata, some data⟩]
    if int32 maxVersions < version then .ok (clearVersion id (int32 (version - int32 maxVersions)) t) else .ok t

def insertIntoWfDataTable (env : DataEnv) (t : List DataRow) (req : UpdateWorkflowDataRequest) :
    Except String (List DataRow) := do
  let version ← getLatestVersionWfData env.countErr t req.workflowId
  insertVersion jsonb maxVersions env.txErr t req (int32 (version + 1))

/-- `DBServer.UpdateWorkflowData`. -/
def updateWorkflowData (env : DataEnv) (t : List DataRow) (req : UpdateWorkflowDataRequest) :
    Except GrpcStatus (List DataRow) :=
  if req.workflowId = "" then .error ⟨.invalidArgument, errInvalidWorkflowID⟩
  else
    match insertIntoWfDataTable jsonb maxVersions env t req with
    | .error e => .error (abortedStatus e)
    | .ok t' => .ok t'

/-- The table after a call. -/
def dataStep (t : List DataRow) (call : DataEnv × UpdateWorkflowDataRequest) : List DataRow :=
  match updateWorkflowData jsonb maxVersions call.1 t call.2 with
  | .ok t' => t'
  | .error _ => t

end

/-! ### The rows of one workflow -/

/-- The rows of the workflow `id`, in the order of their insertion. -/
def rowsOf (id : UUID) (t : List DataRow) : List DataRow := t.filter fun row => row.workflowId = id

variable {jsonb : String → Except String String} {maxVersions : Int} {t t' : List DataRow} {id : UUID} {wfID : String}

private theorem rowsOf_append (t t' : List DataRow) : rowsOf id (t ++ t') = rowsOf id t ++ rowsOf id t' :=
  List.filter_append ..

private theorem rowsOf_clearVersion (id' : UUID) (version : Int) (t : List DataRow) :
    rowsOf id (clearVersion id' version t) = clearVersion id' version (rowsOf id t) := by
  rw [rowsOf, clearVersion, List.filter_map, clearVersion, rowsOf]
  congr 2
  funext row
  rw [Function.comp_apply]
  split <;> rfl

theorem rowsOf_eq_nil (h : ∀ row ∈ t, row.workflowId ≠ id) : rowsOf id t = [] := by
  rw [rowsOf, List.filter_eq_nil_iff]
  intro row hrow
  simpa using h row hrow

/-- Clearing a version of another workflow does nothing to the rows of this one. -/
private theorem rowsOf_clearVersion_of_ne {id' : UUID} (h : id' ≠ id) (version : Int) (t : List DataRow) :
    rowsOf id (clearVersion id' version t) = rowsOf id t := by
  rw [rowsOf_clearVersion, clearVersion]
  conv_rhs => rw [← List.map_id (rowsOf id t)]
  refine List.map_congr_left fun row hrow => ?_
  have hid : row.workflowId = id := by simpa [rowsOf] using (List.mem_filter.1 hrow).2
  rw [if_neg (fun hc => h (hc.1.symm.trans hid)), id_eq]

private theorem int32_eq_self {n : Int} (hlo : -2147483648 ≤ n) (hhi : n < 2147483648) : int32 n = n := by
  rw [int32, Int.bmod_def]
  split <;> omega

/-- The rows of a workflow with a version inserted. -/
def withVersion (id : UUID) (maxVersions version : Int) (e : String × String) (rows : List DataRow) : List DataRow :=
  let rows := rows ++ [⟨id, version, e.1, some e.2⟩]
  if int32 maxVersions < version then clearVersion id (int32 (version - int32 maxVersions)) rows else rows

/-- What the transaction does: it inserts a version for the workflow of the request, and leaves the others alone. -/
theorem insertVersion_eq_ok {failure : Option String} {req : UpdateWorkflowDataRequest} {version : Int}
    (h : insertVersion jsonb maxVersions failure t req version = .ok t') :
    failure = none ∧ ∃ id' e, dataColumns jsonb req = .ok (id', e) ∧
      ∀ id, rowsOf id t' = if id' = id then withVersion id maxVersions version e (rowsOf id t) else rowsOf id t := by
  unfold insertVersion at h
  split at h
  · cases h
  · cases h
  · rename_i id' metadata data hcols
    refine ⟨rfl, id', (metadata, data), hcols, fun id => ?_⟩
    have hrows : rowsOf id (t ++ [⟨id', version, metadata, some data⟩]) =
        if id' = id then rowsOf id t ++ [⟨id, version, metadata, some data⟩] else rowsOf id t := by
      rw [rowsOf_append]
      split
      · rename_i hid
        subst hid
        simp [rowsOf]
      · rename_i hid
        simp [rowsOf, hid]
    split at h
    · rename_i hclear
      cases h
      by_cases hid : id' = id
      · subst hid
        rw [rowsOf_clearVersion, hrows, if_pos rfl, if_pos rfl, withVersion, if_pos hclear]
      · rw [rowsOf_clearVersion_of_ne hid, hrows, if_neg hid, if_neg hid]
    · rename_i hkeep
      cases h
      rw [hrows]
      split
      · rw [withVersion, if_neg hkeep]
      · rfl

theorem insertVersion_ok (maxVersions : Int) {req : UpdateWorkflowDataRequest} {id' : UUID} {e : String × String}
    (hcols : dataColumns jsonb req = .ok (id', e)) (t : List DataRow) (version : Int) :
    ∃ t', insertVersion jsonb maxVersions none t req version = .ok t' := by
  unfold insertVersion
  rw [hcols]
  simp only
  split
  · exact ⟨_, rfl⟩
  · exact ⟨_, rfl⟩

/-- The count of a workflow is the number of its rows, if there are fewer than `2 ^ 31`. -/
theorem getLatestVersionWfData_eq_ok {failure : Option String} {version : Int} (hid : UUID.ofString? wfID = some id) :
    getLatestVersionWfData failure t wfID = .ok version ↔
      failure = none ∧ (rowsOf id t).length < 2 ^ 31 ∧ version = (rowsOf id t).length := by
  have hcount : (t.countP fun row => row.workflowId = id) = (rowsOf id t).length := List.countP_eq_length_filter
  have hint : isInt ((rowsOf id t).length : Int) = true ↔ (rowsOf id t).length < 2 ^ 31 := by
    rw [isInt, decide_eq_true_eq]
    omega
  cases failure with
  | some e => simp [getLatestVersionWfData]
  | none =>
    rw [getLatestVersionWfData]
    simp only [uuidColumn_eq_ok.2 hid, bind, Except.bind, hcount]
    by_cases hlt : (rowsOf id t).length < 2 ^ 31
    · rw [if_pos (hint.2 hlt)]
      constructor
      · intro h
        cases h
        exact ⟨trivial, hlt, rfl⟩
      · rintro ⟨-, -, rfl⟩
        rfl
    · rw [if_neg fun h => hlt (hint.1 h)]
      exact iff_of_false (by simp) fun h => hlt h.2.1

theorem getLatestVersionWfData_ok (hid : UUID.ofString? wfID = some id) (hlt : (rowsOf id t).length < 2 ^ 31) :
    getLatestVersionWfData none t wfID = .ok ((rowsOf id t).length : Int) :=
  (getLatestVersionWfData_eq_ok hid).2 ⟨rfl, hlt, rfl⟩

/-- A version is looked up among the rows of its workflow. -/
theorem selectVersion_eq (t : List DataRow) (version : Int) :
    selectVersion t id version = (rowsOf id t).find? fun row => row.version = version := by
  rw [selectVersion, rowsOf, List.find?_filter]
  congr 1
  funext row
  simp

private theorem getColumn_eq {column : DataRow → String} {version : Int} (hid : UUID.ofString? wfID = some id)
    (h0 : version ≠ 0) :
    getColumn column none none t wfID version =
      .ok ((((rowsOf id t).find? fun row => row.version = version).map column).getD "") := by
  rw [← selectVersion_eq, getColumn, if_neg h0]
  simp only [uuidColumn_eq_ok.2 hid, bind, Except.bind, pure, Except.pure]

theorem getColumn_latest {column : DataRow → String} (hid : UUID.ofString? wfID = some id)
    (hlt : (rowsOf id t).length < 2 ^ 31) :
    getColumn column none none t wfID 0 =
      .ok ((((rowsOf id t).find? fun row => row.version = ((rowsOf id t).length : Int)).map column).getD "") := by
  rw [← selectVersion_eq, getColumn, if_pos rfl, getLatestVersionWfData_ok hid hlt]
  simp only [uuidColumn_eq_ok.2 hid, bind, Except.bind, pure, Except.pure]

/-! ### One call after the other -/

/-- What a call stores for the workflow `id`: the metadata and the data as the columns hold them. -/
def stored (jsonb : String → Except String String) (id : UUID) (call : DataEnv × UpdateWorkflowDataRequest) :
    Option (String × String) :=
  match call.1.countErr, call.1.txErr, dataColumns jsonb call.2 with
  | none, none, .ok (id', e) => if id' = id then some e else none
  | _, _, _ => none

/-- The rows of a workflow for which the elements of `own` were stored, with the data of the last `keep` of them. -/
def window (id : UUID) (keep : Nat) (own : List (String × String)) : List DataRow :=
  own.mapIdx fun i e => ⟨id, (i : Int) + 1, e.1, if own.length < i + 1 + keep then some e.2 else none⟩

theorem length_window (id : UUID) (keep : Nat) (own : List (String × String)) :
    (window id keep own).length = own.length := List.length_mapIdx

private theorem getElem?_window (id : UUID) (keep : Nat) (own : List (String × String)) (i : Nat) :
    (window id keep own)[i]? =
      own[i]?.map fun e => ⟨id, (i : Int) + 1, e.1, if own.length < i + 1 + keep then some e.2 else none⟩ :=
  List.getElem?_mapIdx

/-- The window after one more element. -/
theorem window_concat {keep : Nat} (hkeep : 1 ≤ keep) (hlt : keep < 2 ^ 31) (own : List (String × String))
    (hown : own.length + 1 < 2 ^ 31) (e : String × String) :
    window id keep (own ++ [e]) = withVersion id keep ((own.length : Int) + 1) e (window id keep own) := by
  have hint : int32 keep = keep := int32_eq_self (by omega) (by omega)
  have hclean : int32 ((own.length : Int) + 1 - keep) = (own.length : Int) + 1 - keep :=
    int32_eq_self (by omega) (by omega)
  have hsplit : window id keep (own ++ [e]) =
      (own.mapIdx fun i e => ⟨id, (i : Int) + 1, e.1, if own.length + 1 < i + 1 + keep then some e.2 else none⟩) ++
        [⟨id, (own.length : Int) + 1, e.1, some e.2⟩] := by
    rw [window, List.mapIdx_append, List.length_append]
    simp
    omega
  rw [hsplit, withVersion, hint, hclean]
  by_cases hfull : (keep : Int) < (own.length : Int) + 1
  · -- the version that is cleared is the one that falls out of the window
    rw [if_pos hfull, clearVersion, List.map_append]
    refine congrArg₂ (· ++ ·) ?_ ?_
    · refine List.ext_getElem? fun i => ?_
      rw [List.getElem?_mapIdx, List.getElem?_map, getElem?_window, Option.map_map]
      refine Option.map_congr fun x _ => ?_
      simp only [Function.comp_apply, true_and]
      by_cases hi : (i : Int) + 1 = (own.length : Int) + 1 - keep
      · have hout : ¬ own.length + 1 < i + 1 + keep := by omega
        simp only [hi, hout, if_true, if_false]
      · have hsame : own.length + 1 < i + 1 + keep ↔ own.length < i + 1 + keep := by omega
        simp only [hi, hsame, if_false]
    · rw [List.map_singleton, if_neg]
      rintro ⟨-, h⟩
      have h' : (own.length : Int) + 1 = (own.length : Int) + 1 - keep := h
      omega
  · rw [if_neg hfull]
    refine congrArg (· ++ _) ?_
    refine List.ext_getElem? fun i => ?_
    rw [List.getElem?_mapIdx, getElem?_window]
    refine Option.map_congr fun x hx => ?_
    have hlt : i < own.length := (List.getElem?_eq_some_iff.1 hx).1
    have hin : own.length + 1 < i + 1 + keep ∧ own.length < i + 1 + keep := by omega
    simp only [hin, if_true]

variable {call : DataEnv × UpdateWorkflowDataRequest} {e : String × String}

theorem dataColumns_uuid {req : UpdateWorkflowDataRequest} (h : dataColumns jsonb req = .ok (id, e)) :
    UUID.ofString? req.workflowId = some id := by
  obtain ⟨u, hu, h⟩ := except_bind_eq_ok.1 h
  obtain ⟨m, -, h⟩ := except_bind_eq_ok.1 h
  obtain ⟨d, -, h⟩ := except_bind_eq_ok.1 h
  obtain rfl : u = id := congrArg Prod.fst (Except.ok.inj h)
  exact uuidColumn_eq_ok.1 hu

theorem stored_eq_some :
    stored jsonb id call = some e ↔
      call.1.countErr = none ∧ call.1.txErr = none ∧ dataColumns jsonb call.2 = .ok (id, e) := by
  unfold stored
  constructor
  · intro h
    split at h
    · rename_i id' e' hc ht hcols
      split at h
      · rename_i hid
        cases h
        exact ⟨hc, ht, by rw [hcols, hid]⟩
      · cases h
    · cases h
  · rintro ⟨hc, ht, hcols⟩
    rw [hc, ht, hcols]
    exact if_pos rfl

/-- A call that stores something is acknowledged, as long as the version fits. -/
theorem updateWorkflowData_of_stored (maxVersions : Int) (h : stored jsonb id call = some e)
    (hlt : (rowsOf id t).length + 1 < 2 ^ 31) :
    ∃ t', updateWorkflowData jsonb maxVersions call.1 t call.2 = .ok t' ∧
      rowsOf id t' = withVersion id maxVersions ((rowsOf id t).length + 1) e (rowsOf id t) := by
  obtain ⟨hc, ht, hcols⟩ := stored_eq_some.1 h
  have hid := dataColumns_uuid hcols
  have hne : call.2.workflowId ≠ "" := by
    intro hempty
    rw [hempty] at hid
    cases hid
  have hversion : int32 ((rowsOf id t).length + 1) = (rowsOf id t).length + 1 := int32_eq_self (by omega) (by omega)
  obtain ⟨t', ht'⟩ := insertVersion_ok maxVersions hcols t ((rowsOf id t).length + 1)
  obtain ⟨-, id', e', hcols', hrows⟩ := insertVersion_eq_ok ht'
  rw [hcols] at hcols'
  cases hcols'
  refine ⟨t', ?_, by rw [hrows, if_pos rfl]⟩
  rw [updateWorkflowData, if_neg hne, insertIntoWfDataTable, hc, ht, getLatestVersionWfData_ok hid (by omega)]
  simp only [bind, Except.bind, hversion, ht']

/-- A call that stores nothing for a workflow leaves its rows alone. -/
private theorem rowsOf_dataStep_of_none (h : stored jsonb id call = none) :
    rowsOf id (dataStep jsonb maxVersions t call) = rowsOf id t := by
  unfold dataStep
  split
  · rename_i t' hok
    unfold updateWorkflowData at hok
    split at hok
    · cases hok
    · split at hok
      · cases hok
      · rename_i hins
        cases hok
        obtain ⟨version, hcount, hins⟩ := except_bind_eq_ok.1 hins
        have hc : call.1.countErr = none := by
          cases he : call.1.countErr with
          | none => rfl
          | some e => rw [he] at hcount; cases hcount
        obtain ⟨ht, id', e, hcols, hrows⟩ := insertVersion_eq_ok hins
        have hne : id' ≠ id := by
          rintro rfl
          rw [stored_eq_some.2 ⟨hc, ht, hcols⟩] at h
          cases h
        rw [hrows, if_neg hne]
  · rfl

/-- The rows of a workflow after a number of calls, from a table that has none. -/
theorem rowsOf_run {keep : Nat} (hkeep : 1 ≤ keep) (hlt : keep < 2 ^ 31) (h0 : rowsOf id t = [])
    (calls : List (DataEnv × UpdateWorkflowDataRequest)) (hn : (calls.filterMap (stored jsonb id)).length < 2 ^ 31) :
    rowsOf id (run (dataStep jsonb keep) t calls) = window id keep (calls.filterMap (stored jsonb id)) := by
  induction calls using List.reverseRecOn with
  | nil => rw [run_nil, h0]; rfl
  | append_singleton calls call ih =>
    rw [List.filterMap_append, List.length_append] at hn
    have hrows := ih (by omega)
    rw [run_concat, List.filterMap_append]
    cases hs : stored jsonb id call with
    | none =>
      rw [rowsOf_dataStep_of_none hs, hrows]
      simp [hs]
    | some e =>
      have hlen : (rowsOf id (run (dataStep jsonb keep) t calls)).length =
          (calls.filterMap (stored jsonb id)).length := by
        rw [hrows, length_window]
      have hn' : (calls.filterMap (stored jsonb id)).length + 1 < 2 ^ 31 := by simpa [hs] using hn
      obtain ⟨t', hok, hrows'⟩ := updateWorkflowData_of_stored keep hs (by rw [hlen]; exact hn')
      rw [dataStep, hok, hrows', hlen, hrows]
      simp only [List.filterMap_cons, hs, List.filterMap_nil]
      exact (window_concat hkeep hlt _ hn' e).symm

theorem find?_window {keep k : Nat} {own : List (String × String)} (hget : own[k]? = some e) :
    ((window id keep own).find? fun row => row.version = (k : Int) + 1) =
      some ⟨id, (k : Int) + 1, e.1, if own.length < k + 1 + keep then some e.2 else none⟩ := by
  have hk : k < (window id keep own).length := by
    rw [length_window]
    exact (List.getElem?_eq_some_iff.1 hget).1
  rw [List.find?_eq_some_iff_getElem]
  refine ⟨by simp, k, hk, ?_, fun j hj => ?_⟩
  · have hrow := getElem?_window id keep own k
    rw [List.getElem?_eq_getElem hk, hget] at hrow
    exact Option.some.inj hrow
  · have hrow := getElem?_window id keep own j
    rw [List.getElem?_eq_getElem (by omega)] at hrow
    obtain ⟨x, -, hx⟩ := Option.map_eq_some_iff.1 hrow.symm
    rw [← hx]
    simp
    omega

private theorem find?_window_of_lt {keep : Nat} {own : List (String × String)} {k : Int}
    (h : (own.length : Int) < k) :
    ((window id keep own).find? fun row => row.version = k) = none := by
  rw [List.find?_eq_none]
  intro row hrow
  obtain ⟨j, hj⟩ := List.getElem?_of_mem hrow
  rw [getElem?_window] at hj
  obtain ⟨x, hx, rfl⟩ := Option.map_eq_some_iff.1 hj
  have := (List.getElem?_eq_some_iff.1 hx).1
  simp
  omega

/-- After any calls, of which `n` have stored something for a workflow without data, in the sequence `own`: these are
acknowledged, the latest version is `n`, the last `keep` versions have their data, the ones before and after have
none, and all versions have their metadata. -/
theorem retained (keep : Nat) (hkeep : 1 ≤ keep) (hlt : keep < 2 ^ 31) (jsonb : String → Except String String)
    (t : List DataRow) (id : UUID) (h0 : ∀ row ∈ t, row.workflowId ≠ id) (wfID : String)
    (hid : UUID.ofString? wfID = some id) (calls : List (DataEnv × UpdateWorkflowDataRequest))
    (own : List (String × String)) (hown : calls.filterMap (stored jsonb id) = own) (n : Nat) (hn : own.length = n)
    (hlen : n < 2 ^ 31) :
    let t' := run (dataStep jsonb keep) t calls
    Every (dataStep jsonb keep) (fun t call => (stored jsonb id call).isSome →
        ∃ t', updateWorkflowData jsonb keep call.1 t call.2 = .ok t') t calls ∧
      getWorkflowDataVersion none t' wfID = .ok n ∧
      (∀ e, own.getLast? = some e → getfromWfDataTable none none t' wfID 0 = .ok e.2) ∧
      (∀ (k : Nat) e, 1 ≤ k → own[k - 1]? = some e →
        getfromWfDataTable none none t' wfID k = .ok (if n < k + keep then e.2 else "") ∧
        getWorkflowMetadata none none t' wfID k = .ok e.1) ∧
      (∀ k : Int, n < k → getfromWfDataTable none none t' wfID k = .ok "") := by
  intro t'
  have hnone : rowsOf id t = [] := rowsOf_eq_nil h0
  have hrows : rowsOf id t' = window id keep own := by
    rw [← hown]
    exact rowsOf_run hkeep hlt hnone calls (by rw [hown]; omega)
  have hcount : (rowsOf id t').length = n := by rw [hrows, length_window, hn]
  have hfind : ∀ (column : DataRow → String) (k : Nat) (e : String × String), own[k]? = some e →
      getColumn column none none t' wfID ((k : Int) + 1) =
        .ok (column ⟨id, (k : Int) + 1, e.1, if n < k + 1 + keep then some e.2 else none⟩) := by
    intro column k e he
    rw [getColumn_eq hid (by omega), hrows, find?_window he, hn]
    rfl
  refine ⟨?_, ?_, ?_, ?_, ?_⟩
  · intro p call hp hs
    obtain ⟨e, hs⟩ := Option.isSome_iff_exists.1 hs
    -- the calls so far have stored fewer versions than all of them
    have hle : ((p ++ [call]).filterMap (stored jsonb id)).length ≤ n := by
      rw [← hn, ← hown]
      exact (hp.filterMap _).length_le
    rw [List.filterMap_append, List.length_append, List.filterMap_cons_some hs] at hle
    have hlen' : (rowsOf id (run (dataStep jsonb keep) t p)).length + 1 < 2 ^ 31 := by
      rw [rowsOf_run hkeep hlt hnone p (by simp at hle; omega), length_window]
      simp at hle
      omega
    obtain ⟨t'', hok, -⟩ := updateWorkflowData_of_stored keep hs hlen'
    exact ⟨t'', hok⟩
  · rw [getWorkflowDataVersion, getLatestVersionWfData_ok hid (by omega), hcount]
  · intro e he
    have hpos : 0 < n := by
      rw [← hn]
      exact List.length_pos_of_ne_nil (by rintro rfl; cases he)
    have hget : own[n - 1]? = some e := by rw [← hn, ← List.getLast?_eq_getElem?, he]
    have hcast : (((n - 1 : Nat) : Int) + 1) = n := by omega
    have hin : n < n - 1 + 1 + keep := by omega
    rw [getfromWfDataTable, getColumn_latest hid (by omega), hcount, ← hcast, hrows, find?_window hget, hn,
      if_pos hin]
    rfl
  · intro k e hk he
    have hcast : (k : Int) = ((k - 1 : Nat) : Int) + 1 := by omega
    have hk' : k - 1 + 1 + keep = k + keep := by omega
    rw [hcast, getfromWfDataTable, getWorkflowMetadata, hfind _ _ e he, hfind _ _ e he, hk']
    refine ⟨?_, rfl⟩
    split <;> rfl
  · intro k hk
    rw [getfromWfDataTable, getColumn_eq hid (by omega), hrows, find?_window_of_lt (by omega)]
    rfl

theorem retained_two_of_three :
    let calls : List (DataEnv × UpdateWorkflowDataRequest) := [
      ({}, ⟨sampleID.toString, "m1", "d1"⟩), ({}, ⟨sampleID.toString, "m2", "d2"⟩),
      ({}, ⟨machine1, "m", "d"⟩), ({}, ⟨sampleID.toString, "m3", "d3"⟩)]
    let t' := run (dataStep .ok 2) [] calls
    getWorkflowDataVersion none t' sampleID.toString = .ok 3 ∧
      getfromWfDataTable none none t' sampleID.toString 0 = .ok "d3" ∧
      getfromWfDataTable none none t' sampleID.toString (1 : Nat) = .ok "" ∧
      getfromWfDataTable none none t' sampleID.toString (2 : Nat) = .ok "d2" ∧
      getWorkflowMetadata none none t' sampleID.toString (1 : Nat) = .ok "m1" ∧
      getfromWfDataTable none none t' sampleID.toString 4 = .ok "" := by
  intro calls t'
  obtain ⟨-, hversion, hlatest, hget, hpast⟩ := retained 2 (by decide) (by decide) .ok [] sampleID (by simp)
    sampleID.toString (UUID.ofString?_toString sampleID) calls [("m1", "d1"), ("m2", "d2"), ("m3", "d3")]
    (by decide +kernel) 3 rfl (by decide)
  exact ⟨hversion, hlatest ("m3", "d3") rfl, (hget 1 ("m1", "d1") (by decide) rfl).1,
    (hget 2 ("m2", "d2") (by decide) rfl).1, (hget 1 ("m1", "d1") (by decide) rfl).2, hpast 4 (by decide)⟩

end Tink.Db
