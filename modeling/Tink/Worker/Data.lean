import Tink.Proto
import Tink.Lib.Base64
import Tink.Lib.GoTime
import Tink.Lib.Run

/-!
# The data file of a workflow

Before an action a worker asks the server for the data of the workflow and writes them to a file, and after the action
it sends the file back if it has changed (`cmd/tink-worker/worker/worker.go`).  The file is opened for reading and
writing, at its beginning and with what is in it (`openDataFile`).  What has changed is told by `workflowDataSHA`, a
map in memory from workflows to checksums: it is set by what is received, and by what is sent only while it has no
entry.  The checksum is no hash but the data themselves with a constant behind them, in base 64, and it is compared
without regard to case.

The two functions are steps of a machine together with everything else that happens to the file and with restarts of
the process.  Two facts about every run: what `workflowDataSHA` holds (`workflowDataSHA_run`), and so when a change is
noticed; and what the file holds after data have been received.
-/

namespace Tink.Worker

open Machine

abbrev Bytes := List UInt8

/-- What SHA-256 gives for no bytes. -/
def emptyDigest : Bytes :=
  [0xe3, 0xb0, 0xc4, 0x42, 0x98, 0xfc, 0x1c, 0x14, 0x9a, 0xfb, 0xf4, 0xc8, 0x99, 0x6f, 0xb9, 0x24,
    0x27, 0xae, 0x41, 0xe4, 0x64, 0x9b, 0x93, 0x4c, 0xa4, 0x95, 0x99, 0x1b, 0x78, 0x52, 0xb8, 0x55]

/-- `h.Sum(data)` of a new hash `h`: the digest of what was written to `h`, which is nothing, appended to `data`. -/
def sum (data : Bytes) : Bytes := data ++ emptyDigest

def checksum (data : Bytes) : String := Base64.encode (sum data)

structure WorkflowMetadata where
  workerID : String
  action : String
  task : String
  updatedAt : GoTime.Time
  sha : String

structure UpdateWorkflowDataRequest where
  workflowId : String
  data : Bytes
  metadata : WorkflowMetadata

/-- The data files, by workflow, and the variable `workflowDataSHA` of the process. -/
structure DataState where
  files : String → Option Bytes
  workflowDataSHA : String → Option String := fun _ => none

structure DataConfig where
  maxSize : Int
  /-- Whether `json.Unmarshal` accepts the bytes for a map. -/
  unmarshals : Bytes → Bool

/-- The file opened, created if there was none, and its content; nothing if the process exits. -/
def DataState.openDataFile (failure : Option String) (s : DataState) (wfID : String) : Option (DataState × Bytes) :=
  match failure with
  | some _ => none
  | none =>
    let content := (s.files wfID).getD []
    some ({ s with files := Function.update s.files wfID (some content) }, content)

/-- The content after a write at the beginning. -/
def overwrite (content data : Bytes) : Bytes := data ++ content.drop data.length

/-- The answer to `GetWorkflowData`, and how the accesses to the file end. -/
structure FetchEnv where
  data : Except String Bytes
  openErr : Option String := none
  /-- The number of bytes written before an error. -/
  writeErr : Option Nat := none

/-- `getWorkflowData`; nothing if the process exits. -/
def getWorkflowData (env : FetchEnv) (s : DataState) (workflowID : String) : Option DataState :=
  -- without an answer there is a nil message, whose data are empty
  let data := env.data.toOption.getD []
  if data = [] then some s
  else
    match s.openDataFile env.openErr workflowID with
    | none => none
    | some (s, content) =>
      let written := match env.writeErr with
        | none => data
        | some n => data.take n
      some
        { files := Function.update s.files workflowID (some (overwrite content written))
          workflowDataSHA := Function.update s.workflowDataSHA workflowID (some (checksum data)) }

/-- How the accesses to the file and the call of `UpdateWorkflowData` end. -/
structure UpdateEnv where
  openErr : Option String := none
  /-- The number of bytes read before an error. -/
  readErr : Option Nat := none
  statErr : Option String := none
  sendErr : Option String := none
  now : GoTime.Time := 0

/-- What `updateWorkflowData` has read and sent, and whether the process has exited. -/
structure UpdateResult where
  state : DataState
  data : Bytes := []
  request : Option UpdateWorkflowDataRequest := none
  exited : Bool := false

/-- `io.ReadAll`; an error is logged, and what was read before it is used. -/
def readAll (failure : Option Nat) (content : Bytes) : Bytes :=
  match failure with
  | none => content
  | some n => content.take n

def isValidDataFile (cfg : DataConfig) (statErr : Option String) (size : Nat) (data : Bytes) : Bool :=
  cfg.unmarshals data && statErr.isNone && decide ((size : Int) ≤ cfg.maxSize)

def sendUpdate (env : UpdateEnv) (s : DataState) (st : WorkflowActionStatus) (data : Bytes) (checksum : String) :
    UpdateResult where
  state := s
  data := data
  request := some ⟨st.workflowId, data, ⟨st.workerId, st.actionName, st.taskName, env.now, checksum⟩⟩
  exited := env.sendErr.isSome

def updateWorkflowData (cfg : DataConfig) (env : UpdateEnv) (s : DataState) (actionStatus : WorkflowActionStatus) :
    UpdateResult :=
  match s.openDataFile env.openErr actionStatus.workflowId with
  | none => { state := s, exited := true }
  | some (s, content) =>
    let data := readAll env.readErr content
    if isValidDataFile cfg env.statErr content.length data then
      match s.workflowDataSHA actionStatus.workflowId with
      | none =>
        let checksum := checksum data
        let s :=
          { s with workflowDataSHA := Function.update s.workflowDataSHA actionStatus.workflowId (some checksum) }
        sendUpdate env s actionStatus data checksum
      | some sha =>
        let newSHA := checksum data
        -- the map keeps its entry
        if ¬ Base64.equalFold sha newSHA then sendUpdate env s actionStatus data newSHA
        else { state := s, data := data }
    else { state := s, data := data }

/-! ### Runs -/

/-- What happens to the files and to the process. -/
inductive DataEvent where
  | fetch (env : FetchEnv) (workflowID : String)
  | update (env : UpdateEnv) (actionStatus : WorkflowActionStatus)
  /-- An action, or something else, leaves the file with this content, or removes it. -/
  | write (workflowID : String) (content : Option Bytes)
  | restart

/-- Data received from the server or accepted by it, and the starts of a process. -/
inductive Exchange where
  | received (workflowID : String) (data : Bytes)
  | sent (workflowID : String) (data : Bytes)
  | started

/-- The state, with all exchanges so far. -/
structure Tracked where
  state : DataState
  exchanges : List Exchange := []

/-- A new process begins with an empty map. -/
def Tracked.restart (t : Tracked) : Tracked where
  state := { files := t.state.files }
  exchanges := t.exchanges ++ [.started]

/-- What the server accepted. -/
def UpdateResult.accepted (res : UpdateResult) (env : UpdateEnv) : List Exchange :=
  match res.request, env.sendErr with
  | some req, none => [.sent req.workflowId req.data]
  | _, _ => []

def Tracked.step (cfg : DataConfig) (t : Tracked) : DataEvent → Tracked
  | .fetch env workflowID =>
    match getWorkflowData env t.state workflowID with
    | none => t.restart
    | some s =>
      let data := env.data.toOption.getD []
      { state := s, exchanges := t.exchanges ++ if data = [] then [] else [.received workflowID data] }
  | .update env actionStatus =>
    let res := updateWorkflowData cfg env t.state actionStatus
    let t' : Tracked := { state := res.state, exchanges := t.exchanges ++ res.accepted env }
    if res.exited then t'.restart else t'
  | .write workflowID content =>
    { t with state := { t.state with files := Function.update t.state.files workflowID content } }
  | .restart => t.restart

/-- The content of a workflow that was exchanged last. -/
def lastSynchronised (workflowID : String) (exchanges : List Exchange) : Option Bytes :=
  exchanges.foldl (fun last e =>
    match e with
    | .received wf data | .sent wf data => if wf = workflowID then some data else last
    | .started => last) none

/-- The content last received by this process or, if there is none, the one it sent first. -/
def cachedContent (workflowID : String) (exchanges : List Exchange) : Option Bytes :=
  exchanges.foldl (fun cached e =>
    match e with
    | .received wf data => if wf = workflowID then some data else cached
    | .sent wf data => if wf = workflowID then cached.or (some data) else cached
    | .started => none) none

section

variable (cfg : DataConfig) (env : UpdateEnv) (s : DataState) (st : WorkflowActionStatus)

/-- All that `updateWorkflowData` can do: exit, leave it, send something for the first time, send a change. -/
theorem updateWorkflowData_cases :
    let content := (s.files st.workflowId).getD []
    let data := readAll env.readErr content
    let valid := isValidDataFile cfg env.statErr content.length data
    let s₁ : DataState := { s with files := Function.update s.files st.workflowId (some content) }
    (env.openErr ≠ none ∧ updateWorkflowData cfg env s st = { state := s, exited := true }) ∨
      (env.openErr = none ∧
        (valid = false ∨ ∃ sha, s.workflowDataSHA st.workflowId = some sha ∧
          Base64.equalFold sha (checksum data) = true) ∧
        updateWorkflowData cfg env s st = { state := s₁, data := data }) ∨
      (env.openErr = none ∧ valid = true ∧ s.workflowDataSHA st.workflowId = none ∧
        updateWorkflowData cfg env s st = sendUpdate env
          { s₁ with workflowDataSHA := Function.update s.workflowDataSHA st.workflowId (some (checksum data)) }
          st data (checksum data)) ∨
      (env.openErr = none ∧ valid = true ∧
        (∃ sha, s.workflowDataSHA st.workflowId = some sha ∧ Base64.equalFold sha (checksum data) = false) ∧
        updateWorkflowData cfg env s st = sendUpdate env s₁ st data (checksum data)) := by
  intro content data valid s₁
  unfold updateWorkflowData DataState.openDataFile
  cases hopen : env.openErr with
  | some e => exact .inl ⟨by simp, rfl⟩
  | none =>
    right
    cases hvalid : valid with
    | false =>
      left
      refine ⟨rfl, .inl rfl, ?_⟩
      show (if valid = true then _ else _) = _
      rw [hvalid]
      rfl
    | true =>
      cases hsha : s.workflowDataSHA st.workflowId with
      | none =>
        right; left
        refine ⟨rfl, rfl, rfl, ?_⟩
        show (if valid = true then _ else _) = _
        rw [if_pos hvalid]
        simp only [hsha]
        rfl
      | some sha =>
        cases hfold : Base64.equalFold sha (checksum data) with
        | true =>
          left
          refine ⟨rfl, .inr ⟨sha, rfl, hfold⟩, ?_⟩
          show (if valid = true then _ else _) = _
          rw [if_pos hvalid]
          simp only [hsha]
          exact if_neg (not_not.2 hfold)
        | false =>
          right; right
          refine ⟨rfl, rfl, ⟨sha, rfl, hfold⟩, ?_⟩
          show (if valid = true then _ else _) = _
          rw [if_pos hvalid]
          simp only [hsha]
          exact if_pos (by rw [hfold]; decide)

/-- A request is sent for a valid file whose checksum is new to the map. -/
private theorem request_isSome_iff :
    (updateWorkflowData cfg env s st).request.isSome = true ↔
      env.openErr = none ∧
        isValidDataFile cfg env.statErr ((s.files st.workflowId).getD []).length
          (readAll env.readErr ((s.files st.workflowId).getD [])) = true ∧
        ∀ sha, s.workflowDataSHA st.workflowId = some sha →
          Base64.equalFold sha (checksum (readAll env.readErr ((s.files st.workflowId).getD []))) = false := by
  rcases updateWorkflowData_cases cfg env s st with ⟨hopen, h⟩ | ⟨hopen, hold, h⟩ | ⟨hopen, hvalid, hsha, h⟩ |
    ⟨hopen, hvalid, ⟨sha, hsha, hfold⟩, h⟩
  · rw [h]
    exact iff_of_false (by simp) fun hsend => hopen hsend.1
  · rw [h]
    refine iff_of_false (by simp) fun hsend => ?_
    rcases hold with hvalid | ⟨sha, hsha, hfold⟩
    · exact absurd (hvalid.symm.trans hsend.2.1) (by decide)
    · exact absurd (hfold.symm.trans (hsend.2.2 sha hsha)) (by decide)
  · rw [h]
    exact iff_of_true rfl ⟨hopen, hvalid, fun sha hsha' => absurd (hsha.symm.trans hsha') (by simp)⟩
  · rw [h]
    refine iff_of_true rfl ⟨hopen, hvalid, fun sha' hsha' => ?_⟩
    obtain rfl : sha = sha' := Option.some.inj (hsha.symm.trans hsha')
    exact hfold

end

/-- The map holds the checksums of the contents that the exchanges say. -/
def Tracked.Cached (t : Tracked) : Prop :=
  ∀ wf, t.state.workflowDataSHA wf = (cachedContent wf t.exchanges).map checksum

variable {cfg : DataConfig} {t : Tracked}

private theorem cachedContent_received (wf workflowID : String) (data : Bytes) (es : List Exchange) :
    cachedContent wf (es ++ [.received workflowID data]) =
      if workflowID = wf then some data else cachedContent wf es := by
  rw [cachedContent, List.foldl_append]
  rfl

private theorem cachedContent_sent (wf workflowID : String) (data : Bytes) (es : List Exchange) :
    cachedContent wf (es ++ [.sent workflowID data]) =
      if workflowID = wf then (cachedContent wf es).or (some data) else cachedContent wf es := by
  rw [cachedContent, List.foldl_append]
  rfl

private theorem Tracked.cached_restart (t : Tracked) : t.restart.Cached := by
  intro wf
  rw [Tracked.restart, cachedContent, List.foldl_append]
  rfl

private theorem Tracked.Cached.fetch (h : t.Cached) (env : FetchEnv) (workflowID : String) :
    (t.step cfg (.fetch env workflowID)).Cached := by
  rw [Tracked.step, getWorkflowData]
  by_cases hdata : env.data.toOption.getD [] = []
  · simp only [if_pos hdata, List.append_nil]
    exact h
  · simp only [if_neg hdata, DataState.openDataFile]
    cases env.openErr with
    | some e => exact t.cached_restart
    | none =>
      intro wf
      rw [cachedContent_received]
      show Function.update t.state.workflowDataSHA workflowID _ wf = _
      by_cases hwf : workflowID = wf
      · rw [if_pos hwf, hwf, Function.update_self]
        rfl
      · rw [if_neg hwf, Function.update_of_ne (Ne.symm hwf)]
        exact h wf

/-- What the server accepts becomes an entry of the map if there was none. -/
private theorem Tracked.Cached.sent (h : t.Cached) {s' : DataState} {workflowID : String} {data : Bytes}
    (hs' : ∀ wf, s'.workflowDataSHA wf =
      if workflowID = wf then (t.state.workflowDataSHA wf).or (some (checksum data))
      else t.state.workflowDataSHA wf) :
    Tracked.Cached ⟨s', t.exchanges ++ [.sent workflowID data]⟩ := by
  intro wf
  rw [hs', cachedContent_sent, h wf]
  by_cases hwf : workflowID = wf
  · rw [if_pos hwf, if_pos hwf]
    cases cachedContent wf t.exchanges <;> rfl
  · rw [if_neg hwf, if_neg hwf]

private theorem Tracked.Cached.sendUpdate (h : t.Cached) {env : UpdateEnv} {st : WorkflowActionStatus}
    {s' : DataState}
    {data : Bytes} {sum : String} (hres : updateWorkflowData cfg env t.state st = sendUpdate env s' st data sum)
    (hs' : ∀ wf, s'.workflowDataSHA wf =
      if st.workflowId = wf then (t.state.workflowDataSHA wf).or (some (checksum data))
      else t.state.workflowDataSHA wf) :
    (t.step cfg (.update env st)).Cached := by
  rw [Tracked.step, hres]
  cases hsend : env.sendErr with
  | some e =>
    simp only [Worker.sendUpdate, hsend, Option.isSome_some, if_true]
    exact Tracked.cached_restart _
  | none =>
    simp only [Worker.sendUpdate, UpdateResult.accepted, hsend, Option.isSome_none, Bool.false_eq_true, if_false]
    exact h.sent hs'

private theorem Tracked.Cached.update (h : t.Cached) (env : UpdateEnv) (st : WorkflowActionStatus) :
    (t.step cfg (.update env st)).Cached := by
  rcases updateWorkflowData_cases cfg env t.state st with ⟨-, hres⟩ | ⟨-, -, hres⟩ | ⟨-, -, hsha, hres⟩ |
    ⟨-, -, ⟨sha, hsha, -⟩, hres⟩
  · rw [Tracked.step, hres]
    exact Tracked.cached_restart _
  · rw [Tracked.step, hres]
    simp only [UpdateResult.accepted, List.append_nil]
    exact h
  · refine h.sendUpdate hres fun wf => ?_
    show Function.update t.state.workflowDataSHA st.workflowId _ wf = _
    by_cases hwf : st.workflowId = wf
    · rw [if_pos hwf, ← hwf, Function.update_self, hsha]
      rfl
    · rw [if_neg hwf, Function.update_of_ne (Ne.symm hwf)]
  · refine h.sendUpdate hres fun wf => ?_
    show t.state.workflowDataSHA wf = _
    by_cases hwf : st.workflowId = wf
    · rw [if_pos hwf, ← hwf, hsha]
      rfl
    · rw [if_neg hwf]

/-- The worker started with some files. -/
def Tracked.init (files : String → Option Bytes) : Tracked where
  state := { files := files }

/-- At any time the map has, for each workflow, the checksum of the content this process last received or, having
received none, sent first. -/
theorem workflowDataSHA_run (cfg : DataConfig) (files : String → Option Bytes) (events : List DataEvent) :
    (run (Tracked.step cfg) (Tracked.init files) events).Cached := by
  refine run_inv (I := Tracked.Cached) (fun wf => rfl) fun t event h => ?_
  cases event with
  | fetch env workflowID => exact h.fetch env workflowID
  | update env actionStatus => exact h.update env actionStatus
  | write workflowID content => exact h
  | restart => exact t.cached_restart

/-! ### Which changes are noticed -/

/-- What is read of the content, if the file can be examined and what is read is still JSON; else nothing is sent. -/
def UpdateEnv.read? (cfg : DataConfig) (env : UpdateEnv) (content : Bytes) : Option Bytes :=
  match env.openErr, env.statErr, env.readErr with
  | none, none, none => some content
  | none, none, some n => if cfg.unmarshals (content.take n) then some (content.take n) else none
  | _, _, _ => none

/-- Whether a content `d₁` of the file is rightly taken for a change, or for none, against the content `d₀` exchanged
last, when `cached` is the content whose checksum the map has. -/
def Recognised (cached : Option Bytes) (d₀ d₁ : Bytes) (read : Option Bytes) : Prop :=
  match cached, read with
  | _, none => d₁ = d₀
  | none, some _ => d₁ ≠ d₀
  | some c, some data => Base64.Alike (sum c) (sum data) ↔ d₁ = d₀

instance (cached : Option Bytes) (d₀ d₁ : Bytes) (read : Option Bytes) : Decidable (Recognised cached d₀ d₁ read) :=
  match cached, read with
  | _, none => inferInstanceAs (Decidable (d₁ = d₀))
  | none, some _ => inferInstanceAs (Decidable (d₁ ≠ d₀))
  | some c, some data => inferInstanceAs (Decidable (Base64.Alike (sum c) (sum data) ↔ d₁ = d₀))

section

variable {env : UpdateEnv} {st : WorkflowActionStatus} {d₁ : Bytes}

private theorem read?_eq_some (hjson : cfg.unmarshals d₁ = true) (hsize : (d₁.length : Int) ≤ cfg.maxSize)
    {data : Bytes} :
    env.read? cfg d₁ = some data ↔
      env.openErr = none ∧ isValidDataFile cfg env.statErr d₁.length (readAll env.readErr d₁) = true ∧
        readAll env.readErr d₁ = data := by
  unfold UpdateEnv.read? isValidDataFile readAll
  cases env.openErr <;> cases env.statErr <;> cases env.readErr <;> simp [hjson, hsize]

/-- A file within the limits is sent if it is read and not alike to the content in the map. -/
private theorem Tracked.Cached.request_isSome_iff (h : t.Cached) (hfile : t.state.files st.workflowId = some d₁)
    (hjson : cfg.unmarshals d₁ = true) (hsize : (d₁.length : Int) ≤ cfg.maxSize) :
    (updateWorkflowData cfg env t.state st).request.isSome = true ↔
      ∃ data, env.read? cfg d₁ = some data ∧
        ∀ c, cachedContent st.workflowId t.exchanges = some c → ¬ Base64.Alike (sum c) (sum data) := by
  have hfold : ∀ c data, Base64.equalFold (checksum c) (checksum data) = false ↔
      ¬ Base64.Alike (sum c) (sum data) := by
    intro c data
    rw [← Base64.equalFold_encode, Bool.not_eq_true]
    rfl
  rw [Worker.request_isSome_iff, hfile, h st.workflowId, Option.getD_some]
  simp only [read?_eq_some hjson hsize, Option.map_eq_some_iff, forall_exists_index, and_imp]
  constructor
  · rintro ⟨hopen, hvalid, hnew⟩
    exact ⟨_, ⟨hopen, hvalid, rfl⟩, fun c hc => (hfold c _).1 (hnew _ c hc rfl)⟩
  · rintro ⟨data, ⟨hopen, hvalid, rfl⟩, hnew⟩
    refine ⟨hopen, hvalid, fun sha c hc hsha => ?_⟩
    rw [← hsha]
    exact (hfold c _).2 (hnew c hc)

end

/-- After any run, with `d₀` the content last exchanged for the workflow and `d₁` a content of the file within the
limits: that `d₁` is sent exactly if it is not `d₀` holds when it is compared with the right content and no letter
case hides the difference. -/
theorem sent_iff_changed_iff (cfg : DataConfig) (files : String → Option Bytes) (events : List DataEvent)
    (env : UpdateEnv) (st : WorkflowActionStatus) (d₁ : Bytes)
    (hfile : (run (Tracked.step cfg) (Tracked.init files) events).state.files st.workflowId = some d₁)
    (hjson : cfg.unmarshals d₁ = true) (hsize : (d₁.length : Int) ≤ cfg.maxSize) :
    let t := run (Tracked.step cfg) (Tracked.init files) events
    (∀ d₀, lastSynchronised st.workflowId t.exchanges = some d₀ →
        ((updateWorkflowData cfg env t.state st).request.isSome = true ↔ d₁ ≠ d₀)) ↔
      ∀ d₀, lastSynchronised st.workflowId t.exchanges = some d₀ →
        Recognised (cachedContent st.workflowId t.exchanges) d₀ d₁ (env.read? cfg d₁) := by
  intro t
  have hcached : t.Cached := workflowDataSHA_run cfg files events
  refine forall_congr' fun d₀ => imp_congr_right fun _ => ?_
  rw [hcached.request_isSome_iff hfile hjson hsize]
  cases env.read? cfg d₁ with
  | none => simp [Recognised]
  | some data =>
    cases cachedContent st.workflowId t.exchanges with
    | none => simp [Recognised]
    | some c =>
      simp only [Recognised, Option.some.injEq, exists_eq_left', forall_eq']
      exact not_iff_not

/-- The bytes of `{"a":"AAA"}`. -/
def sampleUpper : Bytes := [0x7b, 0x22, 0x61, 0x22, 0x3a, 0x22, 0x41, 0x41, 0x41, 0x22, 0x7d]

/-- The bytes of `{"a":"AA["}`, in base 64 the same but for the case of one letter. -/
def sampleLower : Bytes := [0x7b, 0x22, 0x61, 0x22, 0x3a, 0x22, 0x41, 0x41, 0x5b, 0x22, 0x7d]

/-- The bytes of `{}`. -/
def sampleBraces : Bytes := [0x7b, 0x7d]

def sampleLimits : DataConfig where
  maxSize := 2 ^ 20
  unmarshals data := data ∈ [sampleUpper, sampleLower, sampleBraces]

def sampleFinished : WorkflowActionStatus where
  workflowId := "w"
  taskName := "t"
  actionName := "a"
  actionStatus := .success

/-- The worker after it has received `{"a":"AAA"}` for the workflow, and after some more events. -/
def sampleRun (events : List DataEvent) : Tracked :=
  run (Tracked.step sampleLimits) (Tracked.init fun _ => none) (.fetch { data := .ok sampleUpper } "w" :: events)

/-- An action that writes something new after data have been received. -/
theorem sent_iff_changed_iff_braces :
    let t := sampleRun [.write "w" (some sampleBraces)]
    ∀ d₀, lastSynchronised "w" t.exchanges = some d₀ →
      ((updateWorkflowData sampleLimits {} t.state sampleFinished).request.isSome = true ↔ sampleBraces ≠ d₀) := by
  refine (sent_iff_changed_iff sampleLimits (fun _ => none) _ {} sampleFinished sampleBraces rfl (by decide)
    (by decide)).2 fun d₀ hd₀ => ?_
  obtain rfl : sampleUpper = d₀ := Option.some.inj hd₀
  decide +kernel

/-- The content exchanged last, the one of the file, and whether it is sent. -/
def sampleUpdate (events : List DataEvent) : Option Bytes × Option Bytes × Bool :=
  let t := sampleRun events
  (lastSynchronised "w" t.exchanges, t.state.files "w",
    (updateWorkflowData sampleLimits {} t.state sampleFinished).request.isSome)

/-- A change of the case of one digit is not sent; what was sent after data have been received is sent again,
unchanged; and a change back to what was received is not sent. -/
theorem letter_case_change_not_sent :
    sampleUpdate [.write "w" (some sampleLower)] = (some sampleUpper, some sampleLower, false) ∧
      sampleUpdate [.write "w" (some sampleBraces), .update {} sampleFinished] =
        (some sampleBraces, some sampleBraces, true) ∧
      sampleUpdate [.write "w" (some sampleBraces), .update {} sampleFinished, .write "w" (some sampleUpper)] =
        (some sampleBraces, some sampleUpper, false) ∧
      sampleLower ≠ sampleUpper ∧ sampleUpper ≠ sampleBraces := by
  decide +kernel

/-! ### What the file holds after data have been received -/

/-- A write of the first `n` bytes of `d` leaves `d` if the rest was there. -/
private theorem overwrite_take_eq_iff (content d : Bytes) (n : Nat) :
    overwrite content (d.take n) = d ↔ content.drop (min n d.length) = d.drop n := by
  unfold overwrite
  rw [List.length_take]
  constructor
  · intro h
    have hsplit := h.trans (List.take_append_drop n d).symm
    exact List.append_cancel_left hsplit
  · intro h
    rw [h, List.take_append_drop]

/-- A write of all of `d` leaves `d` if there was not more. -/
private theorem overwrite_eq_iff (content d : Bytes) : overwrite content d = d ↔ content.length ≤ d.length := by
  unfold overwrite
  rw [List.append_right_eq_self, List.drop_eq_nil_iff]

/-- What `updateWorkflowData` reads. -/
private theorem data_updateWorkflowData {cfg : DataConfig} {env : UpdateEnv} {s : DataState}
    {st : WorkflowActionStatus} (hopen : env.openErr = none) (hread : env.readErr = none) :
    (updateWorkflowData cfg env s st).data = (s.files st.workflowId).getD [] := by
  rcases updateWorkflowData_cases cfg env s st with ⟨h, -⟩ | ⟨-, -, h⟩ | ⟨-, -, -, h⟩ | ⟨-, -, -, h⟩
  · exact absurd hopen h
  all_goals
    rw [h, hread]
    rfl

/-- The file holds what the server has returned, and it is what is read next, exactly if the file can be opened and
had nothing behind the bytes that are written but the rest of the data: if all are written, if it was no longer than
they are. -/
theorem fetched_iff (cfg : DataConfig) (env : FetchEnv) (s : DataState) (workflowID : String) (d : Bytes)
    (hdata : env.data = .ok d) (hd : d ≠ []) :
    (∃ s', getWorkflowData env s workflowID = some s' ∧ s'.files workflowID = some d ∧
        ∀ env' st, env'.openErr = none → env'.readErr = none → st.workflowId = workflowID →
          (updateWorkflowData cfg env' s' st).data = d) ↔
      env.openErr = none ∧
        match env.writeErr with
        | none => ((s.files workflowID).getD []).length ≤ d.length
        | some n => ((s.files workflowID).getD []).drop (min n d.length) = d.drop n := by
  have hd' : env.data.toOption.getD [] = d := by
    rw [hdata]
    rfl
  -- the reading back follows from the content
  have hback : ∀ s' : DataState, s'.files workflowID = some d → ∀ env' st, env'.openErr = none → env'.readErr = none →
      st.workflowId = workflowID → (updateWorkflowData cfg env' s' st).data = d := by
    intro s' hs' env' st hopen hread hst
    rw [data_updateWorkflowData hopen hread, hst, hs']
    rfl
  unfold getWorkflowData DataState.openDataFile
  simp only [hd', if_neg hd]
  cases env.openErr with
  | some e => simp
  | none =>
    simp only [Option.some.injEq, exists_eq_left', Function.update_self, true_and]
    rw [and_iff_left_of_imp fun hs' => hback _ (by simp only [Function.update_self, hs'])]
    cases env.writeErr with
    | none => exact overwrite_eq_iff _ d
    | some n => exact overwrite_take_eq_iff _ d n

/-- Data as long as what was in the file. -/
theorem fetched_iff_same_length :
    ∃ s', getWorkflowData { data := .ok sampleLower } { files := fun _ => some sampleUpper } "w" = some s' ∧
      s'.files "w" = some sampleLower ∧
      ∀ env' st, env'.openErr = none → env'.readErr = none → st.workflowId = "w" →
        (updateWorkflowData sampleLimits env' s' st).data = sampleLower :=
  (fetched_iff sampleLimits _ _ "w" sampleLower rfl (by decide)).2 ⟨rfl, by decide⟩

/-- A shorter content after a longer one: the end of the longer one stays. -/
theorem shorter_content_received :
    ∃ s', getWorkflowData { data := .ok sampleBraces } { files := fun _ => some sampleUpper } "w" = some s' ∧
      s'.files "w" = some [0x7b, 0x7d, 0x61, 0x22, 0x3a, 0x22, 0x41, 0x41, 0x41, 0x22, 0x7d] ∧
      s'.files "w" ≠ some sampleBraces := by
  refine ⟨_, rfl, ?_⟩
  decide +kernel

end Tink.Worker
