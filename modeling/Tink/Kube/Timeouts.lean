import Tink.Kube.History

/-!
# The two deadlines of an action

The timeout of an action is read by two programs.  The controller compares the clock with the start time and the
timeout in seconds (`processRunningWorkflow`); the worker gives the container the timeout in seconds as well, but one
hour if the timeout is not positive (`execute` of `cmd/tink-worker/worker/worker.go`).  Both multiply 64-bit
durations.

The loops of the controller treat every action by itself (`actionAt?_processRunningWorkflow`), so whether it marks one
is a matter of its own start time, its own timeout and one reading of the clock (`marks_iff`).  The workflow is marked
when one of its actions is, or when it has run for its own timeout (`processRunningWorkflow_timeout`).  As the
products wrap around, all this is exact up to a certain timeout only (`timeouts_exact_iff`).
-/

namespace Tink

open GoTime Machine

/-- `1*time.Hour`. -/
def Worker.hour : Duration := 3600 * second

/-- The timeout of the context in which `execute` runs the container of an action. -/
def Worker.containerTimeout (timeout : Int) : Duration := if timeout > 0 then seconds timeout else Worker.hour

namespace Kube

/-- The action at position `ai` of task `ti`. -/
def Workflow.actionAt? (wf : Workflow) (ti ai : Nat) : Option Action :=
  wf.status.tasks[ti]?.bind fun t => t.actions[ai]?

/-- `processRunningWorkflow` marks the action `a` at position `ai` of task `ti` as timed out. -/
def Marks (now : Reading → Time) (stored : Workflow) (ti ai : Nat) (a : Action) : Prop :=
  ∃ wflow a', processRunningWorkflow now stored = .ok wflow ∧ stored.actionAt? ti ai = some a ∧
    wflow.actionAt? ti ai = some a' ∧ a.status ≠ .timeout ∧ a'.status = .timeout

/-! ### One action at a time -/

variable {now : Reading → Time} {stored wflow : Workflow}

/-- What the check makes of one action. -/
def checkAction (now : Reading → Time) (ti ai : Nat) (a : Action) : Action :=
  if timedOut now ti ai a then timeoutAction now ti ai a else a

private theorem getElem?_checkActions (now : Reading → Time) (ti ai : Nat) (as : List Action) (s : WorkflowState)
    (k : Nat) :
    (checkActions now ti ai as s).1[k]? = as[k]?.map (checkAction now ti (ai + k)) := by
  induction as generalizing ai s k with
  | nil => rfl
  | cons a as ih =>
    rw [checkActions]
    cases k with
    | zero =>
      split <;> rename_i h <;> simp [checkAction, h]
    | succ k =>
      have hk : ai + 1 + k = ai + (k + 1) := by omega
      split <;> simp [ih, hk]

private theorem getElem?_checkTasks (now : Reading → Time) (ti : Nat) (ts : List Task) (s : WorkflowState)
    (k ai : Nat) :
    (checkTasks now ti ts s).1[k]?.bind (fun t => t.actions[ai]?) =
      (ts[k]?.bind fun t => t.actions[ai]?).map (checkAction now (ti + k) ai) := by
  induction ts generalizing ti s k with
  | nil => rfl
  | cons t ts ih =>
    rw [checkTasks]
    cases k with
    | zero => simp [getElem?_checkActions]
    | succ k =>
      have hk : ti + 1 + k = ti + (k + 1) := by omega
      simp [ih, hk]

/-- The check of a running workflow is one of every action by itself. -/
theorem actionAt?_processRunningWorkflow (h : processRunningWorkflow now stored = .ok wflow) (ti ai : Nat) :
    wflow.actionAt? ti ai = (stored.actionAt? ti ai).map (checkAction now ti ai) := by
  unfold processRunningWorkflow at h
  split at h
  · cases h
  · cases h
    have hcheck := getElem?_checkTasks now 0 stored.status.tasks
    simp only [Nat.zero_add] at hcheck
    exact hcheck _ ti ai

private theorem timedOut_eq_true {ti ai : Nat} {a : Action} :
    timedOut now ti ai a = true ↔
      a.status = .running ∧ ∃ t, a.startedAt = some t ∧ t.time + seconds a.timeout < now (.check ti ai) := by
  unfold timedOut
  cases a.startedAt with
  | none => simp
  | some t =>
    simp only [Bool.and_eq_true, decide_eq_true_eq, Option.some.injEq, exists_eq_left']
    exact and_congr_right fun _ => decide_eq_true_iff

/-- An action is marked exactly if it is running and has a start time that is its timeout in the past, as far as the
check gets at all, which needs a start time of the workflow. -/
theorem marks_iff {ti ai : Nat} {a : Action} :
    Marks now stored ti ai a ↔ stored.getStartTime ≠ none ∧ stored.actionAt? ti ai = some a ∧
      a.status = .running ∧ ∃ t, a.startedAt = some t ∧ t.time + seconds a.timeout < now (.check ti ai) := by
  rw [← timedOut_eq_true]
  constructor
  · rintro ⟨wflow, a', hrun, hat, hat', hne, htimeout⟩
    rw [actionAt?_processRunningWorkflow hrun, hat, Option.map_some, Option.some.injEq, checkAction] at hat'
    refine ⟨fun hnone => ?_, hat, ?_⟩
    · rw [processRunningWorkflow, hnone] at hrun
      cases hrun
    · by_contra hno
      rw [if_neg hno] at hat'
      rw [hat'] at hne
      exact hne htimeout
  · rintro ⟨hstart, hat, hout⟩
    obtain ⟨start, hstart⟩ := Option.ne_none_iff_exists'.1 hstart
    have hrun : ∃ wflow, processRunningWorkflow now stored = .ok wflow := by
      rw [processRunningWorkflow, hstart]
      exact ⟨_, rfl⟩
    obtain ⟨wflow, hrun⟩ := hrun
    refine ⟨wflow, timeoutAction now ti ai a, hrun, hat, ?_, ?_, rfl⟩
    · rw [actionAt?_processRunningWorkflow hrun, hat, Option.map_some, checkAction, if_pos hout]
    · rw [(timedOut_eq_true.1 hout).1]
      simp

/-! ### The deadline of the worker -/

/-- A workflow with one action, which is running since time 0. -/
private def running (timeout : Int) : Workflow :=
  .ofStatus { state := .running, tasks := [{ name := "os", workerAddr := "m1", actions :=
    [{ name := "stream", timeout := timeout, status := .running, startedAt := some ⟨0⟩ }] }] }

/-- A marked action with the timeout `T` was always given the time `d` before, exactly if `d` is not longer than the
duration the controller computes. -/
private theorem marked_later_iff (T : Int) (d : Duration) :
    (∀ now stored ti ai a, stored.status.state = .running → Marks now stored ti ai a → a.timeout = T →
      ∃ t, a.startedAt = some t ∧ t.time + d < now (.check ti ai)) ↔ d ≤ seconds T := by
  constructor
  · intro h
    have hmarks : Marks (fun _ => seconds T + 1) (running T) 0 0
        { name := "stream", timeout := T, status := .running, startedAt := some ⟨0⟩ } := by
      rw [marks_iff]
      refine ⟨by simp [running, Workflow.ofStatus, Workflow.getStartTime], rfl, rfl, ⟨0⟩, rfl, ?_⟩
      show (0 : Int) + seconds T < seconds T + 1
      omega
    obtain ⟨t, ht, hlt⟩ := h _ _ _ _ _ rfl hmarks rfl
    cases ht
    have hlt' : (0 : Int) + d < seconds T + 1 := hlt
    exact Int.le_of_lt_add_one (by omega)
  · intro hd now stored ti ai a _ hmarks hT
    obtain ⟨-, -, -, t, ht, hlt⟩ := marks_iff.1 hmarks
    rw [hT] at hlt
    exact ⟨t, ht, lt_of_le_of_lt (Int.add_le_add_left hd t.time) hlt⟩

/-- A positive number of seconds fits into a duration exactly if it is at most 9223372036. -/
private theorem le_seconds_iff {T : Int} (hT : 0 < T) : T * second ≤ seconds T ↔ T ≤ 9223372036 := by
  unfold seconds second
  rw [Int.bmod_def]
  split <;> omega

/-- The controller marks an action only after the time the worker gives its container, for any workflow and clock,
exactly if the timeout is positive, apart from very negative ones whose duration wraps around to more than an hour.
The time the worker gives is the number of seconds asked for only if that fits into a duration. -/
theorem timeouts_agree_iff (T : Int) :
    ((∀ now stored ti ai a, stored.status.state = .running → Marks now stored ti ai a → a.timeout = T →
        ∃ t, a.startedAt = some t ∧ t.time + (if 0 < T then T * second else 3600 * second) < now (.check ti ai)) ↔
      (0 < T ∧ T ≤ 9223372036) ∨ (T ≤ 0 ∧ 3600 * second ≤ Int.bmod (T * second) (2 ^ 64))) ∧
    ((∀ now stored ti ai a, stored.status.state = .running → Marks now stored ti ai a → a.timeout = T →
        ∃ t, a.startedAt = some t ∧ t.time + Worker.containerTimeout T < now (.check ti ai)) ↔
      0 < T ∨ 3600 * second ≤ Int.bmod (T * second) (2 ^ 64)) := by
  rw [marked_later_iff, marked_later_iff, Worker.containerTimeout]
  by_cases hT : 0 < T
  · rw [if_pos hT, if_pos hT, le_seconds_iff hT]
    constructor
    · constructor
      · intro h; exact .inl ⟨hT, h⟩
      · rintro (h | h)
        · exact h.2
        · omega
    · exact iff_of_true (Int.le_refl _) (.inl hT)
  · rw [if_neg hT, if_neg hT]
    constructor
    · constructor
      · intro h; exact .inr ⟨by omega, h⟩
      · rintro (h | h)
        · exact absurd h.1 hT
        · exact h.2
    · constructor
      · intro h; exact .inr h
      · rintro (h | h)
        · exact absurd h hT
        · exact h

/-- An action without a timeout is reported as running at one second and marked a nanosecond later, while the worker
gives its container an hour. -/
theorem omitted_timeout_marked :
    let tpl : Template.Workflow := { version := "0.1", name := "provision", globalTimeout := 600, tasks :=
      [{ name := "os", workerAddr := "m1", actions := [{ name := "stream", image := "os" }] }] }
    let wf := run (step (.reading _ tpl)) (.ofStatus {})
      [.reconcile (.still 0), .reportOf second "os" "stream" .running]
    wf.status.state = .running ∧
      (∃ a, Marks (fun _ => second + 1) wf 0 0 a ∧ a.timeout = 0 ∧ a.startedAt = some ⟨1⟩) ∧
      ¬ second + Worker.containerTimeout 0 < second + 1 := by
  intro tpl wf
  have hat : wf.actionAt? 0 0 =
      some { name := "stream", image := "os", status := .running, startedAt := some ⟨1⟩ } := by
    decide +kernel
  refine ⟨by decide +kernel, ⟨_, marks_iff.2 ⟨by decide +kernel, hat, rfl, ⟨1⟩, rfl, by decide⟩, rfl, rfl⟩, by decide⟩

/-! ### Exact arithmetic -/

private theorem checkActions_state (now : Reading → Time) (ti ai : Nat) (as : List Action) (s : WorkflowState) :
    (checkActions now ti ai as s).2 = .timeout ↔
      s = .timeout ∨ ∃ k a, as[k]? = some a ∧ timedOut now ti (ai + k) a = true := by
  induction as generalizing ai s with
  | nil => simp [checkActions]
  | cons a as ih =>
    have hsplit : (∃ k b, (a :: as)[k]? = some b ∧ timedOut now ti (ai + k) b = true) ↔
        timedOut now ti ai a = true ∨ ∃ k b, as[k]? = some b ∧ timedOut now ti (ai + 1 + k) b = true := by
      constructor
      · rintro ⟨k, b, hb, hout⟩
        cases k with
        | zero =>
          cases hb
          exact .inl hout
        | succ k => exact .inr ⟨k, b, hb, by rwa [show ai + 1 + k = ai + (k + 1) by omega]⟩
      · rintro (hout | ⟨k, b, hb, hout⟩)
        · exact ⟨0, a, rfl, hout⟩
        · exact ⟨k + 1, b, hb, by rwa [show ai + (k + 1) = ai + 1 + k by omega]⟩
    rw [hsplit, checkActions]
    split
    · rename_i hout
      simp only [ih, hout, true_or, or_true]
    · rename_i hin
      simp only [ih, hin, false_or, Bool.false_eq_true]

private theorem checkTasks_state (now : Reading → Time) (ti : Nat) (ts : List Task) (s : WorkflowState) :
    (checkTasks now ti ts s).2 = .timeout ↔
      s = .timeout ∨ ∃ k ai a, (ts[k]?.bind fun t => t.actions[ai]?) = some a ∧
        timedOut now (ti + k) ai a = true := by
  induction ts generalizing ti s with
  | nil => simp [checkTasks]
  | cons t ts ih =>
    rw [checkTasks]
    simp only [ih, checkActions_state, Nat.zero_add, or_assoc]
    refine or_congr_right ?_
    constructor
    · rintro (⟨ai, a, ha, hout⟩ | ⟨k, ai, a, ha, hout⟩)
      · exact ⟨0, ai, a, ha, hout⟩
      · exact ⟨k + 1, ai, a, ha, by rwa [show ti + (k + 1) = ti + 1 + k by omega]⟩
    · rintro ⟨k, ai, a, ha, hout⟩
      cases k with
      | zero => exact .inl ⟨ai, a, ha, hout⟩
      | succ k => exact .inr ⟨k, ai, a, ha, by rwa [show ti + 1 + k = ti + (k + 1) by omega]⟩

/-- A running workflow is marked as timed out exactly if it has run for the global timeout or one of its actions is
marked. -/
theorem processRunningWorkflow_timeout {start : MetaTime} (hrunning : stored.status.state = .running)
    (hstart : stored.getStartTime = some start) (h : processRunningWorkflow now stored = .ok wflow) :
    wflow.status.state = .timeout ↔
      start.time + seconds stored.status.globalTimeout < now .global ∨ ∃ ti ai a, Marks now stored ti ai a := by
  have hmarks : (∃ ti ai a, Marks now stored ti ai a) ↔
      ∃ ti ai a, stored.actionAt? ti ai = some a ∧ timedOut now ti ai a = true := by
    simp only [marks_iff, hstart, ne_eq, reduceCtorEq, not_false_eq_true, true_and, timedOut_eq_true]
  have hglobal :
      (if after (now .global) (add start.time (seconds stored.status.globalTimeout)) then WorkflowState.timeout
      else stored.status.state) = .timeout ↔ start.time + seconds stored.status.globalTimeout < now .global := by
    rw [hrunning]
    by_cases hlt : start.time + seconds stored.status.globalTimeout < now .global
    · simp [after, add, hlt]
    · simp [after, add, hlt]
  rw [processRunningWorkflow, hstart] at h
  cases h
  rw [hmarks, ← hglobal]
  have hcheck := checkTasks_state now 0 stored.status.tasks
  simp only [Nat.zero_add] at hcheck
  exact hcheck _

private theorem seconds_eq_iff {T : Int} (hT : 0 < T) : seconds T = T * second ↔ T ≤ 9223372036 := by
  constructor
  · intro h
    exact (le_seconds_iff hT).1 (Int.le_of_eq h.symm)
  · intro h
    have hnanos : T * second = T * 1000000000 := rfl
    exact Int.bmod_eq_of_le (by rw [hnanos]; omega) (by rw [hnanos]; omega)

/-- A clock on which no action is late and the workflow has run for exactly the time `d`. -/
private def calm (stored : Workflow) (start : Time) (d : Duration) : Reading → Time
  | .global => start + d
  | .check ti ai =>
    ((stored.actionAt? ti ai).map fun a => (a.startedAt.map MetaTime.time).getD 0 + seconds a.timeout).getD 0
  | .elapsed _ _ => 0

private theorem not_marks_calm (start : Time) (d : Duration) (ti ai : Nat) (a : Action) :
    ¬ Marks (calm stored start d) stored ti ai a := by
  rw [marks_iff]
  rintro ⟨-, hat, -, t, ht, hlt⟩
  simp only [calm, hat, ht, Option.map_some, Option.getD_some] at hlt
  exact lt_irrefl _ hlt

/-- With exact numbers: an action with a positive timeout is marked when it has run for longer, and the workflow when
it has run for longer than the global timeout or an action is marked; and the worker gives a container the number of
seconds asked for.  All this is so exactly if the timeouts, in nanoseconds, fit into 64 bits. -/
theorem timeouts_exact_iff (stored : Workflow) (start : MetaTime) (hrunning : stored.status.state = .running)
    (hstart : stored.getStartTime = some start) (hG : 0 < stored.status.globalTimeout) (T : Int) (hT : 0 < T) :
    ((∀ now, ∃ wflow, processRunningWorkflow now stored = .ok wflow ∧
        (∀ ti ai a t, stored.actionAt? ti ai = some a → a.status = .running → a.startedAt = some t → 0 < a.timeout →
          (Marks now stored ti ai a ↔ a.timeout * second < now (.check ti ai) - t.time)) ∧
        (wflow.status.state = .timeout ↔
          stored.status.globalTimeout * second < now .global - start.time ∨ ∃ ti ai a, Marks now stored ti ai a)) ↔
      stored.status.globalTimeout ≤ 9223372036 ∧
        ∀ ti ai a, stored.actionAt? ti ai = some a → a.status = .running → a.startedAt ≠ none → 0 < a.timeout →
          a.timeout ≤ 9223372036) ∧
    (Worker.containerTimeout T = T * second ↔ T ≤ 9223372036) := by
  refine ⟨⟨fun h => ⟨?_, ?_⟩, ?_⟩, ?_⟩
  · -- the workflow is marked while it has run for exactly its timeout
    by_contra hbig
    obtain ⟨wflow, hrun, -, hmark⟩ := h (calm stored start.time (stored.status.globalTimeout * second))
    have hwrap : seconds stored.status.globalTimeout < stored.status.globalTimeout * second :=
      not_le.1 fun hle => hbig ((le_seconds_iff hG).1 hle)
    have htimeout : wflow.status.state = .timeout := by
      rw [processRunningWorkflow_timeout hrunning hstart hrun]
      exact .inl (Int.add_lt_add_left hwrap start.time)
    rcases hmark.1 htimeout with hlate | ⟨ti, ai, a, hmarks⟩
    · simp only [calm] at hlate
      have hlate' : stored.status.globalTimeout * second <
        start.time + stored.status.globalTimeout * second - start.time := hlate
      omega
    · exact not_marks_calm start.time _ ti ai a hmarks
  · intro ti ai a hat hstatus hsome hpos
    by_contra hbig
    obtain ⟨t, ht⟩ := Option.ne_none_iff_exists'.1 hsome
    obtain ⟨wflow, -, hmark, -⟩ := h fun _ => t.time + a.timeout * second
    have hwrap : seconds a.timeout < a.timeout * second := not_le.1 fun hle => hbig ((le_seconds_iff hpos).1 hle)
    have hmarks : Marks (fun _ => t.time + a.timeout * second) stored ti ai a := by
      refine marks_iff.2 ⟨by rw [hstart]; simp, hat, hstatus, t, ht, ?_⟩
      exact Int.add_lt_add_left hwrap t.time
    have hlate : a.timeout * second < t.time + a.timeout * second - t.time :=
      (hmark ti ai a t hat hstatus ht hpos).1 hmarks
    omega
  · rintro ⟨hglobal, hactions⟩ now
    have hrun : ∃ wflow, processRunningWorkflow now stored = .ok wflow := by
      rw [processRunningWorkflow, hstart]
      exact ⟨_, rfl⟩
    obtain ⟨wflow, hrun⟩ := hrun
    refine ⟨wflow, hrun, fun ti ai a t hat hstatus ht hpos => ?_, ?_⟩
    · have hexact := (seconds_eq_iff hpos).2 (hactions ti ai a hat hstatus (by rw [ht]; simp) hpos)
      rw [marks_iff, hexact]
      constructor
      · rintro ⟨-, -, -, t', ht', hlt⟩
        obtain rfl : t = t' := Option.some.inj (ht.symm.trans ht')
        exact lt_sub_iff_add_lt'.2 hlt
      · intro hlt
        exact ⟨by rw [hstart]; simp, hat, hstatus, t, ht, lt_sub_iff_add_lt'.1 hlt⟩
    · rw [processRunningWorkflow_timeout hrunning hstart hrun, (seconds_eq_iff hG).2 hglobal]
      exact or_congr_left lt_sub_iff_add_lt'.symm
  · rw [Worker.containerTimeout, if_pos hT]
    exact seconds_eq_iff hT

/-- The workflow with one running action, and a global timeout. -/
def sampleRunning (globalTimeout timeout : Int) : Workflow :=
  { running timeout with status := { (running timeout).status with globalTimeout := globalTimeout } }

theorem timeouts_exact_minute :
    (∀ now, ∃ wflow, processRunningWorkflow now (sampleRunning 600 60) = .ok wflow ∧
      (∀ ti ai a t, (sampleRunning 600 60).actionAt? ti ai = some a → a.status = .running → a.startedAt = some t →
        0 < a.timeout →
          (Marks now (sampleRunning 600 60) ti ai a ↔ a.timeout * second < now (.check ti ai) - t.time)) ∧
      (wflow.status.state = .timeout ↔
        600 * second < now .global - 0 ∨ ∃ ti ai a, Marks now (sampleRunning 600 60) ti ai a)) ∧
    Worker.containerTimeout 60 = 60 * second := by
  have h := timeouts_exact_iff (sampleRunning 600 60) ⟨0⟩ rfl rfl (by decide) 60 (by decide)
  refine ⟨h.1.2 ⟨by decide, fun ti ai a hat _ _ _ => ?_⟩, h.2.2 (by decide)⟩
  have hone : a.timeout = 60 := by
    unfold Workflow.actionAt? at hat
    cases ti with
    | zero =>
      cases ai with
      | zero => cases hat; rfl
      | succ ai => cases hat
    | succ ti => cases hat
  rw [hone]
  decide

/-- A timeout of 9223372037 seconds, for the action and the workflow: the product is negative, both are marked at
once, and the container is given a deadline in the past. -/
theorem long_timeout_marked :
    (∃ wflow a, processRunningWorkflow (fun _ => 1) (sampleRunning 9223372037 9223372037) = .ok wflow ∧
      wflow.status.state = .timeout ∧ Marks (fun _ => 1) (sampleRunning 9223372037 9223372037) 0 0 a ∧
      a.timeout = 9223372037 ∧ a.startedAt = some ⟨0⟩) ∧
    ¬ (9223372037 * second < 1 - 0) ∧ Worker.containerTimeout 9223372037 < 0 := by
  refine ⟨⟨_, _, rfl, by decide +kernel, marks_iff.2 ⟨by decide, rfl, rfl, ⟨0⟩, rfl, by decide⟩, rfl, rfl⟩,
    by decide, ?_⟩
  decide

end Kube

end Tink
