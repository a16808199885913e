import Tink.Worker.Job

/-!
# Reporting an action status

`reportActionStatus` (`cmd/tink-worker/worker/worker.go`) sends a report up to `retries` times, the `max-retry` flag
of the worker, and returns the error of the last attempt; the action loop takes `nil` for an acknowledgement.  The
counter and the flag are Go integers of 64 bits: with a flag that is not positive the loop body never runs and the
error is still `nil`, and with the largest one the counter wraps and the loop has no end.

The call is a machine over the server's answers, and `ActionLoop` is the action loop with the calls it makes inside
it.  Up to the largest flag it does what the loop of `Tink.Worker.Job` does, where the attempts left are counted down
(`mirrors_run`).
-/

namespace Tink.Worker

open Machine

/-- Where a call is: waiting for the answer to the attempt that the counter gives, or returned. -/
inductive Reporting where
  | attempt (r : Int64)
  | returned (err : Option String)
deriving DecidableEq

/-- The head of the `for`, with the counter and the error as they are. -/
def Reporting.enter (retries r : Int64) (err : Option String) : Reporting :=
  if r ≤ retries then .attempt r else .returned err

/-- A call, up to its first attempt. -/
def reportActionStatus (retries : Int64) : Reporting := Reporting.enter retries 1 none

/-- The body of the `for`: the answer of the server, which is an error or an acknowledgement. -/
def Reporting.answer (retries : Int64) : Reporting → Option String → Reporting
  | .attempt _, none => .returned none
  | .attempt r, some err => enter retries (r + 1) (some err)
  | .returned err, _ => .returned err

variable {retries r : Int64} {answers : Nat → Option String} {err : Option String} {workerID : String}

/-! ### One call -/

/-- A call after `n` answers. -/
def reporting (retries : Int64) (answers : Nat → Option String) (n : Nat) : Reporting :=
  run (Reporting.answer retries) (reportActionStatus retries) ((List.range n).map answers)

/-- Answer `k`, counted from 0, is the answer to an attempt. -/
def Attempts (retries : Int64) (answers : Nat → Option String) (k : Nat) : Prop :=
  ∃ r, reporting retries answers k = .attempt r

/-- What the callers of `reportActionStatus` count on. -/
structure Delivered (retries : Int64) (answers : Nat → Option String) : Prop where
  nil_iff : (∃ n, reporting retries answers n = .returned none) ↔ ∃ k, Attempts retries answers k ∧ answers k = none
  last : ∀ k m, Attempts retries answers k → answers k = none → k < m → ¬ Attempts retries answers m
  count : ∀ k, Attempts retries answers k → (k : Int) + 1 ≤ max retries.toInt 1

private theorem reporting_succ (n : Nat) :
    reporting retries answers (n + 1) = (reporting retries answers n).answer retries (answers n) := by
  unfold reporting
  rw [List.range_succ, List.map_append]
  exact run_concat

private theorem toInt_pos (h : 0 < retries) : 0 < retries.toInt := by
  rwa [Int64.lt_iff_toInt_lt, Int64.toInt_zero] at h

private theorem one_le_iff : 1 ≤ retries ↔ 0 < retries := by
  rw [Int64.le_iff_toInt_le, Int64.lt_iff_toInt_lt, Int64.toInt_one, Int64.toInt_zero]
  omega

private theorem reportActionStatus_of_pos (h : 0 < retries) : reportActionStatus retries = .attempt 1 :=
  if_pos (one_le_iff.2 h)

private theorem reportActionStatus_of_nonpos (h : ¬ 0 < retries) : reportActionStatus retries = .returned none :=
  if_neg fun h' => h (one_le_iff.1 h')

private theorem toInt_succ (h : r ≠ Int64.maxValue) : (r + 1).toInt = r.toInt + 1 := by
  have hlow := r.le_toInt
  have hhigh := r.toInt_le
  have hne : r.toInt ≠ Int64.maxValue.toInt := fun he => h (Int64.toInt_inj.1 he)
  rw [Int64.toInt_maxValue] at hhigh hne
  rw [Int64.toInt_add, Int64.toInt_one, Int.bmod_eq_of_le]
  · omega
  · omega

/-- A call that has returned does not change any more. -/
private theorem reporting_of_returned {n m : Nat} (h : reporting retries answers n = .returned err) (hm : n ≤ m) :
    reporting retries answers m = .returned err := by
  induction m, hm using Nat.le_induction with
  | base => exact h
  | succ m _ ih => rw [reporting_succ, ih]; rfl

private theorem reporting_of_acknowledged {k : Nat} (h : Attempts retries answers k) (hk : answers k = none) :
    reporting retries answers (k + 1) = .returned none := by
  obtain ⟨r, hr⟩ := h
  rw [reporting_succ, hr, hk]
  rfl

private theorem not_attempts_of_acknowledged {k m : Nat} (h : Attempts retries answers k) (hk : answers k = none)
    (hm : k < m) : ¬ Attempts retries answers m := by
  rintro ⟨r, hr⟩
  rw [reporting_of_returned (reporting_of_acknowledged h hk) hm] at hr
  cases hr

private theorem Attempts.of_le {k m : Nat} (h : Attempts retries answers m) (hk : k ≤ m) :
    Attempts retries answers k := by
  obtain ⟨r, hr⟩ := h
  cases hs : reporting retries answers k with
  | attempt r' => exact ⟨r', hs⟩
  | returned err =>
    rw [reporting_of_returned hs hk] at hr
    cases hr

/-- Once the first attempt is made, `nil` is the answer to an attempt. -/
private theorem acknowledged_of_nil (hpos : 0 < retries) {n : Nat}
    (h : reporting retries answers n = .returned none) :
    ∃ k, Attempts retries answers k ∧ answers k = none := by
  induction n with
  | zero =>
    have h0 : reportActionStatus retries = .returned none := h
    rw [reportActionStatus_of_pos hpos] at h0
    cases h0
  | succ n ih =>
    cases hs : reporting retries answers n with
    | returned err =>
      rw [reporting_succ, hs] at h
      cases h
      exact ih hs
    | attempt r =>
      cases ha : answers n with
      | none => exact ⟨n, ⟨r, hs⟩, ha⟩
      | some e =>
        rw [reporting_succ, hs, ha] at h
        simp only [Reporting.answer, Reporting.enter] at h
        split at h <;> cases h

/-- The counter after an answer that is an error. -/
private theorem enter_succ_cases (hmax : retries ≠ Int64.maxValue) (hle : r.toInt ≤ retries.toInt) (e : String) :
    (r.toInt + 1 ≤ retries.toInt ∧ (r + 1).toInt = r.toInt + 1 ∧
        Reporting.enter retries (r + 1) (some e) = .attempt (r + 1)) ∨
      (r.toInt = retries.toInt ∧ Reporting.enter retries (r + 1) (some e) = .returned (some e)) := by
  have hne : r ≠ Int64.maxValue := by
    rintro rfl
    exact hmax (Int64.le_antisymm (Int64.le_maxValue retries) (Int64.le_iff_toInt_le.2 hle))
  have hsucc := toInt_succ hne
  by_cases hlt : r.toInt + 1 ≤ retries.toInt
  · left
    refine ⟨hlt, hsucc, if_pos ?_⟩
    rw [Int64.le_iff_toInt_le]
    omega
  · right
    refine ⟨by omega, if_neg ?_⟩
    rw [Int64.le_iff_toInt_le]
    omega

/-- An answer after which there is another attempt has moved the counter by one. -/
private theorem answer_eq_attempt (hmax : retries ≠ Int64.maxValue) (hle : r.toInt ≤ retries.toInt)
    {a : Option String} {r' : Int64} (h : Reporting.answer retries (.attempt r) a = .attempt r') :
    r'.toInt = r.toInt + 1 ∧ r'.toInt ≤ retries.toInt := by
  cases a with
  | none => cases h
  | some e =>
    rcases enter_succ_cases hmax hle e with ⟨hle', hsucc, hr⟩ | ⟨-, hr⟩
    · have he : Reporting.attempt (r + 1) = .attempt r' := hr.symm.trans h
      cases he
      exact ⟨hsucc, by omega⟩
    · have he : Reporting.returned (some e) = .attempt r' := hr.symm.trans h
      cases he

/-- The counter gives the number of the attempt, and no attempt is past the flag, as long as the counter cannot
wrap. -/
private theorem counter_of_attempt (hpos : 0 < retries) (hmax : retries ≠ Int64.maxValue) {k : Nat}
    (h : reporting retries answers k = .attempt r) : r.toInt = k + 1 ∧ r.toInt ≤ retries.toInt := by
  induction k generalizing r with
  | zero =>
    have h0 : reportActionStatus retries = .attempt r := h
    rw [reportActionStatus_of_pos hpos] at h0
    cases h0
    exact ⟨Int64.toInt_one, toInt_pos hpos⟩
  | succ k ih =>
    obtain ⟨r', hr'⟩ := Attempts.of_le ⟨r, h⟩ (Nat.le_succ k)
    obtain ⟨hcount, hle⟩ := ih hr'
    rw [reporting_succ, hr'] at h
    obtain ⟨hsucc, hle'⟩ := answer_eq_attempt hmax hle h
    refine ⟨?_, hle'⟩
    rw [hsucc, hcount]
    rfl

/-- With the largest flag a call does not end by itself. -/
private theorem attempts_of_max {n : Nat} (h : ∀ k < n, answers k ≠ none) : Attempts Int64.maxValue answers n := by
  induction n with
  | zero =>
    have hpos : 0 < Int64.maxValue := by decide
    exact ⟨1, reportActionStatus_of_pos hpos⟩
  | succ n ih =>
    obtain ⟨r, hr⟩ := ih fun k hk => h k (by omega)
    cases ha : answers n with
    | none => exact absurd ha (h n (Nat.lt_succ_self n))
    | some e =>
      refine ⟨r + 1, ?_⟩
      rw [reporting_succ, hr, ha]
      exact if_pos (Int64.le_maxValue _)

private theorem delivered_count (hpos : 0 < retries)
    (h : retries = Int64.maxValue → ∃ k : Nat, (k : Int) < retries.toInt ∧ answers k = none) {k : Nat}
    (hk : Attempts retries answers k) :
    (k : Int) + 1 ≤ max retries.toInt 1 := by
  refine Int.le_trans ?_ (Int.le_max_left retries.toInt 1)
  by_cases hmax : retries = Int64.maxValue
  · obtain ⟨k₀, hlt, hk₀⟩ := h hmax
    have hle : k ≤ k₀ := by
      by_contra hlt'
      exact not_attempts_of_acknowledged (hk.of_le (by omega)) hk₀ (by omega) hk
    omega
  · obtain ⟨r, hr⟩ := hk
    obtain ⟨hcount, hle⟩ := counter_of_attempt hpos hmax hr
    omega

private theorem delivered_iff : Delivered retries answers ↔
    0 < retries ∧ (retries = Int64.maxValue → ∃ k : Nat, (k : Int) < retries.toInt ∧ answers k = none) := by
  constructor
  · intro h
    constructor
    · by_contra hpos
      have hnil : reporting retries answers 0 = .returned none := reportActionStatus_of_nonpos hpos
      obtain ⟨k, ⟨r, hr⟩, -⟩ := h.nil_iff.1 ⟨0, hnil⟩
      rw [reporting_of_returned hnil (Nat.zero_le k)] at hr
      cases hr
    · rintro rfl
      by_contra hno
      have hfailed : ∀ k < Int64.maxValue.toInt.toNat, answers k ≠ none := by
        intro k hk hack
        exact hno ⟨k, by omega, hack⟩
      -- one attempt more than the flag says
      have hlast := h.count Int64.maxValue.toInt.toNat (attempts_of_max hfailed)
      rw [Int64.toInt_maxValue] at hlast
      omega
  · rintro ⟨hpos, hmax⟩
    refine ⟨⟨?_, ?_⟩, ?_, fun k hk => delivered_count hpos hmax hk⟩
    · rintro ⟨n, hn⟩
      exact acknowledged_of_nil hpos hn
    · rintro ⟨k, hk, hack⟩
      exact ⟨k + 1, reporting_of_acknowledged hk hack⟩
    · intro k m hk hack hm
      exact not_attempts_of_acknowledged hk hack hm

/-! ### The action loop -/

/-- The action loop, and the call of `reportActionStatus` it is in or will make next.  The loop sees a report as one
call, so its `Progress` is that of a worker that sends every report once. -/
structure ActionLoop where
  progress : Outcome Empty Progress
  report : Reporting

/-- What comes from outside: the answer to an attempt, and what a lap of the loop meets otherwise. -/
structure Reply extends Lap where
  answer : Option String := none

/-- A worker that has received a context and read its actions. -/
def ActionLoop.start (retries : Int64) (workerID : String) (c : WorkflowContext) (actions : List WorkflowAction) :
    ActionLoop :=
  ⟨processContext ⟨workerID, 1⟩ c actions, reportActionStatus retries⟩

def ActionLoop.step (retries : Int64) (workerID : String) (s : ActionLoop) (i : Reply) : ActionLoop :=
  match s.progress with
  | .ok (.job j) =>
    match j.phase, s.report with
    | .execute, _ => ⟨j.step ⟨workerID, 1⟩ { i.toLap with }, reportActionStatus retries⟩
    | _, .attempt r => ⟨.ok (.job j), Reporting.answer retries (.attempt r) i.answer⟩
    -- back from the call: an error ends the process, `nil` goes on
    | _, .returned err =>
      ⟨j.step ⟨workerID, 1⟩ { i.toLap with acknowledged := err.isNone }, reportActionStatus retries⟩
  | _ => s

/-- Whenever the loop goes on to the next action, it was reporting that the last one has succeeded, and an attempt of
that report was acknowledged. -/
def NextReported (retries : Int64) (workerID : String) (s : ActionLoop) (is : List Reply) : Prop :=
  ∀ p i j j', p ++ [i] <+: is → (run (ActionLoop.step retries workerID) s p).progress = .ok (.job j) →
    (run (ActionLoop.step retries workerID) s (p ++ [i])).progress = .ok (.job j') →
      j'.actionIndex = j.actionIndex + 1 →
    ∃ actionStatus left, j.phase = .conclude actionStatus left ∧ actionStatus.actionStatus = .success ∧
      ∃ q b r, q ++ [b] <+: p ∧ run (ActionLoop.step retries workerID) s q = ⟨.ok (.job j), .attempt r⟩ ∧
        b.answer = none

variable {job job' : Job} {s : ActionLoop} {i : Reply}

private theorem step_execute (hj : s.progress = .ok (.job job)) (hph : job.phase = .execute) :
    s.step retries workerID i = ⟨job.step ⟨workerID, 1⟩ { i.toLap with }, reportActionStatus retries⟩ := by
  simp only [ActionLoop.step, hj, hph]

private theorem step_attempt (hph : job.phase ≠ .execute) :
    (⟨.ok (.job job), .attempt r⟩ : ActionLoop).step retries workerID i =
      ⟨.ok (.job job), Reporting.answer retries (.attempt r) i.answer⟩ := by
  cases h : job.phase with
  | execute => exact absurd h hph
  | announce left => simp only [ActionLoop.step, h]
  | conclude actionStatus left => simp only [ActionLoop.step, h]

private theorem step_returned (hph : job.phase ≠ .execute) :
    (⟨.ok (.job job), .returned err⟩ : ActionLoop).step retries workerID i =
      ⟨job.step ⟨workerID, 1⟩ { i.toLap with acknowledged := err.isNone }, reportActionStatus retries⟩ := by
  cases h : job.phase with
  | execute => exact absurd h hph
  | announce left => simp only [ActionLoop.step, h]
  | conclude actionStatus left => simp only [ActionLoop.step, h]

/-- A step of the loop that goes on to the next action comes from an acknowledged `SUCCESS`. -/
private theorem Job.success_of_step {cfg : Config} {i : Input} (hpos : 0 < cfg.retries)
    (h : job.step cfg i = .ok (.job job')) (hindex : job'.actionIndex = job.actionIndex + 1) :
    i.acknowledged = true ∧ ∃ actionStatus left, job.phase = .conclude actionStatus left ∧
      actionStatus.actionStatus = .success := by
  -- every other step keeps the position
  have hsame : ∀ phase, (Outcome.ok (Progress.job { job with phase := phase }) : Outcome Empty Progress) ≠
      .ok (.job job') := by
    intro phase he
    cases he
    simp only at hindex
    omega
  unfold Job.step at h
  split at h
  · split at h
    · exact absurd h (hsame _)
    · split at h
      · cases h
      · exact absurd h (hsame _)
  · split at h
    · cases h
    · exact absurd h (hsame _)
  · rename_i actionStatus left hph
    split at h
    · rename_i hack
      refine ⟨hack, actionStatus, left, hph, ?_⟩
      by_contra hne
      rw [Job.concluded, if_pos hne] at h
      cases h
    · split at h
      · cases h
      · exact absurd h (hsame _)

/-- A call of the run that has returned `nil` was acknowledged. -/
private theorem acknowledged_of_returned (hpos : 0 < retries) (s₀ : ActionLoop)
    (h₀ : s₀.report = reportActionStatus retries)
    (p : List Reply) (hj : run (ActionLoop.step retries workerID) s₀ p = ⟨.ok (.job job), .returned none⟩) :
    ∃ q b r, q ++ [b] <+: p ∧ run (ActionLoop.step retries workerID) s₀ q = ⟨.ok (.job job), .attempt r⟩ ∧
      b.answer = none := by
  have hfresh : ∀ x : Outcome Empty Progress,
      (⟨x, reportActionStatus retries⟩ : ActionLoop) ≠ ⟨.ok (.job job), .returned none⟩ := by
    intro x he
    rw [reportActionStatus_of_pos hpos] at he
    cases he
  -- the call has returned in the last step, whose input is the answer
  rcases List.eq_nil_or_concat' p with rfl | ⟨p, i, rfl⟩
  · rw [run_nil] at hj
    rw [hj, reportActionStatus_of_pos hpos] at h₀
    cases h₀
  · rw [run_concat] at hj
    match hs : run (ActionLoop.step retries workerID) s₀ p with
    | ⟨.ok (.job j), report⟩ =>
      rw [hs] at hj
      by_cases he : j.phase = .execute
      · rw [step_execute rfl he] at hj
        exact absurd hj (hfresh _)
      · match report with
        | .returned err =>
          rw [step_returned he] at hj
          exact absurd hj (hfresh _)
        | .attempt r =>
          rw [step_attempt he] at hj
          cases ha : i.answer with
          | none =>
            rw [ha] at hj
            cases hj
            exact ⟨p, i, r, List.prefix_refl _, hs, ha⟩
          | some e =>
            rw [ha] at hj
            simp only [Reporting.answer, Reporting.enter] at hj
            split at hj <;> cases hj
    | ⟨.ok .next, _⟩ | ⟨.ok .exit, _⟩ | ⟨.panic, _⟩ => rw [hs] at hj; cases hj
    | ⟨.error e, _⟩ => exact e.elim

private theorem nextReported_of_pos (hpos : 0 < retries) (s₀ : ActionLoop)
    (h₀ : s₀.report = reportActionStatus retries) (is : List Reply) : NextReported retries workerID s₀ is := by
  intro p i j j' hp hj hj' hindex
  rw [run_concat] at hj'
  obtain ⟨x, report, hs⟩ : ∃ x report, run (ActionLoop.step retries workerID) s₀ p = ⟨x, report⟩ := ⟨_, _, rfl⟩
  rw [hs] at hj hj'
  cases hj
  by_cases he : j.phase = .execute
  · rw [step_execute rfl he] at hj'
    obtain ⟨-, actionStatus, left, hph, -⟩ := Job.success_of_step Nat.one_pos hj' hindex
    rw [hph] at he
    cases he
  · cases report with
    | attempt r =>
      rw [step_attempt he] at hj'
      cases hj'
      omega
    | returned err =>
      rw [step_returned he] at hj'
      obtain ⟨hack, actionStatus, left, hph, hsuccess⟩ := Job.success_of_step Nat.one_pos hj' hindex
      have herr : err = none := Option.isNone_iff_eq_none.1 hack
      rw [herr] at hs
      exact ⟨actionStatus, left, hph, hsuccess, acknowledged_of_returned hpos s₀ h₀ p hs⟩

/-! ### Counting down -/

def Phase.counted (left : Nat) : Phase → Phase
  | .announce _ => .announce left
  | .execute => .execute
  | .conclude actionStatus _ => .conclude actionStatus left

/-- The same progress with `left` attempts left for the report. -/
def counted (left : Nat) : Outcome Empty Progress → Outcome Empty Progress
  | .ok (.job j) => .ok (.job { j with phase := j.phase.counted left })
  | x => x

/-- The loop where the attempts left are counted down is at the point that `s` has come to; with a call that has
returned, it has still to see the answer to the last attempt. -/
def ActionLoop.Mirrored (retries : Int64) (s : ActionLoop) (x : Outcome Empty Progress) : Prop :=
  match s.report with
  | .attempt r => x = counted (retries.toInt - r.toInt + 1).toNat s.progress
  | .returned err => ∃ left, (err ≠ none → left ≤ 1) ∧ x = counted left s.progress

private theorem iteration_counted {n : Nat} (hn : 0 < n) (c : WorkflowContext) (actions : List WorkflowAction)
    (k : Int) :
    iteration ⟨workerID, n⟩ c actions k = counted n (iteration ⟨workerID, 1⟩ c actions k) := by
  unfold iteration
  cases (Outcome.index actions k : Outcome Empty WorkflowAction) with
  | ok a =>
    by_cases hs : c.currentActionState = .running
    · simp [counted, Phase.counted, hs]
    · simp [counted, Phase.counted, hs, hn]
  | error e => exact e.elim
  | panic => rfl

private theorem concluded_counted {n : Nat} (hn : 0 < n) (job : Job) (status : State) (updated : Bool) :
    job.concluded ⟨workerID, n⟩ status updated = counted n (job.concluded ⟨workerID, 1⟩ status updated) := by
  unfold Job.concluded
  split_ifs
  · rfl
  · rfl
  · rfl
  · cases (Outcome.index job.actions (job.actionIndex + 1) : Outcome Empty WorkflowAction) with
    | ok a =>
      simp only [Outcome.ok_bind]
      split
      · rfl
      · exact iteration_counted hn _ _ _
    | error e => exact e.elim
    | panic => rfl

private theorem processContext_counted {n : Nat} (hn : 0 < n) (c : WorkflowContext) (actions : List WorkflowAction) :
    processContext ⟨workerID, n⟩ c actions = counted n (processContext ⟨workerID, 1⟩ c actions) := by
  unfold processContext
  cases turn workerID c actions with
  | ok o =>
    cases o with
    | none => rfl
    | some k => exact iteration_counted hn c actions k
  | error e => exact e.elim
  | panic => rfl

/-- What holds in the loop: the counter is between 1 and the flag, every report is one call, and an action is executed
between two calls. -/
structure ActionLoop.Counts (retries : Int64) (s : ActionLoop) : Prop where
  counter : ∀ r, s.report = .attempt r → 1 ≤ r.toInt ∧ r.toInt ≤ retries.toInt
  once : counted 1 s.progress = s.progress
  between : ∀ j, s.progress = .ok (.job j) → j.phase = .execute → s.report = reportActionStatus retries

private theorem counts_fresh (hpos : 0 < retries) {x : Outcome Empty Progress} (hx : counted 1 x = x) :
    (⟨x, reportActionStatus retries⟩ : ActionLoop).Counts retries := by
  refine ⟨?_, hx, fun _ _ _ => rfl⟩
  intro r hr
  rw [reportActionStatus_of_pos hpos] at hr
  cases hr
  have := toInt_pos hpos
  rw [Int64.toInt_one]
  omega

private theorem step_once (hph : job.phase.counted 1 = job.phase) (i : Input) :
    counted 1 (job.step ⟨workerID, 1⟩ i) = job.step ⟨workerID, 1⟩ i := by
  unfold Job.step
  cases h : job.phase with
  | announce left =>
    rw [h] at hph
    cases hph
    cases i.acknowledged <;> rfl
  | execute => cases i.fetched <;> rfl
  | conclude actionStatus left =>
    rw [h] at hph
    cases hph
    cases i.acknowledged with
    | false => rfl
    | true => exact (concluded_counted Nat.one_pos job actionStatus.actionStatus i.updated).symm

private theorem phase_counted_of_once {x : Outcome Empty Progress} (h : counted 1 x = x) (hx : x = .ok (.job job)) :
    job.phase.counted 1 = job.phase := by
  rw [hx] at h
  have hj : { job with phase := job.phase.counted 1 } = job := by
    simpa only [counted, Outcome.ok.injEq, Progress.job.injEq] using h
  exact congrArg Job.phase hj

private theorem ActionLoop.Counts.step (hpos : 0 < retries) (hmax : retries ≠ Int64.maxValue) (h : s.Counts retries)
    (i : Reply) : (s.step retries workerID i).Counts retries := by
  obtain ⟨x, report⟩ := s
  match x, report with
  | .ok .next, _ | .ok .exit, _ | .panic, _ => exact h
  | .error e, _ => exact e.elim
  | .ok (.job j), report =>
    have hph := phase_counted_of_once h.once rfl
    by_cases he : j.phase = .execute
    · rw [step_execute rfl he]
      exact counts_fresh hpos (step_once hph _)
    · match report with
      | .returned err =>
        rw [step_returned he]
        exact counts_fresh hpos (step_once hph _)
      | .attempt r =>
        rw [step_attempt he]
        refine ⟨?_, h.once, ?_⟩
        · intro r' hr'
          obtain ⟨h1, hle⟩ := h.counter r rfl
          obtain ⟨hsucc, hle'⟩ := answer_eq_attempt hmax hle hr'
          omega
        · intro j' hj' hj'ex
          cases hj'
          exact absurd hj'ex he

/-- An answer to an attempt: it is the last one and the loop that counts down has still to see it, or it was an error
and that loop counts down. -/
private theorem mirrored_attempt (workerID : String) (hmax : retries ≠ Int64.maxValue) {x : Outcome Empty Progress}
    (h : (⟨.ok (.job job), .attempt r⟩ : ActionLoop).Counts retries) (hph : job.phase ≠ .execute)
    (hx : (⟨.ok (.job job), .attempt r⟩ : ActionLoop).Mirrored retries x) (answer : Option String) :
    (⟨.ok (.job job), Reporting.answer retries (.attempt r) answer⟩ : ActionLoop).Mirrored retries x ∨
      (⟨.ok (.job job), Reporting.answer retries (.attempt r) answer⟩ : ActionLoop).Mirrored retries
        (Worker.step ⟨workerID, retries.toInt.toNat⟩ x { acknowledged := false }) := by
  obtain ⟨h1, hle⟩ := h.counter r rfl
  have hx : x = counted (retries.toInt - r.toInt + 1).toNat (.ok (.job job)) := hx
  cases answer with
  | none =>
    left
    exact ⟨_, fun hne => absurd rfl hne, hx⟩
  | some e =>
    rcases enter_succ_cases hmax hle e with ⟨hle', hsucc, hr⟩ | ⟨heq, hr⟩
    · right
      have hleft : ¬ (retries.toInt - r.toInt + 1).toNat ≤ 1 := by omega
      have hleft' : (retries.toInt - (r.toInt + 1) + 1).toNat = (retries.toInt - r.toInt + 1).toNat - 1 := by omega
      simp only [Reporting.answer, hr, ActionLoop.Mirrored, hsucc, hx]
      cases hj : job.phase with
      | execute => exact absurd hj hph
      | announce left => simp [counted, Phase.counted, Worker.step, Job.step, hj, hleft, hleft']
      | conclude actionStatus left => simp [counted, Phase.counted, Worker.step, Job.step, hj, hleft, hleft']
    · left
      simp only [Reporting.answer, hr, ActionLoop.Mirrored, hx]
      exact ⟨_, fun _ => by omega, rfl⟩

/-- The loop that counts down sees the answer when the call has returned. -/
private theorem mirrored_returned (hn : 0 < retries.toInt.toNat) {left : Nat} (hleft : err ≠ none → left ≤ 1)
    (honce : job.phase.counted 1 = job.phase) (hph : job.phase ≠ .execute) (lap : Lap) :
    Worker.step ⟨workerID, retries.toInt.toNat⟩ (counted left (.ok (.job job)))
        { lap with acknowledged := err.isNone } =
      counted retries.toInt.toNat (job.step ⟨workerID, 1⟩ { lap with acknowledged := err.isNone }) := by
  cases hj : job.phase with
  | execute => exact absurd hj hph
  | announce k =>
    rw [hj] at honce
    cases honce
    cases err with
    | none => simp [counted, Phase.counted, Worker.step, Job.step, hj]
    | some e => simp [counted, Phase.counted, Worker.step, Job.step, hj, hleft]
  | conclude actionStatus k =>
    rw [hj] at honce
    cases honce
    cases err with
    | none =>
      simp only [counted, Phase.counted, Worker.step, Job.step, hj, Option.isNone_none, if_true]
      exact concluded_counted hn job actionStatus.actionStatus lap.updated
    | some e => simp [counted, Phase.counted, Worker.step, Job.step, hj, hleft]

/-- The loop that counts down either waits or takes a step. -/
private theorem mirrored_step (hpos : 0 < retries) (hmax : retries ≠ Int64.maxValue) (h : s.Counts retries)
    {x : Outcome Empty Progress} (hx : s.Mirrored retries x) (i : Reply) :
    (s.step retries workerID i).Mirrored retries x ∨
      ∃ i', (s.step retries workerID i).Mirrored retries (Worker.step ⟨workerID, retries.toInt.toNat⟩ x i') := by
  have hn := toInt_pos hpos
  have hnpos : 0 < retries.toInt.toNat := by omega
  have hfresh : (retries.toInt - (1 : Int64).toInt + 1).toNat = retries.toInt.toNat := by
    rw [Int64.toInt_one]
    omega
  obtain ⟨y, report⟩ := s
  match y, report with
  | .ok .next, _ | .ok .exit, _ | .panic, _ => left; exact hx
  | .error e, _ => exact e.elim
  | .ok (.job j), report =>
    have honce := phase_counted_of_once h.once rfl
    by_cases he : j.phase = .execute
    · right
      refine ⟨{ i.toLap with }, ?_⟩
      have hreport : report = reportActionStatus retries := h.between j rfl he
      rw [hreport, reportActionStatus_of_pos hpos] at hx
      have hx : x = counted (retries.toInt - (1 : Int64).toInt + 1).toNat (.ok (.job j)) := hx
      rw [step_execute rfl he, reportActionStatus_of_pos hpos, hx]
      simp only [ActionLoop.Mirrored, counted, Phase.counted, Worker.step, Job.step, he, hfresh, if_pos hnpos]
      cases i.fetched <;> rfl
    · match report with
      | .returned err =>
        right
        obtain ⟨left, hleft, rfl⟩ := hx
        refine ⟨{ i.toLap with acknowledged := err.isNone }, ?_⟩
        rw [step_returned he, reportActionStatus_of_pos hpos, mirrored_returned hnpos hleft honce he]
        simp only [ActionLoop.Mirrored, hfresh]
      | .attempt r =>
        rw [step_attempt he]
        rcases mirrored_attempt workerID hmax h he hx i.answer with hwait | hstep
        · left; exact hwait
        · right; exact ⟨_, hstep⟩

/-- Up to the largest flag, whatever the action loop does is what the loop that counts the attempts down does. -/
theorem mirrors_run (hpos : 0 < retries) (hmax : retries ≠ Int64.maxValue) (c : WorkflowContext)
    (actions : List WorkflowAction) (is : List Reply) :
    ∃ is', (run (ActionLoop.step retries workerID) (.start retries workerID c actions) is).Mirrored retries
      (run (Worker.step ⟨workerID, retries.toInt.toNat⟩) (processContext ⟨workerID, retries.toInt.toNat⟩ c actions)
        is') := by
  have hnpos : 0 < retries.toInt.toNat := by
    have := toInt_pos hpos
    omega
  have hcounts : ∀ is, (run (ActionLoop.step retries workerID) (.start retries workerID c actions) is).Counts
      retries := by
    intro is
    refine run_inv (I := fun s : ActionLoop => s.Counts retries) ?_ fun s i h => h.step hpos hmax i
    exact counts_fresh hpos (processContext_counted Nat.one_pos c actions).symm
  induction is using List.reverseRecOn with
  | nil =>
    refine ⟨[], ?_⟩
    rw [run_nil, run_nil, processContext_counted hnpos, ActionLoop.start, reportActionStatus_of_pos hpos]
    simp [ActionLoop.Mirrored]
  | append_singleton is i ih =>
    obtain ⟨is', hrun⟩ := ih
    rw [run_concat]
    rcases mirrored_step hpos hmax (hcounts is) hrun i with hwait | ⟨i', hstep⟩
    · exact ⟨is', hwait⟩
    · refine ⟨is' ++ [i'], ?_⟩
      rw [run_concat]
      exact hstep

/-! ### What is delivered -/

/-- Without attempts every call returns `nil` at once, and the loop runs as if every report was acknowledged. -/
private theorem run_of_nonpos (hpos : ¬ 0 < retries) (x : Outcome Empty Progress) (is : List Reply) :
    run (ActionLoop.step retries workerID) ⟨x, .returned none⟩ is =
      ⟨run (Worker.step ⟨workerID, 1⟩) x (is.map fun i => { i.toLap with }), .returned none⟩ := by
  induction is generalizing x with
  | nil => rfl
  | cons i is ih =>
    have hstep : ActionLoop.step retries workerID ⟨x, .returned none⟩ i =
        ⟨Worker.step ⟨workerID, 1⟩ x { i.toLap with }, .returned none⟩ := by
      match x with
      | .ok (.job j) =>
        by_cases he : j.phase = .execute
        · rw [step_execute rfl he, reportActionStatus_of_nonpos hpos]
          rfl
        · rw [step_returned he, reportActionStatus_of_nonpos hpos]
          cases hph : j.phase with
          | execute => exact absurd hph he
          | announce left => simp only [Worker.step, Job.step, hph, Option.isNone_none]
          | conclude actionStatus left => simp only [Worker.step, Job.step, hph, Option.isNone_none]
      | .ok .next | .ok .exit | .panic => rfl
      | .error e => exact e.elim
    rw [run_cons, hstep, ih, List.map_cons, run_cons]

private def twoActions : List WorkflowAction :=
  [{ taskName := "os", name := "stream", workerId := "m1" }, { taskName := "os", name := "kexec", workerId := "m1" }]

private theorem not_nextReported_of_nonpos (hpos : ¬ 0 < retries) :
    ¬ NextReported retries "m1" (.start retries "m1" {} twoActions) [{}, {}, {}] := by
  have hrun : ∀ is, run (ActionLoop.step retries "m1") (.start retries "m1" {} twoActions) is =
      ⟨run (Worker.step ⟨"m1", 1⟩) (processContext ⟨"m1", 1⟩ {} twoActions) (is.map fun i => { i.toLap with }),
        .returned none⟩ := by
    intro is
    rw [ActionLoop.start, reportActionStatus_of_nonpos hpos]
    exact run_of_nonpos hpos _ is
  intro h
  unfold NextReported at h
  simp only [hrun] at h
  obtain ⟨-, -, -, -, q, b, r, -, hq, -⟩ := h [{}, {}] {} _ _ (List.prefix_refl _) rfl rfl rfl
  have hr : Reporting.returned none = .attempt r := congrArg ActionLoop.report hq
  cases hr

/-- A report is delivered if and only if the flag is positive, and, if it is the largest number, one of that many
attempts is acknowledged; and the action loop of a worker never goes on to the next action with an unreported
`SUCCESS` if and only if the flag is positive. -/
theorem report_delivered_iff (retries : Int64) (answers : Nat → Option String) :
    (Delivered retries answers ↔
      0 < retries ∧ (retries = Int64.maxValue → ∃ k : Nat, (k : Int) < retries.toInt ∧ answers k = none)) ∧
    ((∀ workerID c actions is, NextReported retries workerID (.start retries workerID c actions) is) ↔
      0 < retries) := by
  refine ⟨delivered_iff, ?_, ?_⟩
  · intro h
    by_contra hpos
    exact not_nextReported_of_nonpos hpos (h "m1" {} twoActions [{}, {}, {}])
  · intro hpos workerID c actions is
    exact nextReported_of_pos hpos _ rfl is

/-- With `max-retry` 0 a call returns `nil` without an attempt, and the loop goes on to the second action. -/
theorem unsent_report_delivered :
    (¬ Delivered 0 fun _ => none) ∧ reportActionStatus 0 = .returned none ∧
      ¬ NextReported 0 "m1" (.start 0 "m1" {}
        [{ taskName := "os", name := "stream", workerId := "m1" },
          { taskName := "os", name := "kexec", workerId := "m1" }]) [{}, {}, {}] := by
  refine ⟨?_, reportActionStatus_of_nonpos (by decide), not_nextReported_of_nonpos (by decide)⟩
  intro h
  exact absurd (delivered_iff.1 h).1 (by decide)

end Tink.Worker
