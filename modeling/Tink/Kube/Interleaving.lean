import Tink.Kube.History
import Tink.Lib.Versioned

/-!
# Interleavings of the server and the controller

A report and a reconciliation each read the workflow, possibly an old version of it from a cache, and write later.
The server writes with an update, which is rejected if the version it read is no longer the current one.  The
controller writes with a merge patch of what it changed, applied to whatever is stored at that moment, and a changed
task list replaces the stored one as a whole.

Without overlap the two are the atomic steps of a history (`atomic_eq_step`).  With overlap, a patch of a stale task
list undoes what was reported since (`acknowledged_success_lost`).  If every patch that carries a task list meets the
list it was computed from, then acknowledged successes stay and a workflow that is under way is not reset
(`acknowledged_success_kept`).
-/

namespace Tink.Kube

open GoTime Machine

/-- A report or a reconciliation between its read and its write. -/
structure InFlight where
  version : Nat
  copy : Workflow
  event : Event

/-- The API server with the jobs in flight, and the actions whose `SUCCESS` report was acknowledged. -/
structure Cluster where
  store : Versioned Workflow
  inFlight : List InFlight := []
  acked : List (String × String) := []

/-- A job reads the version `version`, or the job at position `i` writes and ends. -/
inductive Move where
  | read (version : Nat) (event : Event)
  | write (i : Nat)

/-- The write of a job. -/
def Cluster.finish (r : Template.Renderer TemplateData) (s : Cluster) (job : InFlight) : Cluster :=
  match job.event with
  | .report env req =>
    match reportActionStatus env job.copy req with
    | .error _ => s
    | .ok wf =>
      match s.store.update job.version wf with
      | none => s
      | some store =>
        { s with
          store := store
          acked := if req.actionStatus = .success then (req.taskName, req.actionName) :: s.acked else s.acked }
  | .reconcile env =>
    match env.getErr, reconcileCopy r env job.copy with
    | none, .ok (wflow, _) =>
      if wflow = job.copy ∨ env.patchErr.isSome then s
      else
        let current := s.store.current
        { s with store :=
          s.store.put { current with status := mergeFrom job.copy.status wflow.status current.status } }
    | _, _ => s

def Cluster.step (r : Template.Renderer TemplateData) (s : Cluster) : Move → Cluster
  | .read version event =>
    match s.store.get? version with
    | none => s
    | some copy => { s with inFlight := s.inFlight ++ [⟨version, copy, event⟩] }
  | .write i =>
    match s.inFlight[i]? with
    | none => s
    | some job => Cluster.finish r { s with inFlight := s.inFlight.eraseIdx i } job

/-- The cluster holds the workflow `wf` and no job is in flight. -/
def Cluster.init (wf : Workflow) : Cluster where
  store := ⟨[], wf⟩

variable {r : Template.Renderer TemplateData} {s : Cluster} {m : Move} {wf : Workflow}

/-- A job that reads the current version and writes at once is the atomic step of a history. -/
theorem atomic_eq_step (hs : s.inFlight = []) (e : Event) :
    (run (Cluster.step r) s [.read s.store.version e, .write 0]).store.current = step r s.store.current e := by
  have hread : Cluster.step r s (.read s.store.version e) =
      { s with inFlight := [⟨s.store.version, s.store.current, e⟩] } := by
    simp [Cluster.step, hs]
  rw [run_cons, run_cons, run_nil, hread]
  simp only [Cluster.step, List.getElem?_cons_zero, Cluster.finish]
  cases e with
  | report env req =>
    cases hr : reportActionStatus env s.store.current req <;> simp [step, hr, Versioned.update]
  | reconcile env =>
    simp only [step, reconcile]
    cases hg : env.getErr with
    | some g => cases g <;> simp
    | none =>
      cases hc : reconcileCopy r env s.store.current with
      | error e => exact e.elim
      | panic => simp
      | ok p =>
        obtain ⟨wflow, resp⟩ := p
        by_cases hw : wflow = s.store.current
        · simp [hw]
        · cases hp : env.patchErr <;> simp [hw]

/-! ### What the stored tasks say -/

/-- An action with these names and this status is among the tasks. -/
def Stored (tasks : List Task) (task action : String) (status : WorkflowState) : Prop :=
  ∃ t ∈ tasks, t.name = task ∧ ∃ a ∈ t.actions, a.name = action ∧ a.status = status

/-- Some action is past `PENDING`. -/
def UnderWay (tasks : List Task) : Prop := ∃ a ∈ actionsOf tasks, a.status ≠ .pending

theorem Stored.eq {tasks : List Task} {task action : String} {st st' : WorkflowState} (hu : UniqueNames tasks)
    (h : Stored tasks task action st) (h' : Stored tasks task action st') : st' = st := by
  obtain ⟨t, ht, htn, a, ha, han, rfl⟩ := h
  obtain ⟨t', ht', htn', a', ha', han', rfl⟩ := h'
  have he : t' = t := List.inj_on_of_nodup_map hu.taskNodup ht' ht (htn'.trans htn.symm)
  subst he
  have hea : a' = a := List.inj_on_of_nodup_map (hu.actionNodup t' ht) ha' ha (han'.trans han.symm)
  rw [hea]

section

variable {c : Cursor} {a : Action} {task action : String}

theorem Cursor.stored_replace_self (c : Cursor) (h : a.name = c.action.name) :
    Stored (c.replace a) c.task.name c.action.name a.status :=
  ⟨{ c.task with actions := c.done ++ a :: c.rest }, by simp [replace], rfl, a, by simp, h, rfl⟩

/-- A success is not at the cursor, so a change at the cursor keeps it. -/
private theorem Cursor.stored_replace (c : Cursor) (a : Action) (h : Stored c.tasks task action .success) :
    Stored (c.replace a) task action .success := by
  obtain ⟨t, ht, htn, b, hb, hbn, hbs⟩ := h
  rw [Cursor.tasks, List.mem_append, List.mem_cons] at ht
  rcases ht with ht | rfl | ht
  · exact ⟨t, by simp [replace, ht], htn, b, hb, hbn, hbs⟩
  · rw [c.actions_eq, List.mem_append, List.mem_cons] at hb
    refine ⟨{ c.task with actions := c.done ++ a :: c.rest }, by simp [replace], htn, b, ?_, hbn, hbs⟩
    rcases hb with hb | rfl | hb
    · simp [hb]
    · have hopen := c.action_open
      rw [hbs] at hopen; cases hopen
    · simp [hb]
  · exact ⟨t, by simp [replace, ht], htn, b, hb, hbn, hbs⟩

private theorem Stored.timed {ts ts' : List Task} (h : List.Forall₂ TimedTask ts ts')
    (hs : Stored ts task action .success) :
    Stored ts' task action .success := by
  obtain ⟨t, ht, htn, b, hb, hbn, hbs⟩ := hs
  obtain ⟨t', ht', hname, -, hacts⟩ := h.exists_of_mem_left ht
  obtain ⟨b', hb', rfl | ⟨hrun, -⟩⟩ := hacts.exists_of_mem_left hb
  · exact ⟨t', ht', hname.trans htn, b', hb', hbn, hbs⟩
  · rw [hbs] at hrun; cases hrun

private theorem UnderWay.timed {ts ts' : List Task} (h : List.Forall₂ TimedTask ts ts') (hs : UnderWay ts) :
    UnderWay ts' := by
  obtain ⟨b, hb, hne⟩ := hs
  obtain ⟨b', hb', rfl | ⟨-, ht, -⟩⟩ := (actionsOf_timed h).exists_of_mem_left hb
  · exact ⟨b', hb', hne⟩
  · exact ⟨b', hb', by rw [ht]; simp⟩

end

/-! ### What a move can do -/

theorem finish_cases (s : Cluster) (job : InFlight) :
    Cluster.finish r s job = s ∨
      (∃ env req wf store, job.event = .report env req ∧ reportActionStatus env job.copy req = .ok wf ∧
        s.store.update job.version wf = some store ∧
        Cluster.finish r s job = { s with
          store := store
          acked := if req.actionStatus = .success then (req.taskName, req.actionName) :: s.acked else s.acked }) ∨
      (∃ env wflow resp, job.event = .reconcile env ∧ reconcileCopy r env job.copy = .ok (wflow, resp) ∧
        wflow ≠ job.copy ∧
        Cluster.finish r s job = { s with
          store := s.store.put { s.store.current with
            status := mergeFrom job.copy.status wflow.status s.store.current.status } }) := by
  unfold Cluster.finish
  cases he : job.event with
  | report env req =>
    cases hr : reportActionStatus env job.copy req with
    | error _ => left; simp [hr]
    | ok wf =>
      cases hup : s.store.update job.version wf with
      | none => left; simp [hr, hup]
      | some store =>
        right; left
        exact ⟨env, req, wf, store, rfl, hr, hup, by simp [hr, hup]⟩
  | reconcile env =>
    cases hg : env.getErr with
    | some g => left; simp [hg]
    | none =>
      cases hc : reconcileCopy r env job.copy with
      | error e => exact e.elim
      | panic => left; simp [hg, hc]
      | ok p =>
        obtain ⟨wflow, resp⟩ := p
        by_cases hw : wflow = job.copy ∨ env.patchErr.isSome
        · left; simp only [hg, hc, hw, if_true]
        · right; right
          exact ⟨env, wflow, resp, rfl, hc, fun h => hw (Or.inl h), by simp only [hg, hc, hw, if_false]⟩

/-- A patch that carries a task list meets the list it was computed from. -/
def Move.Fresh (r : Template.Renderer TemplateData) (s : Cluster) : Move → Prop
  | .read _ _ => True
  | .write i =>
    ∀ job env wflow resp, s.inFlight[i]? = some job → job.event = .reconcile env →
      reconcileCopy r env job.copy = .ok (wflow, resp) → wflow.status.tasks ≠ job.copy.status.tasks →
        s.store.current.status.tasks = job.copy.status.tasks

/-- The check of `Fresh`. -/
def Move.isFresh (r : Template.Renderer TemplateData) (s : Cluster) : Move → Bool
  | .read _ _ => true
  | .write i =>
    match s.inFlight[i]? with
    | none => true
    | some job =>
      match job.event with
      | .report _ _ => true
      | .reconcile env =>
        match reconcileCopy r env job.copy with
        | .ok (wflow, _) =>
          wflow.status.tasks = job.copy.status.tasks ∨ s.store.current.status.tasks = job.copy.status.tasks
        | _ => true

private theorem Move.isFresh_iff : m.isFresh r s = true ↔ m.Fresh r s := by
  cases m with
  | read v e => exact iff_of_true rfl trivial
  | write i =>
    constructor
    · intro h job env wflow resp hj he hc
      simp only [Move.isFresh, hj, he, hc, decide_eq_true_eq] at h
      exact or_iff_not_imp_left.1 h
    · intro h
      rw [Move.isFresh]
      split
      · rfl
      · rename_i job hj
        split
        · rfl
        · rename_i env he
          split
          · rename_i wflow resp hc
            exact decide_eq_true (or_iff_not_imp_left.2 (h job env wflow resp hj he hc))
          · rfl

instance (r : Template.Renderer TemplateData) (s : Cluster) (m : Move) : Decidable (m.Fresh r s) :=
  decidable_of_iff _ Move.isFresh_iff

/-- What an interleaving with fresh patches keeps. -/
private structure Kept (s : Cluster) : Prop where
  copies : ∀ job ∈ s.inFlight, s.store.get? job.version = some job.copy
  unique : UniqueNames s.store.current.status.tasks
  unset : ∀ w ∈ s.store.versions, w.status.state = .unset → w.status.tasks = []
  acked : ∀ p ∈ s.acked, Stored s.store.current.status.tasks p.1 p.2 .success
  underWay : ∀ w ∈ s.store.versions, UnderWay w.status.tasks → UnderWay s.store.current.status.tasks

/-- The obligations of a write of `x`. -/
private theorem Kept.put (hk : Kept s) {x : Workflow} {acked : List (String × String)}
    (hu : UniqueNames x.status.tasks) (hunset : x.status.state = .unset → x.status.tasks = [])
    (hacked : ∀ p ∈ acked, Stored x.status.tasks p.1 p.2 .success)
    (hway : UnderWay s.store.current.status.tasks → UnderWay x.status.tasks) :
    Kept { s with store := s.store.put x, acked := acked } := by
  refine ⟨fun job hj => Versioned.get?_put (hk.copies job hj), ?_, ?_, ?_, ?_⟩
  · rw [Versioned.current_put]; exact hu
  · intro w hw hs
    rcases Versioned.mem_put.1 hw with hw | rfl
    · exact hk.unset w hw hs
    · exact hunset hs
  · rw [Versioned.current_put]; exact hacked
  · intro w hw hs
    rw [Versioned.current_put]
    rcases Versioned.mem_put.1 hw with hw | rfl
    · exact hway (hk.underWay w hw hs)
    · exact hs

/-- An accepted report of the current version. -/
private theorem Kept.report (hk : Kept s) {env : ReportEnv} {req : WorkflowActionStatus} {wf : Workflow}
    (hr : reportActionStatus env s.store.current req = .ok wf) :
    Kept { s with
      store := s.store.put wf
      acked := if req.actionStatus = .success then (req.taskName, req.actionName) :: s.acked else s.acked } := by
  rcases closed_or_cursor s.store.current.status.tasks with hclosed | ⟨c, hc⟩
  · exact absurd hr (report_closed hclosed env req)
  obtain ⟨hacc, rfl⟩ := (report_eq_ok hc (hc ▸ hk.unique)).1 hr
  have htasks : (c.reported env.now req.actionStatus s.store.current).status.tasks =
      c.replace (reportedAction env.now req.actionStatus c.action) := rfl
  have hself := c.stored_replace_self (reportedAction_name env.now req.actionStatus c.action)
  rw [reportedAction_status] at hself
  have hold : ∀ p ∈ s.acked,
      Stored (c.replace (reportedAction env.now req.actionStatus c.action)) p.1 p.2 .success := by
    intro p hp
    exact c.stored_replace _ (hc ▸ hk.acked p hp)
  refine hk.put ?_ ?_ ?_ ?_
  · exact UniqueNames.congr (c.skeleton_replace (by simp)) (hc ▸ hk.unique)
  · -- the tasks of the cursor are not empty, so the workflow has a state
    intro hs
    refine absurd hs (reportedState_ne_unset fun h => ?_)
    have hnil := hk.unset _ Versioned.current_mem h
    rw [hc, Cursor.tasks] at hnil
    simp at hnil
  · rw [htasks]
    split
    · rename_i hsucc
      intro p hp
      rcases List.mem_cons.1 hp with rfl | hp
      · rw [hsucc] at hself ⊢
        rw [hacc.named.task, hacc.named.action]; exact hself
      · exact hold p hp
    · exact hold
  · intro _
    refine ⟨reportedAction env.now req.actionStatus c.action, ?_, ?_⟩
    · rw [htasks, c.actionsOf_replace]; simp
    · rw [reportedAction_status]
      have hp := hacc.status
      cases hs : req.actionStatus <;> simp_all [stateName]

/-- A patch of a reconciliation that read `copy`. -/
private theorem Kept.patch (hk : Kept s) {env : ReconcileEnv} {copy wflow : Workflow} {resp : Result}
    (hcopy : copy ∈ s.store.versions) (hc : reconcileCopy r env copy = .ok (wflow, resp)) (hne : wflow ≠ copy)
    (hfresh : wflow.status.tasks ≠ copy.status.tasks → s.store.current.status.tasks = copy.status.tasks) :
    Kept { s with
      store := s.store.put { s.store.current with
        status := mergeFrom copy.status wflow.status s.store.current.status } } := by
  have hcases := (reconcileCopy_cases hc).resolve_left hne
  have hstate : (mergeFrom copy.status wflow.status s.store.current.status).state = .unset →
      s.store.current.status.state = .unset := by
    have hw : wflow.status.state ≠ .unset := by
      rcases hcases with ⟨-, text, data, tpl, buf, -, rfl⟩ | ⟨-, -, tasks, state, -, hs | hs, rfl⟩
      · simp [initialStatus]
      · simp [hs]
      · simp [hs]
    intro h
    unfold mergeFrom at h
    split at h
    · exact h
    · exact absurd h hw
  have hunset : (mergeFrom copy.status wflow.status s.store.current.status).state = .unset →
      s.store.current.status.tasks = [] := fun h => hk.unset _ Versioned.current_mem (hstate h)
  by_cases hcarry : wflow.status.tasks = copy.status.tasks
  · have htasks : (mergeFrom copy.status wflow.status s.store.current.status).tasks =
        s.store.current.status.tasks := by
      simp [mergeFrom, hcarry]
    refine hk.put ?_ ?_ ?_ ?_
    · rw [htasks]; exact hk.unique
    · rw [htasks]; exact hunset
    · rw [htasks]; exact hk.acked
    · rw [htasks]; exact id
  · have hcur := hfresh hcarry
    have htasks : (mergeFrom copy.status wflow.status s.store.current.status).tasks = wflow.status.tasks := by
      simp [mergeFrom, hcarry]
    rcases hcases with ⟨hs, text, data, tpl, buf, hrender, rfl⟩ | ⟨-, -, tasks, state, htimed, -, rfl⟩
    · -- a workflow without a state has no tasks yet
      rw [hk.unset copy hcopy hs] at hcur
      refine hk.put ?_ ?_ ?_ ?_
      · rw [htasks]; exact initial_unique (Template.renderTemplateHardware_accepted hrender).1
      · intro h
        simp [mergeFrom, initialStatus, hs] at h
      · intro p hp
        have := hk.acked p hp
        rw [hcur] at this
        obtain ⟨t, ht, -⟩ := this
        cases ht
      · rw [hcur]
        rintro ⟨a, ha, -⟩
        cases ha
    · rw [← hcur] at htimed
      refine hk.put ?_ ?_ ?_ ?_
      · rw [htasks]; exact UniqueNames.congr (skeleton_of_timed htimed) hk.unique
      · intro h
        rw [hunset h] at htimed
        rw [htasks]; exact List.forall₂_nil_left_iff.1 htimed
      · intro p hp
        rw [htasks]; exact (hk.acked p hp).timed htimed
      · intro h
        rw [htasks]; exact h.timed htimed

private theorem Kept.step (hk : Kept s) (hfresh : m.Fresh r s) : Kept (Cluster.step r s m) := by
  cases m with
  | read v e =>
    rw [Cluster.step]
    cases hg : s.store.get? v with
    | none => exact hk
    | some copy =>
      refine ⟨fun job hj => ?_, hk.unique, hk.unset, hk.acked, hk.underWay⟩
      rcases List.mem_append.1 hj with hj | hj
      · exact hk.copies job hj
      · rw [List.mem_singleton.1 hj]; exact hg
  | write i =>
    rw [Cluster.step]
    cases hi : s.inFlight[i]? with
    | none => exact hk
    | some job =>
      have hcopy := hk.copies job (List.mem_of_getElem? hi)
      have hk' : Kept { s with inFlight := s.inFlight.eraseIdx i } :=
        ⟨fun job hj => hk.copies job (List.mem_of_mem_eraseIdx hj), hk.unique, hk.unset, hk.acked, hk.underWay⟩
      rcases finish_cases (r := r) { s with inFlight := s.inFlight.eraseIdx i } job with
        h | ⟨env, req, wf, store, -, hr, hup, h⟩ | ⟨env, wflow, resp, he, hc, hne, h⟩
      · dsimp only; rw [h]; exact hk'
      · obtain ⟨hcur, rfl⟩ := Versioned.eq_current_of_update hcopy hup
        rw [hcur] at hr
        dsimp only; rw [h]; exact hk'.report hr
      · dsimp only; rw [h]
        exact hk'.patch (Versioned.mem_of_get? hcopy) hc hne (hfresh job env wflow resp hi he hc)

/-- In every interleaving whose patches are fresh, an acknowledged action is stored with `SUCCESS` and nothing else,
and a workflow of which some version was under way is under way. -/
theorem acknowledged_success_kept (hwf : wf.status = {}) {ms : List Move}
    (hfresh : Every (Cluster.step r) (fun s m => m.Fresh r s) (.init wf) ms) :
    Always (Cluster.step r)
      (fun s => (∀ p ∈ s.acked, ∀ st, Stored s.store.current.status.tasks p.1 p.2 st ↔ st = .success) ∧
        ((∃ w ∈ s.store.versions, UnderWay w.status.tasks) → UnderWay s.store.current.status.tasks))
      (.init wf) ms := by
  have h0 : Kept (.init wf) := by
    have htasks : wf.status.tasks = [] := by rw [hwf]
    refine ⟨by simp [Cluster.init], ?_, ?_, by simp [Cluster.init], ?_⟩
    · show UniqueNames wf.status.tasks
      rw [htasks]; exact ⟨by simp, by simp⟩
    · intro w hw _
      rw [show w = wf by simpa [Cluster.init, Versioned.versions] using hw]
      exact htasks
    · intro w hw h
      rw [show w = wf by simpa [Cluster.init, Versioned.versions] using hw] at h
      exact h
  refine (always_of_every h0 hfresh fun s m hk hf => hk.step hf).mono fun s hk => ⟨?_, ?_⟩
  · intro p hp st
    constructor
    · intro h
      exact Stored.eq hk.unique (hk.acked p hp) h
    · rintro rfl
      exact hk.acked p hp
  · rintro ⟨w, hw, h⟩
    exact hk.underWay w hw h

/-! ### Concrete interleavings -/

/-- The template of the interleavings below: one action with a timeout of a minute. -/
def oneAction : Template.Workflow := .ofNames [("os", "m1", ["stream"])]

/-- The workflow is initialised, its action reported `RUNNING` at time 0, and two minutes later a reconciliation and
the report of `SUCCESS` have both read the running workflow. -/
def racingMoves : List Move :=
  [.read 0 (.reconcile (.still 0)), .write 0,
   .read 1 (.reportOf 0 "os" "stream" .running), .write 0,
   .read 2 (.reconcile (.still (seconds 120))), .read 2 (.reportOf (seconds 120) "os" "stream" .success)]

/-- Two actions.  The report that the first one has succeeded overlaps with a reconciliation that has nothing to
write; the report about the second one overlaps with one that finds it timed out, whose patch is fresh and which
writes first. -/
def overlappingJobs : List Move :=
  [.read 0 (.reconcile (.still 0)), .write 0,
   .read 1 (.reportOf 0 "os" "stream" .running), .write 0,
   .read 2 (.reportOf (seconds 5) "os" "stream" .success), .read 2 (.reconcile (.still (seconds 3))),
   .write 0, .write 0,
   .read 3 (.reportOf (seconds 6) "os" "kexec" .running), .write 0,
   .read 4 (.reconcile (.still (seconds 120))), .read 4 (.reportOf (seconds 120) "os" "kexec" .success),
   .write 0, .write 0]

theorem acknowledged_success_kept_report_first :
    let r := Template.Renderer.reading TemplateData (.ofNames [("os", "m1", ["stream", "kexec"])])
    ∃ s, run (Cluster.step r) (.init (.ofStatus {})) overlappingJobs = s ∧ s.acked = [("os", "stream")] ∧
      statuses s.store.current = [.success, .timeout] ∧
        Stored s.store.current.status.tasks "os" "stream" .success := by
  intro r
  have hfresh : Every (Cluster.step r) (fun s m => m.Fresh r s) (.init (.ofStatus {})) overlappingJobs := by
    decide +kernel
  have hacked : (run (Cluster.step r) (.init (.ofStatus {})) overlappingJobs).acked = [("os", "stream")] := by
    decide +kernel
  have hstatuses : statuses (run (Cluster.step r) (.init (.ofStatus {})) overlappingJobs).store.current =
      [.success, .timeout] := by decide +kernel
  have hkept := (acknowledged_success_kept rfl hfresh).last
  generalize run (Cluster.step r) (.init (.ofStatus {})) overlappingJobs = s at hacked hstatuses hkept
  refine ⟨s, rfl, hacked, hstatuses, (hkept.1 ("os", "stream") ?_ .success).2 rfl⟩
  rw [hacked]
  exact List.mem_singleton_self _

/-- The report writes first and is acknowledged; the patch, computed from the running workflow, then replaces the task
list and the action is stored as timed out.  And a reconciliation that reads the first version once more resets the
workflow to all-`PENDING`. -/
theorem acknowledged_success_lost :
    (let s := run (Cluster.step (.reading _ oneAction)) (.init (.ofStatus {})) (racingMoves ++ [.write 1, .write 0])
     s.acked = [("os", "stream")] ∧ statuses s.store.current = [.timeout]) ∧
    (let s := run (Cluster.step (.reading _ oneAction)) (.init (.ofStatus {}))
       (racingMoves ++ [.write 1, .read 0 (.reconcile (.still 0)), .write 1])
     s.acked = [("os", "stream")] ∧
     s.store.versions.map statuses = [[], [.pending], [.running], [.success], [.pending]]) :=
  ⟨⟨rfl, rfl⟩, rfl, rfl⟩

end Tink.Kube
