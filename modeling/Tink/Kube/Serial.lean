import Tink.Kube.Interleaving

/-!
# Concurrent reports are serialisable

Any number of reports and reconciliations are in flight, and each has read some version of the workflow, possibly an
old one.  An update that names the version it was computed from is stored only if that version is the current one.  So
the reports that are answered without an error have the effect of being handled one after the other, in the order in
which they are written, and each of them is accepted there; all others have no effect (`interleaving_serialisable`).
A reconciliation fits in if its patch meets the workflow it was computed from, which the API server does not check.
-/

namespace Tink.Kube

open GoTime Machine

variable {r : Template.Renderer TemplateData} {s : Cluster} {m : Move} {wf : Workflow}

/-- The event that takes effect with the write of a job: a report that is answered without an error, or a
reconciliation whose patch is applied. -/
def InFlight.commit (r : Template.Renderer TemplateData) (s : Cluster) (job : InFlight) : Option Event :=
  match job.event with
  | .report env req =>
    match reportActionStatus env job.copy req with
    | .error _ => none
    | .ok wf => (s.store.update job.version wf).map fun _ => .report env req
  | .reconcile env =>
    match env.getErr, reconcileCopy r env job.copy with
    | none, .ok (wflow, _) => if wflow = job.copy ∨ env.patchErr.isSome then none else some (.reconcile env)
    | _, _ => none

/-- The event that takes effect with a move. -/
def Cluster.commit (r : Template.Renderer TemplateData) (s : Cluster) : Move → Option Event
  | .read _ _ => none
  | .write i => (s.inFlight[i]?).bind (InFlight.commit r s)

/-- The events that take effect in a run, in the order of their writes. -/
def Cluster.history (r : Template.Renderer TemplateData) : Cluster → List Move → List Event
  | _, [] => []
  | s, m :: ms => (s.commit r m).toList ++ Cluster.history r (Cluster.step r s m) ms

/-- A report that the server accepts. -/
def Event.Accepted (wf : Workflow) : Event → Prop
  | .report env req => ∃ wf', reportActionStatus env wf req = .ok wf'
  | .reconcile _ => True

/-- The action that the event acknowledges as successful. -/
def Event.acknowledges : Event → Option (String × String)
  | .report _ req => if req.actionStatus = .success then some (req.taskName, req.actionName) else none
  | .reconcile _ => none

/-- A patch that is applied meets the workflow it was computed from. -/
def Move.Undisturbed (r : Template.Renderer TemplateData) (s : Cluster) : Move → Prop
  | .read _ _ => True
  | .write i =>
    ∀ job env, s.inFlight[i]? = some job → job.event = .reconcile env → (job.commit r s).isSome = true →
      job.copy = s.store.current

/-- What is in flight has been read. -/
def Cluster.Copied (s : Cluster) : Prop := ∀ job ∈ s.inFlight, s.store.get? job.version = some job.copy

/-! ### One move -/

/-- `s'` is `s` after the event has taken effect, on the current version and accepted there. -/
private def Took (r : Template.Renderer TemplateData) (s s' : Cluster) : Option Event → Prop
  | none => s'.store = s.store ∧ s'.acked = s.acked
  | some e =>
    e.Accepted s.store.current ∧ s'.store = s.store.put (step r s.store.current e) ∧
      s'.acked = e.acknowledges.toList ++ s.acked

private theorem took_report {env : ReportEnv} {req : WorkflowActionStatus} {v : Nat} {copy : Workflow}
    (hcopy : s.store.get? v = some copy) :
    Took r s (Cluster.finish r s ⟨v, copy, .report env req⟩) (InFlight.commit r s ⟨v, copy, .report env req⟩) := by
  simp only [InFlight.commit, Cluster.finish]
  cases hr : reportActionStatus env copy req with
  | error err => exact ⟨rfl, rfl⟩
  | ok wf =>
    cases hup : s.store.update v wf with
    | none => simp only [hup, Option.map_none]; exact ⟨rfl, rfl⟩
    | some store =>
      obtain ⟨rfl, rfl⟩ := Versioned.eq_current_of_update hcopy hup
      simp only [hup, Option.map_some]
      refine ⟨⟨wf, hr⟩, by simp only [step, hr], ?_⟩
      simp only [Event.acknowledges]
      split <;> rfl

private theorem took_reconcile {env : ReconcileEnv} {v : Nat} {copy : Workflow}
    (hcur : (InFlight.commit r s ⟨v, copy, .reconcile env⟩).isSome = true → copy = s.store.current) :
    Took r s (Cluster.finish r s ⟨v, copy, .reconcile env⟩) (InFlight.commit r s ⟨v, copy, .reconcile env⟩) := by
  simp only [InFlight.commit, Cluster.finish] at hcur ⊢
  cases hg : env.getErr with
  | some g => exact ⟨rfl, rfl⟩
  | none =>
    rw [hg] at hcur
    cases hc : reconcileCopy r env copy with
    | error e => exact e.elim
    | panic => exact ⟨rfl, rfl⟩
    | ok p =>
      obtain ⟨wflow, resp⟩ := p
      by_cases hw : wflow = copy ∨ env.patchErr.isSome
      · simp only [hw, if_true]; exact ⟨rfl, rfl⟩
      · simp only [hc, hw, if_false, Option.isSome_some, forall_const] at hcur ⊢
        subst hcur
        obtain ⟨hne, hnone⟩ := not_or.1 hw
        have hnone : env.patchErr = none := by simpa using hnone
        refine ⟨trivial, ?_, rfl⟩
        simp [step, reconcile, hg, hc, hne, hnone]

/-- A move that is undisturbed has the effect of the event it commits. -/
private theorem took_step (hs : s.Copied) (hm : m.Undisturbed r s) :
    Took r s (Cluster.step r s m) (s.commit r m) := by
  cases m with
  | read v e =>
    simp only [Cluster.step, Cluster.commit]
    split <;> exact ⟨rfl, rfl⟩
  | write i =>
    simp only [Cluster.commit, Cluster.step]
    cases hi : s.inFlight[i]? with
    | none => exact ⟨rfl, rfl⟩
    | some job =>
      obtain ⟨v, copy, e⟩ := job
      cases e with
      | report env req =>
        exact took_report (s := { s with inFlight := s.inFlight.eraseIdx i }) (hs _ (List.mem_of_getElem? hi))
      | reconcile env =>
        exact took_reconcile (s := { s with inFlight := s.inFlight.eraseIdx i }) (hm _ env hi rfl)

private theorem Cluster.Copied.finish (hs : s.Copied) (job : InFlight) : (Cluster.finish r s job).Copied := by
  rcases finish_cases (r := r) s job with h | ⟨_, _, wf, store, -, -, hup, h⟩ | ⟨_, _, _, -, -, -, h⟩
  · rw [h]; exact hs
  · rw [h]
    obtain rfl : s.store.put wf = store := by
      unfold Versioned.update at hup
      split at hup
      · exact Option.some.inj hup
      · cases hup
    exact fun job hj => Versioned.get?_put (hs job hj)
  · rw [h]; exact fun job hj => Versioned.get?_put (hs job hj)

private theorem Cluster.Copied.step (hs : s.Copied) (m : Move) : (Cluster.step r s m).Copied := by
  cases m with
  | read v e =>
    rw [Cluster.step]
    cases hg : s.store.get? v with
    | none => exact hs
    | some copy =>
      intro job hj
      rcases List.mem_append.1 hj with hj | hj
      · exact hs job hj
      · rw [List.mem_singleton.1 hj]; exact hg
  | write i =>
    rw [Cluster.step]
    cases hi : s.inFlight[i]? with
    | none => exact hs
    | some job =>
      have hs' : Cluster.Copied { s with inFlight := s.inFlight.eraseIdx i } :=
        fun job hj => hs job (List.mem_of_mem_eraseIdx hj)
      exact hs'.finish job

/-! ### Whole runs -/

/-- From any cluster: the events that take effect lead from its current version to the last one, one after the
other. -/
private theorem history_spec {ms : List Move} (hs : s.Copied)
    (hm : Every (Cluster.step r) (fun s m => m.Undisturbed r s) s ms) :
    (run (Cluster.step r) s ms).store.current = run (step r) s.store.current (s.history r ms) ∧
      Every (step r) Event.Accepted s.store.current (s.history r ms) ∧
      (run (Cluster.step r) s ms).acked = ((s.history r ms).filterMap Event.acknowledges).reverse ++ s.acked := by
  induction ms generalizing s with
  | nil => exact ⟨rfl, every_nil, rfl⟩
  | cons m ms ih =>
    obtain ⟨hm0, hms⟩ := every_cons.1 hm
    have htook := took_step hs hm0
    obtain ⟨hcur, hacc, hack⟩ := ih (hs.step m) hms
    rw [run_cons, hcur, hack, Cluster.history]
    cases hc : s.commit r m with
    | none =>
      rw [hc] at htook
      rw [htook.1, htook.2] at *
      exact ⟨rfl, hacc, rfl⟩
    | some e =>
      rw [hc] at htook
      obtain ⟨hacc0, hst, hak⟩ := htook
      have hnow : (Cluster.step r s m).store.current = step r s.store.current e := by rw [hst, Versioned.current_put]
      rw [hnow] at hacc ⊢
      refine ⟨rfl, every_cons.2 ⟨hacc0, hacc⟩, ?_⟩
      rw [hak, Option.toList_some, List.singleton_append, List.filterMap_cons]
      cases e.acknowledges <;> simp

/-- In every interleaving in which no patch meets another workflow than the one it was computed from, the stored
workflow is what the events that took effect make of the first one, one after the other; each of their reports is
accepted in its turn; and the successes that were acknowledged are those of these reports. -/
theorem interleaving_serialisable {ms : List Move}
    (hm : Every (Cluster.step r) (fun s m => m.Undisturbed r s) (.init wf) ms) :
    (run (Cluster.step r) (.init wf) ms).store.current = run (step r) wf (Cluster.history r (.init wf) ms) ∧
      Every (step r) Event.Accepted wf (Cluster.history r (.init wf) ms) ∧
      (run (Cluster.step r) (.init wf) ms).acked =
        ((Cluster.history r (.init wf) ms).filterMap Event.acknowledges).reverse := by
  have hcopied : (Cluster.init wf).Copied := by intro job hj; cases hj
  have h := history_spec hcopied hm
  exact ⟨h.1, h.2.1, h.2.2.trans (List.append_nil _)⟩

/-- The workflow is initialised; two reports of `RUNNING` read the same version and the later one writes first; then a
report of `SUCCESS` and a reconciliation that has nothing to change read the same version. -/
def overlappingMoves : List Move :=
  [.read 0 (.reconcile (.still 0)), .write 0,
   .read 1 (.reportOf 0 "os" "stream" .running), .read 1 (.reportOf (seconds 1) "os" "stream" .running),
   .write 1, .write 0,
   .read 2 (.reportOf (seconds 5) "os" "stream" .success), .read 2 (.reconcile (.still (seconds 3))),
   .write 0, .write 0]

theorem interleaving_serialisable_overlapping :
    Cluster.history (.reading _ oneAction) (.init (.ofStatus {})) overlappingMoves =
        [.reconcile (.still 0), .reportOf (seconds 1) "os" "stream" .running,
          .reportOf (seconds 5) "os" "stream" .success] ∧
      (run (Cluster.step (.reading _ oneAction)) (.init (.ofStatus {})) overlappingMoves).store.current =
        run (step (.reading _ oneAction)) (.ofStatus {})
          [.reconcile (.still 0), .reportOf (seconds 1) "os" "stream" .running,
            .reportOf (seconds 5) "os" "stream" .success] := by
  have hm : Every (Cluster.step (.reading _ oneAction)) (fun s m => m.Undisturbed (.reading _ oneAction) s)
      (.init (.ofStatus {})) overlappingMoves := by
    simp only [overlappingMoves, every_cons]
    refine ⟨trivial, ?_, trivial, trivial, ?_, ?_, trivial, trivial, ?_, ?_, every_nil⟩
    · intro job env hj _ _; cases hj; rfl
    · intro job env hj he; cases hj; cases he
    · intro job env hj he; cases hj; cases he
    · intro job env hj he; cases hj; cases he
    · -- the last reconciliation has read an old version, but it has nothing to write
      intro job env hj _ hc
      cases hj; cases hc
  have hh : Cluster.history (.reading _ oneAction) (.init (.ofStatus {})) overlappingMoves =
      [.reconcile (.still 0), .reportOf (seconds 1) "os" "stream" .running,
        .reportOf (seconds 5) "os" "stream" .success] := by rfl
  exact ⟨hh, hh ▸ (interleaving_serialisable hm).1⟩

end Tink.Kube
