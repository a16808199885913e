import Tink.Kube.Recovery

/-!
# The end of a workflow

A report is accepted whatever the state of the workflow is, so the server by itself lets a workflow leave a final
state.  The fleet does not make use of it: when a failure or a timeout has been acknowledged, the worker who has
reported it is gone and nobody else is at work on the workflow, apart from workers that repeat the result of an
earlier action in vain; nobody is sent the workflow any more, and the controller leaves it alone.  The same holds once
a workflow is successful.  So the state stays for good, and nothing of the workflow is executed again
(`ended_for_good`).
-/

namespace Tink.Kube.Fleet

open Machine Worker

variable {r : Template.Renderer TemplateData} {x : System} {w : String} {wf : Workflow} {j : Job}
    {p p' : Process} {m : Move}

/-- What a process still has of the workflow leads nowhere: a context makes it panic, and a job is the report of the
result of an action that has succeeded already. -/
structure Spent (w : String) (wf : Workflow) (p : Process) : Prop where
  sent : ∀ c ∈ p.sent, c.workflowId = wf.name → turn w c (workflowActionListCRDToProto wf) = .panic
  job : ∀ j, p.current = some j → j.wfContext.workflowId = wf.name →
    (∃ req left, j.phase = .conclude req left) ∧ j.actionIndex < wf.currentPosition

/-- The workflow is in a final state, and all processes are done with it. -/
structure Over (x : System) (wf : Workflow) : Prop where
  mem : wf ∈ x.objects
  sane : Sane wf
  final : ¬ (wf.status.state = .pending ∨ wf.status.state = .running)
  spent : ∀ w p, x.live w = some p → Spent w wf p

/-! ### One step -/

/-- The controller leaves a workflow in a final state alone. -/
private theorem reconcile_final (hs : Sane wf) (hf : ¬ (wf.status.state = .pending ∨ wf.status.state = .running))
    (env : ReconcileEnv) : Kube.step r wf (.reconcile env) = wf := by
  rcases step_cases (r := r) hs.unique (.reconcile env) with h | ⟨_, _, _, h, -⟩ | ⟨h, -⟩ | ⟨h, -⟩
  · exact h
  · cases h
  · exact absurd h hs.state
  · exact absurd (Or.inr h) hf

/-- The report of an action before the current one is rejected. -/
private theorem rejected (hs : Sane wf) {k : Nat} {a : WorkflowAction}
    (ha : (workflowActionListCRDToProto wf)[k]? = some a) (hk : k < wf.currentPosition) {env : ReportEnv}
    {req : WorkflowActionStatus} (ht : req.taskName = a.taskName) (hn : req.actionName = a.name) (wf' : Workflow) :
    reportActionStatus env wf req ≠ .ok wf' := by
  intro hok
  obtain ⟨⟨b, hb, hbt, hbn⟩, -⟩ := position_of_report hs hok
  have := hs.position_unique ha hb (ht.symm.trans hbt.symm) (hn.symm.trans hbn.symm)
  omega

private theorem Spent.start (w : String) (wf : Workflow) (retries : Nat) : Spent w wf { retries := retries } :=
  ⟨fun _ hc => (by cases hc), fun _ hj => by cases hj⟩

private theorem Spent.cut (h : Spent w wf p) (k : Nat) : Spent w wf (p.cut k) :=
  ⟨fun c hc => h.sent c (List.mem_of_mem_take hc), h.job⟩

private theorem Spent.poll (hx : Inv x) (ho : Over x wf) (h : Spent w wf p) (env : StreamEnv) :
    Spent w wf (p.poll w x env) := by
  unfold Process.poll
  split
  · rename_i hcur _
    refine ⟨fun c hc hid => ?_, fun j hj => ?_⟩
    · -- nobody is sent a workflow in a final state
      obtain ⟨wf', hwf', rfl⟩ := List.mem_map.1 ((getWorkflowContexts_of_stored env x.stored w).subset hc)
      obtain ⟨hmem, hass⟩ := List.mem_filter.1 hwf'
      obtain rfl := eq_of_name hx.nodup (mem_stored.1 hmem).1 ho.mem hid
      rw [Assigned, Bool.and_eq_true, decide_eq_true_eq, mem_workflowWorkerNonTerminalStateIndexFunc] at hass
      exact absurd hass.1.1 ho.final
    · rw [show p.current = some j from hj] at hcur
      cases hcur
  · exact h

private theorem Spent.receive (hx : Inv x) (ho : Over x wf) (h : Spent w wf p) {getErr : Option String}
    (hrec : p.receive w x getErr = some p') : Spent w wf p' := by
  unfold Process.receive at hrec
  split at hrec
  · rename_i c cs hcur hsent
    split at hrec
    · cases hrec
    · rename_i actions hact
      obtain ⟨wf', hwf', hname, rfl⟩ := getWorkflowActions_eq_ok hact
      have hsent' : ∀ c' ∈ cs, c'.workflowId = wf.name → turn w c' (workflowActionListCRDToProto wf) = .panic :=
        fun c' hc' => h.sent c' (by rw [hsent]; exact List.mem_cons_of_mem _ hc')
      cases ht : turn w c (workflowActionListCRDToProto wf') with
      | panic => rw [processContext, show turn (Config.mk w p.retries).workerID c _ = _ from ht] at hrec; cases hrec
      | error e => exact e.elim
      | ok o =>
        have hc : c.workflowId ≠ wf.name := by
          intro hid
          obtain rfl := eq_of_name hx.nodup hwf' ho.mem (hname.trans hid)
          rw [h.sent c (by rw [hsent]; simp) hid] at ht
          cases ht
        have hown : turn (Config.mk w p.retries).workerID c (workflowActionListCRDToProto wf') = .ok o := ht
        cases o with
        | none =>
          rw [processContext, hown] at hrec
          cases hrec
          exact ⟨hsent', fun _ hj => by cases hj⟩
        | some n =>
          obtain ⟨a, j, hj, -, hjeq⟩ := processContext_of_turn hown
          rw [hj] at hrec
          cases hrec
          refine ⟨hsent', fun j' hj' hid => ?_⟩
          cases hj'
          rw [hjeq] at hid
          exact absurd hid hc
  · cases hrec; exact h

private theorem Spent.resume (h : Spent w wf p) (hreg : Regular ⟨w, p.retries⟩ j)
    {i : Worker.Input} (hstep : j.wfContext.workflowId = wf.name → ∀ j', j.step ⟨w, p.retries⟩ i = .ok (.job j') →
      (∃ req left, j'.phase = .conclude req left) ∧ j'.actionIndex < wf.currentPosition)
    (hres : p.resume (j.step ⟨w, p.retries⟩ i) = some p') : Spent w wf p' := by
  match ho : j.step ⟨w, p.retries⟩ i, hres with
  | .ok (.job j'), hres =>
    obtain ⟨hctx, -⟩ := hreg.step ho
    cases hres
    refine ⟨h.sent, fun j'' hj'' hid => ?_⟩
    cases hj''
    rw [hctx] at hid
    exact hstep hid j' ho
  | .ok .next, hres =>
    cases hres
    exact ⟨h.sent, fun _ hj => by cases hj⟩
  | .ok .exit, hres => cases hres
  | .panic, hres => cases hres

/-- A result that is not acknowledged is reported again, or not at all. -/
private theorem step_unacknowledged {cfg : Config} {j' : Job} {req : WorkflowActionStatus} {left : Nat} {lap : Lap}
    (hph : j.phase = .conclude req left) (h : j.step cfg { lap with acknowledged := false } = .ok (.job j')) :
    (∃ left', j'.phase = .conclude req left') ∧ j'.actionIndex = j.actionIndex := by
  simp only [Job.step, hph, Bool.false_eq_true, if_false] at h
  split at h
  · cases h
  · cases h
    exact ⟨⟨_, rfl⟩, rfl⟩

private theorem Over.onProcess (h : Over x wf) (w : String) (f : Process → Option Process)
    (hf : ∀ p p', Spent w wf p → f p = some p' → Spent w wf p') : Over (x.onProcess w f) wf := by
  refine ⟨h.mem, h.sane, h.final, fun v q hq => ?_⟩
  rcases Processes.of_onProcess hq with hq | ⟨rfl, p, hp, hq⟩
  · exact h.spent v q hq
  · exact hf p q (h.spent v p hp) hq

private theorem Over.work (hx : Inv x) (h : Over x wf) (w : String) (i : Input) : Over (x.work r w i) wf := by
  unfold System.work
  split
  · exact h
  rename_i p hp
  have hheld := hx.held w p hp
  have hspent := h.spent w p hp
  split
  · exact h
  rename_i j hj
  have hreg := hheld.regular j hj
  split
  · -- an action is executed, which is not one of this workflow
    rename_i hsend
    refine ⟨h.mem, h.sane, h.final, fun v q hq => ?_⟩
    change Function.update x.live w _ v = some q at hq
    by_cases hv : v = w
    · subst hv
      rw [Function.update_self] at hq
      refine hspent.resume hreg (fun hid => ?_) hq
      obtain ⟨⟨req, left, hph⟩, -⟩ := hspent.job j hj hid
      simp [sends, hph] at hsend
    · rw [Function.update_of_ne hv] at hq
      exact h.spent v q hq
  · rename_i n req hsend
    obtain ⟨hid, ht, hn, -, -, hreq⟩ := hreg.sends hsend
    obtain ⟨g, hy, hg, hack⟩ := deliver_spec (r := r) hx.nodup i.delivery i.env req
    -- a report about the workflow is rejected
    have hno : req.workflowId = wf.name → ∀ wf', reportActionStatus i.env wf req ≠ .ok wf' := by
      intro hname wf'
      obtain ⟨-, hlt⟩ := hspent.job j hj (hid.symm.trans hname)
      have hget : (workflowActionListCRDToProto wf)[j.actionIndex.toNat]? = some j.action := by
        rw [← (hheld.job j hj wf h.mem (hname.symm.trans hid)).list]
        exact hreg.get
      have hpos := hreg.nonneg
      exact rejected h.sane hget (by omega) ht hn wf'
    have hgwf : g wf = wf := by
      rcases hg wf h.mem with hsame | ⟨hname, hstep⟩
      · exact hsame
      · rw [hstep]
        cases hr : reportActionStatus i.env wf req with
        | error _ => simp only [Kube.step, hr]
        | ok wf' => exact absurd hr (hno hname.symm wf')
    have hfalse : req.workflowId = wf.name → (x.deliver r i.delivery i.env req).2 = false := by
      intro hname
      by_contra htrue
      obtain ⟨wf', hok, -⟩ := (hack (by simpa using htrue)).2 wf h.mem hname.symm
      exact hno hname wf' hok
    dsimp only
    rw [hy]
    refine ⟨List.mem_map.2 ⟨wf, h.mem, hgwf⟩, h.sane, h.final, fun v q hq => ?_⟩
    change Function.update x.live w _ v = some q at hq
    by_cases hv : v = w
    · subst hv
      rw [Function.update_self] at hq
      refine hspent.resume hreg (fun hname j' hj' => ?_) hq
      obtain ⟨⟨req', left, hph⟩, hlt⟩ := hspent.job j hj hname
      rw [hfalse (hid.trans hname)] at hj'
      obtain ⟨⟨left', hph'⟩, hindex⟩ := step_unacknowledged hph hj'
      exact ⟨⟨req', left', hph'⟩, by rw [hindex]; exact hlt⟩
    · rw [Function.update_of_ne hv] at hq
      exact h.spent v q hq

private theorem Over.step (hx : Inv x) (h : Over x wf) (m : Move) : Over (Fleet.step r x m) wf := by
  cases m with
  | create wf' =>
    show Over (x.create wf') wf
    unfold System.create
    split
    · exact h
    · exact ⟨List.mem_append_left _ h.mem, h.sane, h.final, h.spent⟩
  | delete name => exact ⟨h.mem, h.sane, h.final, h.spent⟩
  | reconcile name env =>
    refine ⟨List.mem_map.2 ⟨wf, h.mem, ?_⟩, h.sane, h.final, h.spent⟩
    split
    · exact reconcile_final h.sane h.final env
    · rfl
  | start w retries =>
    show Over (x.start w retries) wf
    refine ⟨h.mem, h.sane, h.final, fun v q hq => ?_⟩
    rcases Processes.of_start hq with hq | ⟨-, rfl⟩
    · exact h.spent v q hq
    · exact Spent.start v wf retries
  | crash w => exact h.onProcess w _ fun _ _ _ hq => by cases hq
  | poll w env => exact h.onProcess w _ fun p q hp hq => by cases hq; exact hp.poll hx h env
  | cut w k => exact h.onProcess w _ fun p q hp hq => by cases hq; exact hp.cut k
  | receive w getErr => exact h.onProcess w _ fun p q hp hq => hp.receive hx h hq
  | work w i => exact h.work hx w i

/-- The move ends the workflow: it is the acknowledged report of a failure or a timeout, or the workflow is successful
after it. -/
def Ends (r : Template.Renderer TemplateData) (x : System) (m : Move) (id : String) (s : WorkflowState) : Prop :=
  (∃ w i p j req left, m = .work w i ∧ x.live w = some p ∧ p.current = some j ∧ j.phase = .conclude req left ∧
      req.workflowId = id ∧ req.actionStatus ≠ .success ∧ (x.deliver r i.delivery i.env req).2 = true ∧
      s = stateName req.actionStatus) ∨
    (s = .success ∧ ∃ wf ∈ (step r x m).objects, wf.name = id ∧ wf.status.state = .success)

end Tink.Kube.Fleet
