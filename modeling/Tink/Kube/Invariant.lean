import Tink.Kube.Turns

/-!
# The invariant of the fleet on the Kubernetes backend

Every process holds contexts and at most one job, each of another workflow, and all of them are as they should be for
the workflows there are (`Held`).  `Inv.step` goes through the moves of the system: a new workflow is one that nobody
has heard of, a reconciliation moves no position, and a report is about an action of the reporting worker.
-/

namespace Tink.Kube.Fleet

open Machine Worker

variable {r : Template.Renderer TemplateData} {x : System} {w : String} {wf wf' : Workflow}
    {c : WorkflowContext} {j : Job}

/-! ### Deliveries -/

theorem mem_stored : wf ∈ x.stored ↔ wf ∈ x.objects ∧ wf.name ∉ x.deleted := by
  rw [System.stored, List.mem_filter, decide_eq_true_eq]

theorem find?_stored {name : String} (h : x.stored.find? (fun wf => wf.name = name) = some wf) :
    wf ∈ x.stored ∧ wf.name = name :=
  ⟨List.mem_of_find?_eq_some h, by simpa using List.find?_some h⟩

/-- The workflow of the given name. -/
theorem eq_of_name (hn : (x.objects.map Workflow.name).Nodup) (h : wf ∈ x.objects) (h' : wf' ∈ x.objects)
    (he : wf.name = wf'.name) : wf = wf' :=
  List.inj_on_of_nodup_map hn h h' he

/-- A delivery is at most the event of a report of the workflow it names, and if it is acknowledged then the report is
accepted. -/
theorem deliver_spec (hn : (x.objects.map Workflow.name).Nodup) (d : Delivery) (env : ReportEnv)
    (req : WorkflowActionStatus) :
    ∃ g : Workflow → Workflow, (x.deliver r d env req).1 = { x with objects := x.objects.map g } ∧
      (∀ wf ∈ x.objects, g wf = wf ∨ (wf.name = req.workflowId ∧ g wf = Kube.step r wf (.report env req))) ∧
      ((x.deliver r d env req).2 = true → (∃ wf ∈ x.objects, wf.name = req.workflowId) ∧
        ∀ wf ∈ x.objects, wf.name = req.workflowId →
          ∃ wf', reportActionStatus env wf req = .ok wf' ∧ g wf = wf') := by
  have hcases : ∀ wf ∈ x.objects,
      (if wf.name = req.workflowId ∧ req.workflowId ∉ x.deleted then Kube.step r wf (.report env req) else wf) = wf ∨
        (wf.name = req.workflowId ∧
          (if wf.name = req.workflowId ∧ req.workflowId ∉ x.deleted then Kube.step r wf (.report env req) else wf) =
            Kube.step r wf (.report env req)) := by
    intro wf _
    split
    · rename_i h
      right; exact ⟨h.1, rfl⟩
    · left; rfl
  cases d with
  | undelivered =>
    refine ⟨id, by simp [System.deliver], fun wf _ => Or.inl rfl, fun h => by cases h⟩
  | lost => exact ⟨_, rfl, hcases, fun h => by cases h⟩
  | answered =>
    refine ⟨_, rfl, hcases, fun h => ?_⟩
    simp only [System.deliver] at h
    split at h
    · cases h
    · rename_i wf₀ hfind
      obtain ⟨hmem, hname⟩ := find?_stored hfind
      obtain ⟨hobj, hdel⟩ := mem_stored.1 hmem
      refine ⟨⟨wf₀, hobj, hname⟩, fun wf hwf hwfn => ?_⟩
      obtain rfl := eq_of_name hn hwf hobj (hwfn.trans hname.symm)
      split at h
      · rename_i wf' hok
        refine ⟨wf', hok, ?_⟩
        rw [if_pos ⟨hname, hname ▸ hdel⟩]
        simp only [Kube.step, hok]
      · cases h

/-! ### What a process has -/

/-- All a process has to do with is as it should be. -/
structure Held (os : List Workflow) (w : String) (p : Process) : Prop where
  ids : p.ids.Nodup
  known : ∀ id ∈ p.ids, id ∈ os.map Workflow.name
  regular : ∀ j, p.current = some j → Regular ⟨w, p.retries⟩ j
  sent : ∀ c ∈ p.sent, ∀ wf ∈ os, wf.name = c.workflowId → Offered w wf c
  job : ∀ j, p.current = some j → ∀ wf ∈ os, wf.name = j.wfContext.workflowId → Engaged ⟨w, p.retries⟩ wf j

structure Inv (x : System) : Prop where
  nodup : (x.objects.map Workflow.name).Nodup
  sane : ∀ wf ∈ x.objects, wf.status = {} ∨ Sane wf
  held : ∀ w p, x.live w = some p → Held x.objects w p

variable {p p' : Process} {os : List Workflow} {g : Workflow → Workflow}

theorem Process.mem_ids {id : String} : id ∈ p.ids ↔
    (∃ j, p.current = some j ∧ j.wfContext.workflowId = id) ∨ ∃ c ∈ p.sent, c.workflowId = id := by
  simp [Process.ids]

private theorem Held.sane (hp : Held os w p) (hwf : wf ∈ os) (hid : wf.name ∈ p.ids) : Sane wf := by
  rcases Process.mem_ids.1 hid with ⟨j, hj, hname⟩ | ⟨c, hc, hname⟩
  · exact (hp.job j hj wf hwf hname.symm).sane
  · exact (hp.sent c hc wf hwf hname.symm).sane

private theorem Held.known_map (hp : Held os w p) (hname : ∀ wf ∈ os, (g wf).name = wf.name) :
    ∀ id ∈ p.ids, id ∈ (os.map g).map Workflow.name := by
  intro id hid
  obtain ⟨wf, hwf, rfl⟩ := List.mem_map.1 (hp.known id hid)
  rw [List.map_map]
  exact List.mem_map.2 ⟨wf, hwf, hname wf hwf⟩

/-- A process is not disturbed by events that spare it. -/
private theorem Held.map (hp : Held os w p) (hname : ∀ wf ∈ os, (g wf).name = wf.name)
    (hg : ∀ wf ∈ os, wf.name ∈ p.ids → Spares w wf (g wf)) : Held (os.map g) w p := by
  refine ⟨hp.ids, hp.known_map hname, hp.regular, fun c hc wf' hwf' hc' => ?_, fun j hj wf' hwf' hj' => ?_⟩
  · obtain ⟨wf, hwf, rfl⟩ := List.mem_map.1 hwf'
    rw [hname wf hwf] at hc'
    exact (hp.sent c hc wf hwf hc').spared (hg wf hwf (Process.mem_ids.2 (Or.inr ⟨c, hc, hc'.symm⟩)))
  · obtain ⟨wf, hwf, rfl⟩ := List.mem_map.1 hwf'
    rw [hname wf hwf] at hj'
    exact (hp.job j hj wf hwf hj').spared (hg wf hwf (Process.mem_ids.2 (Or.inl ⟨j, hj, hj'.symm⟩)))

/-- A process after a step of its own job, where only the workflow of the job has seen an event. -/
private theorem Held.resume (hp : Held os w p) (hj : p.current = some j) (hname : ∀ wf ∈ os, (g wf).name = wf.name)
    (hother : ∀ wf ∈ os, wf.name ≠ j.wfContext.workflowId → g wf = wf) {i : Worker.Input}
    (hstep : ∀ j', j.step ⟨w, p.retries⟩ i = .ok (.job j') → ∀ wf ∈ os, wf.name = j.wfContext.workflowId →
      Engaged ⟨w, p.retries⟩ (g wf) j')
    (hres : p.resume (j.step ⟨w, p.retries⟩ i) = some p') : Held (os.map g) w p' := by
  have hids : p.ids = j.wfContext.workflowId :: p.sent.map WorkflowContext.workflowId := by simp [Process.ids, hj]
  have hnodup := hp.ids
  rw [hids, List.nodup_cons] at hnodup
  have hknown := hp.known_map hname
  -- the contexts in the stream are about other workflows
  have hsent : ∀ c ∈ p.sent, ∀ wf ∈ os.map g, wf.name = c.workflowId → Offered w wf c := by
    intro c hc wf' hwf' hc'
    obtain ⟨wf, hwf, rfl⟩ := List.mem_map.1 hwf'
    rw [hname wf hwf] at hc'
    have hne : wf.name ≠ j.wfContext.workflowId := by
      intro h
      refine hnodup.1 (List.mem_map.2 ⟨c, hc, ?_⟩)
      rw [← hc', h]
    rw [hother wf hwf hne]
    exact hp.sent c hc wf hwf hc'
  match ho : j.step ⟨w, p.retries⟩ i, hres with
  | .ok (.job j'), hres =>
    obtain ⟨hctx, hreg⟩ := (hp.regular j hj).step ho
    cases hres
    have hids' : Process.ids { p with current := some j' } = p.ids := by simp [Process.ids, hj, hctx]
    refine ⟨by rw [hids']; exact hp.ids, by rw [hids']; exact hknown, fun _ h => by cases h; exact hreg, hsent, ?_⟩
    intro j'' hj'' wf' hwf' hwfn
    cases hj''
    obtain ⟨wf, hwf, rfl⟩ := List.mem_map.1 hwf'
    rw [hname wf hwf, hctx] at hwfn
    exact hstep j' ho wf hwf hwfn
  | .ok .next, hres =>
    cases hres
    have hids' : Process.ids { p with current := none } = p.sent.map WorkflowContext.workflowId := by
      simp [Process.ids]
    refine ⟨by rw [hids']; exact hnodup.2, ?_, fun _ h => (by cases h), hsent, fun _ h => by cases h⟩
    intro id hid
    rw [hids'] at hid
    exact hknown id (by rw [hids]; exact List.mem_cons_of_mem _ hid)
  | .ok .exit, hres => cases hres
  | .panic, hres => cases hres

/-! ### Polling and receiving -/

private theorem sendContexts_prefix (env : StreamEnv) (wfs : List Workflow) :
    (sendContexts env wfs).1 <+: wfs.map getWorkflowContext := by
  induction wfs with
  | nil => exact List.prefix_refl _
  | cons wf wfs ih =>
    rw [sendContexts]
    split
    · exact List.nil_prefix
    · exact List.cons_prefix_cons.2 ⟨rfl, ih⟩

/-- The contexts that are sent are those of workflows assigned to the worker, in the order of the listing. -/
theorem getWorkflowContexts_of_stored (env : StreamEnv) (stored : List Workflow) (w : String) :
    (getWorkflowContexts env stored w).1 <+: (stored.filter (Assigned w)).map getWorkflowContext := by
  unfold getWorkflowContexts
  split
  · exact List.nil_prefix
  · cases hl : env.listErr with
    | some e => simp [getCurrentAssignedNonTerminalWorkflowsForWorker]
    | none =>
      rw [getCurrentAssignedNonTerminalWorkflowsForWorker_eq]
      exact sendContexts_prefix env _

/-- A workflow that is assigned to a worker is offered to it. -/
private theorem offered_of_assigned (hs : wf.status = {} ∨ Sane wf) (h : Assigned w wf = true) :
    Offered w wf (getWorkflowContext wf) := by
  have hidx : w ∈ workflowWorkerNonTerminalStateIndexFunc wf := by
    rw [Assigned, Bool.and_eq_true, decide_eq_true_eq] at h
    exact h.1
  obtain ⟨hstate, hw, -⟩ := mem_workflowWorkerNonTerminalStateIndexFunc.1 hidx
  rcases hs with hs | hs
  · rw [hs] at hstate; simp at hstate
  refine ⟨hs, ?_⟩
  rcases closed_or_cursor wf.status.tasks with hclosed | ⟨c, hc⟩
  · left
    -- without an open action the workflow would be successful, if it had actions
    have hnil : actionsOf wf.status.tasks = [] := by
      by_contra hne
      have hall := success_of_closed hs.declared hclosed
      have := (hs.agrees (by simpa [statuses] using hne)).2 hall
      rw [this] at hstate; simp at hstate
    have hlist : workflowActionListCRDToProto wf = [] := by
      rw [← List.length_eq_zero_iff, length_actionList, hnil]; rfl
    have hname : (getWorkflowContext wf).currentAction = "" := by
      show wf.getTaskActionInfo.currentAction = ""
      rw [info_of_closed hclosed]
    rw [hlist, turn_of_unreported hname]
    rfl
  · right
    obtain ⟨-, hany⟩ := (hs.toWellStaged.assigned_iff hc hw).1 h
    rw [hs.toWellStaged.current?_eq hc, Option.any_some, decide_eq_true_eq] at hany
    exact hs.toSteady.turn_eq hc hstate hany

private theorem Held.poll (hx : Inv x) (hp : Held x.objects w p) (env : StreamEnv) :
    Held x.objects w (p.poll w x env) := by
  unfold Process.poll
  split
  · rename_i hcur hsent
    have hpre := getWorkflowContexts_of_stored env x.stored w
    have hfrom : ∀ c ∈ (getWorkflowContexts env x.stored w).1,
        ∃ wf ∈ x.objects, Assigned w wf = true ∧ c = getWorkflowContext wf := by
      intro c hc
      obtain ⟨wf, hwf, rfl⟩ := List.mem_map.1 (hpre.subset hc)
      obtain ⟨hmem, hass⟩ := List.mem_filter.1 hwf
      exact ⟨wf, (mem_stored.1 hmem).1, hass, rfl⟩
    have hids : ∀ q : Process, q = { p with sent := (getWorkflowContexts env x.stored w).1 } →
        q.ids = (getWorkflowContexts env x.stored w).1.map WorkflowContext.workflowId := by
      rintro q rfl
      simp [Process.ids, hcur]
    refine ⟨?_, ?_, hp.regular, ?_, ?_⟩
    · rw [hids _ rfl]
      have hsub : ((getWorkflowContexts env x.stored w).1.map WorkflowContext.workflowId).Sublist
          (x.objects.map Workflow.name) := by
        refine (hpre.sublist.map WorkflowContext.workflowId).trans ?_
        rw [List.map_map]
        exact (List.filter_sublist.trans List.filter_sublist).map Workflow.name
      exact hx.nodup.sublist hsub
    · intro id hid
      rw [hids _ rfl] at hid
      obtain ⟨c, hc, rfl⟩ := List.mem_map.1 hid
      obtain ⟨wf, hwf, -, rfl⟩ := hfrom c hc
      exact List.mem_map_of_mem hwf
    · intro c hc wf hwf hname
      obtain ⟨wf', hwf', hass, rfl⟩ := hfrom c hc
      obtain rfl := eq_of_name hx.nodup hwf hwf' hname
      exact offered_of_assigned (hx.sane wf hwf) hass
    · intro j hj
      rw [show p.current = some j from hj] at hcur
      cases hcur
  · exact hp

private theorem Held.cut (hp : Held x.objects w p) (k : Nat) : Held x.objects w (p.cut k) := by
  have hsub : (Process.ids (p.cut k)).Sublist p.ids :=
    List.Sublist.append (List.Sublist.refl _) ((List.take_sublist k p.sent).map _)
  exact ⟨hp.ids.sublist hsub, fun id hid => hp.known id (hsub.subset hid), hp.regular,
    fun c hc => hp.sent c (List.mem_of_mem_take hc), hp.job⟩

/-- A list that is read is that of the workflow of this name. -/
theorem getWorkflowActions_eq_ok {getErr : Option String} {id : String} {actions : List WorkflowAction}
    (h : x.getWorkflowActions getErr id = .ok actions) :
    ∃ wf ∈ x.objects, wf.name = id ∧ actions = workflowActionListCRDToProto wf := by
  unfold System.getWorkflowActions System.getWorkflowByName at h
  split at h
  · cases h
  · cases getErr with
    | some e => cases h
    | none =>
      cases hf : x.stored.find? fun wf => wf.name = id with
      | none => simp [hf] at h
      | some wf =>
        obtain ⟨hmem, hname⟩ := find?_stored hf
        simp only [hf, Except.ok.injEq] at h
        exact ⟨wf, (mem_stored.1 hmem).1, hname, h.symm⟩

/-- A worker that takes a context has the turn. -/
private theorem Held.receive (hx : Inv x) (hp : Held x.objects w p) {getErr : Option String}
    (h : p.receive w x getErr = some p') :
    Held x.objects w p' := by
  unfold Process.receive at h
  split at h
  · rename_i c cs hcur hsent
    split at h
    · cases h
    · rename_i actions hact
      obtain ⟨wf, hwf, hname, rfl⟩ := getWorkflowActions_eq_ok hact
      have hoff := hp.sent c (by rw [hsent]; simp) wf hwf hname
      rcases hoff.turn with hpanic | hturn
      · rw [processContext, hpanic] at h; cases h
      · have hown : turn (Config.mk w p.retries).workerID c (workflowActionListCRDToProto wf) = _ := hturn
        obtain ⟨a, j, hj, hplaced, hjeq⟩ := processContext_of_turn hown
        rw [hj] at h
        cases h
        have hctx : j.wfContext = c := by rw [hjeq]
        have hids : Process.ids { p with sent := cs, current := some j } = p.ids := by
          simp [Process.ids, hcur, hsent, hctx]
        have hph : ∀ req left, j.phase ≠ .conclude req left := by
          intro req left
          rw [hjeq]
          simp only
          split <;> simp
        refine ⟨by rw [hids]; exact hp.ids, by rw [hids]; exact hp.known, ?_, ?_, ?_⟩
        · intro j' hj'
          cases hj'
          exact { hplaced with result := fun req left h => absurd h (hph req left) }
        · intro c' hc'
          exact hp.sent c' (by rw [hsent]; exact List.mem_cons_of_mem _ hc')
        · intro j' hj' wf' hwf' hname'
          cases hj'
          rw [hctx] at hname'
          obtain rfl := eq_of_name hx.nodup hwf' hwf (hname'.trans hname.symm)
          refine ⟨hoff.sane, by rw [hjeq], fun _ => ⟨hasTurn_of_turn hturn, ?_, fun _ => ?_⟩,
            fun req left h => absurd h (hph req left)⟩
          · rw [hjeq]
          · rw [hjeq]
  · cases h; exact hp

/-! ### The whole system -/

variable {m : Move}

/-- The workflows that see an event stay what they are for those who are spared. -/
private theorem sane_map (hx : Inv x)
    (hstep : ∀ wf ∈ x.objects, g wf = wf ∨ ∃ e, e.Declared ∧ g wf = Kube.step r wf e) :
    ((x.objects.map g).map Workflow.name).Nodup ∧ (∀ wf ∈ x.objects, (g wf).name = wf.name) ∧
      ∀ wf ∈ x.objects.map g, wf.status = {} ∨ Sane wf := by
  have hname : ∀ wf ∈ x.objects, (g wf).name = wf.name := by
    intro wf hwf
    rcases hstep wf hwf with h | ⟨e, -, h⟩
    · rw [h]
    · have hu : UniqueNames wf.status.tasks := by
        rcases hx.sane wf hwf with h | h
        · rw [h]; exact ⟨List.nodup_nil, by simp⟩
        · exact h.unique
      rw [h]; exact name_step hu e
  refine ⟨?_, hname, fun wf' hwf' => ?_⟩
  · rw [List.map_map, show x.objects.map (Workflow.name ∘ g) = x.objects.map Workflow.name from
      List.map_congr_left hname]
    exact hx.nodup
  · obtain ⟨wf, hwf, rfl⟩ := List.mem_map.1 hwf'
    rcases hstep wf hwf with h | ⟨e, he, h⟩
    · rw [h]; exact hx.sane wf hwf
    · rw [h]
      rcases hx.sane wf hwf with h0 | hs
      · exact sane_of_no_status h0 e
      · right; exact hs.step he

private theorem Inv.create (hx : Inv x) (wf : Workflow) : Inv (x.create wf) := by
  unfold System.create
  split
  · exact hx
  · rename_i hfresh
    refine ⟨?_, ?_, fun w p hp => ?_⟩
    · show ((x.objects ++ [{ wf with status := {} }]).map Workflow.name).Nodup
      rw [List.map_append, List.nodup_append]
      refine ⟨hx.nodup, by simp, ?_⟩
      intro a ha b hb hab
      rw [List.map_singleton, List.mem_singleton] at hb
      exact hfresh (hb ▸ hab ▸ ha)
    · intro wf' hwf'
      rcases List.mem_append.1 hwf' with h | h
      · exact hx.sane wf' h
      · left; rw [List.mem_singleton.1 h]
    · -- nobody has heard of the new workflow
      have hold := hx.held w p hp
      have hnew : ∀ wf' ∈ x.objects ++ [{ wf with status := {} }], wf'.name ∈ p.ids → wf' ∈ x.objects := by
        intro wf' hwf' hid
        rcases List.mem_append.1 hwf' with h | h
        · exact h
        · rw [List.mem_singleton.1 h] at hid
          exact absurd (hold.known _ hid) hfresh
      refine ⟨hold.ids, fun id hid => ?_, hold.regular, fun c hc wf' hwf' hname => ?_, fun j hj wf' hwf' hname => ?_⟩
      · show id ∈ (x.objects ++ [{ wf with status := {} }]).map Workflow.name
        rw [List.map_append, List.mem_append]
        left; exact hold.known id hid
      · exact hold.sent c hc wf' (hnew wf' hwf' (Process.mem_ids.2 (Or.inr ⟨c, hc, hname.symm⟩))) hname
      · exact hold.job j hj wf' (hnew wf' hwf' (Process.mem_ids.2 (Or.inl ⟨j, hj, hname.symm⟩))) hname

private theorem Inv.reconcile (hx : Inv x) (name : String) (env : ReconcileEnv) :
    Inv (x.onWorkflow r name (.reconcile env)) := by
  have hcases : ∀ wf : Workflow,
      (if wf.name = name ∧ name ∉ x.deleted then Kube.step r wf (.reconcile env) else wf) = wf ∨
        (if wf.name = name ∧ name ∉ x.deleted then Kube.step r wf (.reconcile env) else wf) =
          Kube.step r wf (.reconcile env) := by
    intro wf
    split
    · right; rfl
    · left; rfl
  obtain ⟨hnodup, hname, hsane⟩ := sane_map (r := r) hx fun wf _ =>
    (hcases wf).imp_right fun h => ⟨.reconcile env, trivial, h⟩
  refine ⟨hnodup, hsane, fun w p hp => (hx.held w p hp).map hname fun wf hwf hid => ?_⟩
  have hs := (hx.held w p hp).sane hwf hid
  rcases hcases wf with h | h
  · rw [h]; exact Spares.refl w hs
  · rw [h]; exact spares_reconcile w hs env

/-- The workflows change, and the process of one worker. -/
private theorem inv_update {deleted : List String} {o : Option Process} (hn : (os.map Workflow.name).Nodup)
    (hs : ∀ wf ∈ os, wf.status = {} ∨ Sane wf) (hother : ∀ v p, v ≠ w → x.live v = some p → Held os v p)
    (hown : ∀ p, o = some p → Held os w p) : Inv ⟨os, deleted, Function.update x.live w o⟩ := by
  refine ⟨hn, hs, fun v q hq => ?_⟩
  change Function.update x.live w o v = some q at hq
  by_cases hv : v = w
  · subst hv
    rw [Function.update_self] at hq
    exact hown q hq
  · rw [Function.update_of_ne hv] at hq
    exact hother v q hv hq

/-- A change of one process that leaves it with what is held. -/
private theorem Inv.onProcess (hx : Inv x) (w : String) (f : Process → Option Process)
    (hf : ∀ p p', x.live w = some p → Held x.objects w p → f p = some p' → Held x.objects w p') :
    Inv (x.onProcess w f) := by
  refine ⟨hx.nodup, hx.sane, fun v q hq => ?_⟩
  rcases Processes.of_onProcess hq with hq | ⟨rfl, p, hp, hq⟩
  · exact hx.held v q hq
  · exact hf p q hp (hx.held v p hp) hq

private theorem Inv.start (hx : Inv x) (w : String) (retries : Nat) : Inv (x.start w retries) := by
  refine ⟨hx.nodup, hx.sane, fun v q hq => ?_⟩
  rcases Processes.of_start hq with hq | ⟨-, rfl⟩
  · exact hx.held v q hq
  · exact ⟨by simp [Process.ids], by simp [Process.ids], by simp, by simp, by simp⟩

/-- A process executes or reports; the report is spared all others. -/
private theorem Inv.work (hx : Inv x) (w : String) (i : Input) : Inv (x.work r w i) := by
  unfold System.work
  split
  · exact hx
  rename_i p hp
  have hheld := hx.held w p hp
  split
  · exact hx
  rename_i j hj
  have hreg := hheld.regular j hj
  split
  · rename_i hsend
    have hex : j.phase = .execute := by
      cases hph : j.phase <;> simp [sends, hph] at hsend ⊢
    refine inv_update hx.nodup hx.sane (fun v q _ hq => hx.held v q hq) fun q hq => ?_
    rw [← List.map_id x.objects]
    refine hheld.resume hj (fun _ _ => rfl) (fun _ _ _ => rfl) (fun j' ho wf hwf hname => ?_) hq
    have heng := hheld.job j hj wf hwf hname
    exact heng.step hreg heng.sane rfl le_rfl (fun _ => rfl) (by simp [hex]) ho
  · rename_i n req hsend
    obtain ⟨hid, -, -, hd, -, hreq⟩ := hreg.sends hsend
    obtain ⟨g, hy, hg, hack⟩ := deliver_spec (r := r) hx.nodup i.delivery i.env req
    obtain ⟨hnodup, hname, hsane⟩ := sane_map (r := r) hx fun wf hwf =>
      (hg wf hwf).imp_right fun h => ⟨.report i.env req, hd, h.2⟩
    dsimp only
    rw [hy]
    refine inv_update hnodup hsane (fun v q hv hq => ?_) fun q hq => ?_
    · -- the others
      refine (hx.held v q hq).map hname fun wf hwf hin => ?_
      rcases hg wf hwf with h | ⟨hwfid, h⟩
      · rw [h]; exact Spares.refl v ((hx.held v q hq).sane hwf hin)
      · rw [h]
        have heng := hheld.job j hj wf hwf (hwfid.trans hid)
        exact spares_of_advance (heng.report hreg hsend i.env).1 hv
    · refine hheld.resume hj hname (fun wf hwf hne => ?_) (fun j' ho wf hwf hwfn => ?_) hq
      · rcases hg wf hwf with h | ⟨hwfid, -⟩
        · exact h
        · exact absurd (hwfid.trans hid) hne
      · have heng := hheld.job j hj wf hwf hwfn
        obtain ⟨hadv, hstill, hsucc⟩ := heng.report (r := r) hreg hsend i.env
        have hnext : ∀ req' left, j.phase = .conclude req' left → (x.deliver r i.delivery i.env req).2 = true →
            req'.actionStatus = .success → ((g wf).currentPosition : Int) = j.actionIndex + 1 := by
          intro req' left hph hb hs
          obtain rfl := hreq req' left hph
          obtain ⟨wf', hok, hgwf⟩ := (hack hb).2 wf hwf (hwfn.trans hid.symm)
          have hpos := hsucc wf' hok hs
          simp only [Kube.step, hok] at hpos
          rw [hgwf]; exact hpos
        rcases hg wf hwf with h | ⟨-, h⟩
        · rw [h] at hnext ⊢
          exact heng.step hreg heng.sane rfl le_rfl (fun _ => rfl) hnext ho
        · rw [h] at hnext ⊢
          exact heng.step hreg hadv.sane hadv.list hadv.le hstill hnext ho

/-- What holds of the system is kept by every move. -/
theorem Inv.step (hx : Inv x) (m : Move) : Inv (step r x m) := by
  cases m with
  | create wf => exact hx.create wf
  | delete name => exact ⟨hx.nodup, hx.sane, hx.held⟩
  | reconcile name env => exact hx.reconcile name env
  | start w retries => exact hx.start w retries
  | crash w => exact hx.onProcess w _ fun _ _ _ _ h => by cases h
  | poll w env => exact hx.onProcess w _ fun p p' _ hp h => by cases h; exact hp.poll hx env
  | cut w k => exact hx.onProcess w _ fun p p' _ hp h => by cases h; exact hp.cut k
  | receive w getErr => exact hx.onProcess w _ fun p p' _ hp h => hp.receive hx h
  | work w i => exact hx.work w i

theorem inv_run (ms : List Move) : Inv (run (step r) {} ms) :=
  run_inv (I := Inv) ⟨List.nodup_nil, by simp, by simp⟩ fun _ m h => h.step m

end Tink.Kube.Fleet
