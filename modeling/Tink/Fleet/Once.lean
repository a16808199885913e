import Tink.Fleet.System

/-!
# No action is executed again

The invariant (`Inv`) ties the processes to the fronts of the workflows: whoever has been sent a context that lets it
start, or is at work, has the front, or has stored its result already.  A process has to do with a workflow at most
once at a time, since `workflow_worker_map` has no row twice, and other processes keep what it relies on.

So an action whose `SUCCESS` was acknowledged is behind the front, which never goes back, and only actions from the
front on are executed (`acknowledged_not_executed`).
-/

namespace Tink.Fleet

open Machine Worker

/-- What holds of the process of the worker `w`. -/
structure Process.Valid (s : Db.Store) (w : String) (p : Process) : Prop where
  nodup : p.ids.Nodup
  canonical : ∀ t ∈ p.ids, ∃ u : Pg.UUID, t = u.toString
  sent : ∀ c ∈ p.sent, ∃ id row, Pg.UUID.ofString? c.workflowId = some id ∧ s.workflowState id = some row ∧
    ∀ n, turn w c row.actionList = .ok (some n) → n = front row
  current : ∀ j, p.current = some j → ∃ id row, Pg.UUID.ofString? j.wfContext.workflowId = some id ∧
    s.workflowState id = some row ∧ Sound row ⟨w, p.retries⟩ j

structure Inv (x : System) : Prop where
  reachable : Db.Reachable x.store
  map : x.store.workflowWorkerMap.Nodup
  processes : ∀ w p, x.live w = some p → p.Valid x.store w

variable {H : Type} {r : Template.Renderer H} {s s' : Db.Store} {w t : String} {p p' : Process} {x : System}
  {id : Pg.UUID} {row row' : Db.StateRow} {m : Move}

/-! ### One process -/

theorem canonical_inj {t' : String} (h : ∃ u : Pg.UUID, t = u.toString) (h' : ∃ u : Pg.UUID, t' = u.toString)
    (hid : Pg.UUID.ofString? t = some id) (hid' : Pg.UUID.ofString? t' = some id) : t = t' := by
  obtain ⟨u, rfl⟩ := h
  obtain ⟨u', rfl⟩ := h'
  rw [Pg.UUID.ofString?_toString] at hid hid'
  cases hid
  cases hid'
  rfl

/-- A process relies only on the rows of its own workflows. -/
private theorem Process.Valid.keeps (h : p.Valid s w)
    (hk : ∀ t ∈ p.ids, ∀ id row, Pg.UUID.ofString? t = some id → s.workflowState id = some row →
      ∃ row', s'.workflowState id = some row' ∧ Keeps w row row') : p.Valid s' w := by
  refine ⟨h.nodup, h.canonical, ?_, ?_⟩
  · intro c hc
    obtain ⟨id, row, hid, hrow, hturn⟩ := h.sent c hc
    have hmem : c.workflowId ∈ p.ids := by
      unfold Process.ids
      exact List.mem_append_right _ (List.mem_append_left _ (List.mem_map_of_mem hc))
    obtain ⟨row', hrow', hkeeps⟩ := hk c.workflowId hmem id row hid hrow
    refine ⟨id, row', hid, hrow', fun n hn => ?_⟩
    rw [hkeeps.list] at hn
    have hfront := hturn n hn
    -- the worker has the front, so that it stays
    obtain ⟨-, a, hget, hw⟩ := turn_eq_some hn
    rw [hkeeps.front_eq ⟨a, by rw [← hfront]; exact hget, hw⟩]
    exact hfront
  · intro j hj
    obtain ⟨id, row, hid, hrow, hsound⟩ := h.current j hj
    have hmem : j.wfContext.workflowId ∈ p.ids := by
      unfold Process.ids
      exact List.mem_append_left _ (List.mem_map.2 ⟨j, by rw [hj]; simp, rfl⟩)
    obtain ⟨row', hrow', hkeeps⟩ := hk _ hmem id row hid hrow
    exact ⟨id, row', hid, hrow', hsound.keeps hkeeps⟩

/-- A process without some of its work. -/
private theorem Process.Valid.sub (h : p.Valid s w) (hr : p'.retries = p.retries) (hsub : List.Sublist p'.ids p.ids)
    (hsent : ∀ c ∈ p'.sent, c ∈ p.sent) (hcurrent : ∀ j, p'.current = some j → p.current = some j) :
    p'.Valid s w := by
  refine ⟨h.nodup.sublist hsub, fun t ht => h.canonical t (hsub.subset ht), fun c hc => h.sent c (hsent c hc), ?_⟩
  intro j hj
  rw [hr]
  exact h.current j (hcurrent j hj)

/-- A process that goes on with a workflow it has nothing else to do with. -/
private theorem Process.Valid.resume {y : Outcome Empty Progress} (h : Process.Valid s w { p with current := none })
    (hfresh : t ∉ Process.ids { p with current := none }) (hcanon : ∃ u : Pg.UUID, t = u.toString)
    (hjob : ∀ j, y = .ok (.job j) → j.wfContext.workflowId = t ∧ ∃ id row, Pg.UUID.ofString? t = some id ∧
      s.workflowState id = some row ∧ Sound row ⟨w, p.retries⟩ j)
    (hp : p.resume y = some p') : p'.Valid s w := by
  match y with
  | .ok .next =>
    cases hp
    exact h
  | .ok .exit => cases hp
  | .panic => cases hp
  | .error e => exact e.elim
  | .ok (.job j) =>
    cases hp
    obtain ⟨hj, id, row, hid, hrow, hsound⟩ := hjob j rfl
    have hids : Process.ids { p with current := some j } = t :: Process.ids { p with current := none } := by
      rw [← hj]
      rfl
    refine ⟨?_, ?_, h.sent, ?_⟩
    · rw [hids]
      exact List.nodup_cons.2 ⟨hfresh, h.nodup⟩
    · rw [hids]
      intro t' ht'
      rcases List.mem_cons.1 ht' with rfl | ht'
      · exact hcanon
      · exact h.canonical t' ht'
    · intro j' hj'
      cases hj'
      rw [hj]
      exact ⟨id, row, hid, hrow, hsound⟩

/-! ### The moves of a process -/

private theorem Process.Valid.poll (h : p.Valid s w) (hmap : s.workflowWorkerMap.Nodup) (failure : Option String) :
    (p.poll w s failure).Valid s w := by
  unfold Process.poll
  split
  · rename_i hcurrent hsent hpending
    split
    · exact h
    · split
      · rename_i wfs hwfs
        have hids : Process.ids { p with pending := wfs } = wfs := by
          unfold Process.ids
          rw [hcurrent, hsent]
          rfl
        obtain ⟨-, worker, -, hlist⟩ := Db.getWorkflowsForWorker_eq_ok.1 hwfs
        refine ⟨?_, ?_, ?_, ?_⟩
        · rw [hids, hlist]
          refine List.Nodup.map_on ?_ (hmap.filter _)
          intro a ha b hb hab
          have ha' := of_decide_eq_true (List.mem_filter.1 ha).2
          have hb' := of_decide_eq_true (List.mem_filter.1 hb).2
          have hfirst : a.1 = b.1 := by
            have := congrArg Pg.UUID.ofString? hab
            rwa [Pg.UUID.ofString?_toString, Pg.UUID.ofString?_toString, Option.some.injEq] at this
          exact Prod.ext hfirst (ha'.trans hb'.symm)
        · rw [hids, hlist]
          intro t ht
          obtain ⟨a, -, rfl⟩ := List.mem_map.1 ht
          exact ⟨a.1, rfl⟩
        · intro c hc
          exact h.sent c hc
        · intro j hj
          exact h.current j hj
      · exact h
  · exact h

private theorem Process.Valid.serve (h : p.Valid s w) (env : Db.StreamEnv) : (p.serve w s env).Valid s w := by
  unfold Process.serve
  cases hpending : p.pending with
  | nil => exact h
  | cons wf wfs =>
    have hdrop : ∀ l, List.Sublist l (wf :: wfs) → Process.Valid s w { p with pending := l } := by
      intro l hl
      refine h.sub rfl ?_ (fun _ hc => hc) fun _ hj => hj
      unfold Process.ids
      rw [hpending]
      exact (List.Sublist.refl _).append ((List.Sublist.refl _).append hl)
    simp only
    split
    · exact hdrop _ (List.nil_sublist _)
    · rename_i c hc
      split
      · exact hdrop _ (List.nil_sublist _)
      · rename_i e _
        exact e.elim
      · exact hdrop _ (List.sublist_cons_self _ _)
      · split
        · exact hdrop _ (List.nil_sublist _)
        · obtain ⟨-, id, row, hid, hrow, rfl⟩ := Db.getWorkflowContexts_eq_ok.1 hc
          have hids : Process.ids { p with pending := wfs, sent := p.sent ++ [row.context wf] } = p.ids := by
            unfold Process.ids
            rw [hpending, List.map_append, List.append_assoc]
            rfl
          refine ⟨by rw [hids]; exact h.nodup, by rw [hids]; exact h.canonical, ?_, h.current⟩
          intro c hc
          rcases List.mem_append.1 hc with hc | hc
          · exact h.sent c hc
          · rw [List.mem_singleton] at hc
            rw [hc]
            exact ⟨id, row, hid, hrow, fun n hn => front_of_turn hn⟩

private theorem Process.Valid.cut (h : p.Valid s w) (k : Nat) : (p.cut k).Valid s w := by
  refine h.sub rfl ?_ (fun c hc => List.mem_of_mem_take hc) fun _ hj => hj
  unfold Process.ids Process.cut
  refine (List.Sublist.refl _).append ?_
  exact ((List.take_sublist k p.sent).map _).append (List.nil_sublist _)

private theorem Process.Valid.receive (h : p.Valid s w) (failure : Option String)
    (hp : p.receive w s failure = some p') :
    p'.Valid s w := by
  unfold Process.receive at hp
  split at hp
  · rename_i c cs hcurrent hsent
    have hids : p.ids = c.workflowId :: Process.ids { p with sent := cs, current := none } := by
      unfold Process.ids
      rw [hcurrent, hsent]
      rfl
    have hrest : Process.Valid s w { p with sent := cs, current := none } := by
      refine h.sub rfl (by rw [hids]; exact List.sublist_cons_self _ _) ?_ (fun _ hj => by cases hj)
      intro c' hc'
      rw [hsent]
      exact List.mem_cons_of_mem c hc'
    obtain ⟨id, row, hid, hrow, hturn⟩ := h.sent c (by rw [hsent]; exact List.mem_cons_self)
    have hnodup := h.nodup
    rw [hids] at hnodup
    rw [Db.getWorkflowActions_eq hid hrow] at hp
    simp only at hp
    refine Process.Valid.resume (p := { p with sent := cs }) hrest (List.nodup_cons.1 hnodup).1
      (h.canonical _ (by rw [hids]; exact List.mem_cons_self)) ?_ hp
    intro j hj
    -- the worker has a turn only with the list that was read
    split at hj
    · cases ht : turn w c row.actionList with
      | panic => simp [processContext, ht] at hj
      | error e => exact e.elim
      | ok o =>
        cases o with
        | none => simp [processContext, ht] at hj
        | some n =>
          obtain ⟨hc, hsound⟩ := sound_of_turn ht (hturn n ht) hj
          rw [hc]
          exact ⟨rfl, id, row, hid, hrow, hsound⟩
    · cases ht : turn w c [] with
      | panic => simp [processContext, ht] at hj
      | error e => exact e.elim
      | ok o =>
        cases o with
        | none => simp [processContext, ht] at hj
        | some n =>
          obtain ⟨-, a, hget, -⟩ := turn_eq_some ht
          simp at hget
  · cases hp
    exact h

/-! ### The system -/

/-- The invariant after a change to the tables and to the process of one worker. -/
private theorem inv_update {o : Option Process} (hreach : Db.Reachable s) (hmap : s.workflowWorkerMap.Nodup)
    (hself : ∀ p, o = some p → p.Valid s w) (hothers : ∀ w' p, w' ≠ w → x.live w' = some p → p.Valid s w') :
    Inv ⟨s, Function.update x.live w o⟩ := by
  refine ⟨hreach, hmap, ?_⟩
  intro w' p hlive
  by_cases hw : w' = w
  · subst hw
    simp only [Function.update_self] at hlive
    exact hself p hlive
  · simp only [Function.update_of_ne hw] at hlive
    exact hothers w' p hw hlive

/-- What a step of a worker at work does to the tables. -/
private theorem Inv.work_rows {j : Job} (h : Inv x) (hlive : x.live w = some p) (hj : p.current = some j)
    (i : Session.Input) :
    Db.Reachable (Session.step ⟨w, p.retries⟩ ⟨x.store, .ok (.job j)⟩ i).store ∧
      (Session.step ⟨w, p.retries⟩ ⟨x.store, .ok (.job j)⟩ i).store.workflowWorkerMap = x.store.workflowWorkerMap ∧
      ∀ id row, x.store.workflowState id = some row →
        ∃ row', (Session.step ⟨w, p.retries⟩ ⟨x.store, .ok (.job j)⟩ i).store.workflowState id = some row' ∧
          Advances w row row' ∧ (Pg.UUID.ofString? j.wfContext.workflowId ≠ some id → row' = row) := by
  obtain ⟨id₀, row₀, hid₀, hrow₀, hsound⟩ := (h.processes w p hlive).current j hj
  obtain ⟨row₁, hrow₁, hadv, -, -⟩ := hsound.step (h.reachable.placed hrow₀) hrow₀ hid₀ i
  have hother : ∀ id row, x.store.workflowState id = some row → Pg.UUID.ofString? j.wfContext.workflowId ≠ some id →
      (Session.step ⟨w, p.retries⟩ ⟨x.store, .ok (.job j)⟩ i).store.workflowState id = some row := by
    intro id row hrow hne
    rcases hsound.store (s := x.store) i with hstore | ⟨req, hreq, hstore⟩
    · rw [hstore]; exact hrow
    · rw [hstore]
      obtain ⟨row', hrow', rfl | ⟨hid, -⟩⟩ := Db.step_row hrow (i.env, req)
      · exact hrow'
      · rw [← hreq] at hne
        exact absurd hid hne
  refine ⟨?_, ?_, ?_⟩
  · rcases hsound.store (s := x.store) i with hstore | ⟨req, -, hstore⟩
    · rw [hstore]; exact h.reachable
    · rw [hstore]; exact h.reachable.report _
  · rcases hsound.store (s := x.store) i with hstore | ⟨req, -, hstore⟩
    · rw [hstore]
    · rw [hstore]; exact Db.step_workflowWorkerMap _
  · intro id row hrow
    by_cases he : Pg.UUID.ofString? j.wfContext.workflowId = some id
    · rw [hid₀] at he
      cases he
      rw [hrow₀] at hrow
      cases hrow
      exact ⟨row₁, hrow₁, hadv, fun hne => absurd hid₀ hne⟩
    · exact ⟨row, hother id row hrow he, .refl _ _, fun _ => rfl⟩

private theorem Inv.work {j : Job} (h : Inv x) (hlive : x.live w = some p) (hj : p.current = some j)
    (i : Session.Input) :
    Inv (x.work w i) := by
  rw [work_eq hlive hj i]
  obtain ⟨hreach, hmap, hrows⟩ := h.work_rows hlive hj i
  have hp := h.processes w p hlive
  refine inv_update hreach (by rw [hmap]; exact h.map) ?_ ?_
  · intro p' hp'
    have hids : p.ids = j.wfContext.workflowId :: Process.ids { p with current := none } := by
      unfold Process.ids
      rw [hj]
      rfl
    have hnodup := hp.nodup
    rw [hids, List.nodup_cons] at hnodup
    have hcanon := hp.canonical j.wfContext.workflowId (by rw [hids]; exact List.mem_cons_self)
    have hrest : Process.Valid x.store w { p with current := none } :=
      hp.sub rfl (by rw [hids]; exact List.sublist_cons_self _ _) (fun _ hc => hc) (fun _ hc => by cases hc)
    refine Process.Valid.resume (hrest.keeps ?_) hnodup.1 hcanon ?_ hp'
    · -- the rest of the work of the process is on other workflows
      intro t ht id row hid hrow
      obtain ⟨row', hrow', -, hsame⟩ := hrows id row hrow
      refine ⟨row', hrow', ?_⟩
      rw [hsame fun hid' => hnodup.1 (canonical_inj hcanon (hrest.canonical t ht) hid' hid ▸ ht)]
      exact .refl _ _
    · intro j' hj'
      obtain ⟨id, row, hid, hrow, hsound⟩ := hp.current j hj
      obtain ⟨row', hrow', -, hjob, -⟩ := hsound.step (h.reachable.placed hrow) hrow hid i
      obtain ⟨hc, hsound'⟩ := hjob j' hj'
      rw [hc]
      exact ⟨rfl, id, row', hid, hrow', hsound'⟩
  · intro w' p' hw hlive'
    refine (h.processes w' p' hlive').keeps ?_
    intro t ht id row hid hrow
    obtain ⟨row', hrow', hadv, -⟩ := hrows id row hrow
    exact ⟨row', hrow', hadv.keeps hw⟩

private theorem Inv.onProcess (h : Inv x) {f : Process → Option Process}
    (hf : ∀ p p', p.Valid x.store w → f p = some p' → p'.Valid x.store w) : Inv (x.onProcess w f) := by
  refine ⟨h.reachable, h.map, fun w' q hq => ?_⟩
  rcases Processes.of_onProcess hq with hq | ⟨rfl, p, hlive, hp⟩
  · exact h.processes w' q hq
  · exact hf p q (h.processes w' p hlive) hp

private theorem nodup_insert {rows : List (Pg.UUID × Pg.UUID)} (h : rows.Nodup) (workers : List Pg.UUID) :
    (workers.foldl (Db.insertIntoWfWorkerTable id) rows).Nodup := by
  induction workers generalizing rows with
  | nil => exact h
  | cons u workers ih =>
    refine ih ?_
    unfold Db.insertIntoWfWorkerTable
    split
    · exact h
    · rename_i hnot
      exact List.nodup_append.2 ⟨h, List.nodup_singleton _, fun a ha b hb => by
        rw [List.mem_singleton] at hb
        rintro rfl
        exact hnot (hb ▸ ha)⟩

/-- Creating a workflow leaves the other rows as they are. -/
theorem Inv.create (h : Inv x) (reg : Db.Registry) (env : Db.CreateEnv) (template hardware : String) :
    Inv (x.create r reg env template hardware) ∧ ∀ id row, x.store.workflowState id = some row →
      (x.create r reg env template hardware).store.workflowState id = some row := by
  unfold System.create
  split
  · rename_i s id hfresh hcreate
    have hrows : ∀ id row, x.store.workflowState id = some row → s.workflowState id = some row := by
      intro id' row hrow
      obtain ⟨row', hrows, -⟩ := Db.createWorkflow_rows hcreate
      rw [hrows, Function.update_of_ne]
      · exact hrow
      · rintro rfl
        rw [(Db.createWorkflow_eq_ok hcreate).1, hfresh] at hrow
        cases hrow
    refine ⟨⟨h.reachable.create hcreate, ?_, ?_⟩, hrows⟩
    · obtain ⟨-, text, data, s₁, -, -, hins, rfl⟩ := Db.createWorkflow_eq_ok hcreate
      obtain ⟨-, -, workers, -, -, -, -, rfl⟩ := Db.insertActionList_ok hins
      exact nodup_insert h.map workers
    · intro w p hlive
      refine (h.processes w p hlive).keeps ?_
      intro t _ id' row _ hrow
      exact ⟨row, hrows id' row hrow, .refl _ _⟩
  · exact ⟨h, fun _ _ hrow => hrow⟩

private theorem Inv.start (h : Inv x) (w : String) (retries : Nat) : Inv (x.start w retries) := by
  refine ⟨h.reachable, h.map, fun w' q hq => ?_⟩
  rcases Processes.of_start hq with hq | ⟨-, rfl⟩
  · exact h.processes w' q hq
  · exact ⟨List.nodup_nil, by simp [Process.ids], by simp, by simp⟩

theorem Inv.step (h : Inv x) (m : Move) : Inv (step r x m) := by
  cases m with
  | create reg env template hardware => exact (h.create reg env template hardware).1
  | start w retries => exact h.start w retries
  | crash w => exact h.onProcess fun _ _ _ hp' => by cases hp'
  | poll w failure =>
    refine h.onProcess fun p p' hp hp' => ?_
    cases hp'
    exact hp.poll h.map failure
  | serve w env =>
    refine h.onProcess fun p p' hp hp' => ?_
    cases hp'
    exact hp.serve env
  | cut w k =>
    refine h.onProcess fun p p' hp hp' => ?_
    cases hp'
    exact hp.cut k
  | receive w failure => exact h.onProcess fun p p' hp hp' => hp.receive failure hp'
  | work w i =>
    show Inv (x.work w i)
    rcases work_cases w i with hsame | ⟨p, j, hlive, hj⟩
    · rw [hsame]; exact h
    · exact h.work hlive hj i

/-- Along a move the workflows keep their lists, and their fronts do not go back. -/
theorem Inv.step_rows (h : Inv x) (m : Move) (hrow : x.store.workflowState id = some row) :
    ∃ row', (Fleet.step r x m).store.workflowState id = some row' ∧ row'.actionList = row.actionList ∧
      front row ≤ front row' := by
  have hsame : ∀ {y : System}, y.store = x.store → ∃ row', y.store.workflowState id = some row' ∧
      row'.actionList = row.actionList ∧ front row ≤ front row' := by
    intro y hy
    exact ⟨row, by rw [hy]; exact hrow, rfl, le_refl _⟩
  cases m with
  | create reg env template hardware =>
    exact ⟨row, (h.create reg env template hardware).2 id row hrow, rfl, le_refl _⟩
  | start w retries | crash w | poll w failure | serve w env | cut w k | receive w failure => exact hsame rfl
  | work w i =>
    show ∃ row', (x.work w i).store.workflowState id = some row' ∧ _
    rcases work_cases w i with hx | ⟨p, j, hlive, hj⟩
    · exact hsame (congrArg System.store hx)
    · obtain ⟨row', hrow', hadv, -⟩ := (h.work_rows hlive hj i).2.2 id row hrow
      rw [work_eq hlive hj i]
      exact ⟨row', hrow', hadv.list, hadv.front_le⟩

/-! ### Results that were acknowledged -/

/-- The action of the given names is behind the front. -/
def Behind (x : System) (id : Pg.UUID) (task action : String) : Prop :=
  ∃ row a, ∃ n : Nat, x.store.workflowState id = some row ∧ row.actionList[n]? = some a ∧ a.taskName = task ∧
    a.name = action ∧ (n : Int) < front row

private theorem Inv.behind_of_acknowledged {task action : String} (h : Inv x)
    (hack : acknowledged x m = some (id, task, action)) :
    Behind (Fleet.step r x m) id task action := by
  obtain ⟨w, i, p, j, req, left, rfl, hlive, hj, hph, hid, htask, hname, hacked⟩ := acknowledged_eq_some hack
  obtain ⟨id', row, hid', hrow, hsound⟩ := (h.processes w p hlive).current j hj
  have hdue := hsound.due
  rw [hph] at hdue
  obtain ⟨-, ⟨e, rfl⟩, -⟩ := hdue
  have hid'' : Pg.UUID.ofString? j.wfContext.workflowId = some id := hid
  rw [hid''] at hid'
  cases hid'
  obtain ⟨row', hrow', hadv, -, hbehind⟩ := hsound.step (h.reachable.placed hrow) hrow hid i
  have hlt := hbehind _ left hph hacked
  have hnonneg := hsound.nonneg
  have hget := hsound.get
  rw [hsound.actions_eq, ← hadv.list] at hget
  show Behind (x.work w i) id task action
  rw [work_eq hlive hj i]
  exact ⟨row', j.action, j.actionIndex.toNat, hrow', hget, htask, hname, by omega⟩

private theorem Inv.step_behind {task action : String} (h : Inv x) (hb : Behind x id task action) (m : Move) :
    Behind (Fleet.step r x m) id task action := by
  obtain ⟨row, a, n, hrow, hget, htask, hname, hlt⟩ := hb
  obtain ⟨row', hrow', hlist, hle⟩ := h.step_rows (r := r) m hrow
  exact ⟨row', a, n, hrow', by rw [hlist]; exact hget, htask, hname, by omega⟩

/-- What is executed is not behind the front. -/
private theorem Inv.not_executing {task action : String} (h : Inv x) (hb : Behind x id task action) :
    ¬ Executing x id task action := by
  rintro ⟨w, p, j, hlive, hj, hph, hid, htask, hname⟩
  obtain ⟨row, a, n, hrow, hget, htask', hname', hlt⟩ := hb
  obtain ⟨id', row', hid', hrow', hsound⟩ := (h.processes w p hlive).current j hj
  rw [hid] at hid'
  cases hid'
  rw [hrow] at hrow'
  cases hrow'
  have hdue := hsound.due
  rw [hph] at hdue
  have hle := hdue.front_le
  have hposition := hsound.get
  rw [hsound.actions_eq] at hposition
  have heq := (h.reachable.placed hrow).position_unique hget hposition (htask'.trans htask.symm)
    (hname'.trans hname.symm)
  omega

theorem inv_run (ms : List Move) : Inv (run (step r) {} ms) := by
  refine run_inv (I := Inv) ?_ fun x m h => h.step m
  exact ⟨.empty, List.nodup_nil, fun w p hlive => by cases hlive⟩

/-- In every run of the service and its workers, with workflows created, contexts streamed, reports answered or lost,
and processes that crash and start again: from the moment on that a `SUCCESS` report for an action is acknowledged, no
worker executes that action. -/
theorem acknowledged_not_executed (r : Template.Renderer H) (before after : List Move) (m : Move) (id : Pg.UUID)
    (task action : String) (hack : acknowledged (run (step r) {} before) m = some (id, task, action)) :
    ¬ Executing (run (step r) {} (before ++ m :: after)) id task action := by
  have hinv := inv_run (r := r) before
  have hlast : Inv (run (step r) {} (before ++ m :: after)) ∧
      Behind (run (step r) {} (before ++ m :: after)) id task action := by
    rw [run_append, run_cons]
    refine run_inv (I := fun x => Inv x ∧ Behind x id task action) ⟨hinv.step m, hinv.behind_of_acknowledged hack⟩ ?_
    rintro x m ⟨h, hb⟩
    exact ⟨h.step m, h.step_behind hb m⟩
  exact hlast.1.not_executing hlast.2

/-- The moves of a worker that is given a workflow, up to the result of its first action. -/
def sampleMoves : List Move :=
  [.create { getWorkerID := .ok, parse := Db.uuidColumn } Db.sampleEnv "template" "devices", .start Db.machine1 3,
    .poll Db.machine1 none, .serve Db.machine1 {}, .receive Db.machine1 none, .work Db.machine1 {},
    .work Db.machine1 {}]

def sampleRenderer : Template.Renderer Unit :=
  { Template.Renderer.reading Unit (.ofNames [("os", Db.machine1, ["stream", "kexec"])]) with
    unmarshalDevices := fun _ => .ok () }

/-- The worker crashes once the success of the first of two actions is acknowledged, starts again, and goes on with
the second. -/
theorem acknowledged_not_executed_after_restart :
    let restarted := run (step sampleRenderer) {} (sampleMoves ++ .work Db.machine1 {} ::
      [.crash Db.machine1, .start Db.machine1 3, .poll Db.machine1 none, .serve Db.machine1 {},
        .receive Db.machine1 none, .work Db.machine1 {}])
    acknowledged (run (step sampleRenderer) {} sampleMoves) (.work Db.machine1 {}) =
      some (Db.sampleID, "os", "stream") ∧
      Executing restarted Db.sampleID "os" "kexec" ∧ ¬ Executing restarted Db.sampleID "os" "stream" := by
  have hack : acknowledged (run (step sampleRenderer) {} sampleMoves) (.work Db.machine1 {}) =
      some (Db.sampleID, "os", "stream") := by decide +kernel
  have hcurrent : (((run (step sampleRenderer) {} (sampleMoves ++ .work Db.machine1 {} ::
      [.crash Db.machine1, .start Db.machine1 3, .poll Db.machine1 none, .serve Db.machine1 {},
        .receive Db.machine1 none, .work Db.machine1 {}])).live Db.machine1).bind fun p => p.current).map
      (fun j => (decide (j.phase = .execute), Pg.UUID.ofString? j.wfContext.workflowId, j.action.taskName,
        j.action.name)) = some (true, some Db.sampleID, "os", "kexec") := by decide +kernel
  have hnot := acknowledged_not_executed sampleRenderer sampleMoves [.crash Db.machine1, .start Db.machine1 3,
    .poll Db.machine1 none, .serve Db.machine1 {}, .receive Db.machine1 none, .work Db.machine1 {}]
    (.work Db.machine1 {}) Db.sampleID "os" "stream" hack
  obtain ⟨j, hj, heq⟩ := Option.map_eq_some_iff.1 hcurrent
  obtain ⟨p, hlive, hj⟩ := Option.bind_eq_some_iff.1 hj
  simp only [Prod.mk.injEq, decide_eq_true_eq] at heq
  exact ⟨hack, ⟨Db.machine1, p, j, hlive, hj, heq.1, heq.2.1, heq.2.2.1, heq.2.2.2⟩, hnot⟩

end Tink.Fleet
