import Tink.Kube.Advance

/-!
# Workflows with actions in several tasks

The server compares a position counted over the whole workflow with a position inside one task, so it accepts reports
about the first task that has actions only.  Nothing else than a report takes an action out of `PENDING`.  So,
whatever is reported and reconciled, the actions of all later tasks stay `PENDING`, and a workflow with actions in two
tasks never succeeds (`later_tasks_pending`).
-/

namespace Tink.Kube

open GoTime Machine

variable {r : Template.Renderer TemplateData} {wf wf' : Workflow} {e : Event}

/-- If the first task has actions, then those of the second are pending. -/
def Waits (s t : Task) : Prop := s.actions ≠ [] → ∀ a ∈ t.actions, a.status = .pending

/-- Only the first task with actions is at work. -/
def FirstOnly (wf : Workflow) : Prop := wf.status.tasks.Pairwise Waits

/-- An accepted report is about the first task that has actions. -/
private theorem Cursor.before_eq_nil {c : Cursor} (hg : WellStaged wf) (hc : wf.status.tasks = c.tasks)
    (hi : c.index = c.done.length) : actionsOf c.before = [] := by
  have hindex := hg.index_eq hc
  have hfront : c.front.length = (actionsOf c.before).length + c.done.length := by
    rw [Cursor.front, List.length_append]
  rw [← List.length_eq_zero_iff]
  omega

private theorem FirstOnly.replace {c : Cursor} (h : c.tasks.Pairwise Waits) (hb : actionsOf c.before = [])
    (a : Action) :
    (c.replace a).Pairwise Waits := by
  rw [Cursor.tasks, List.pairwise_append, List.pairwise_cons] at h
  obtain ⟨hbefore, ⟨htask, hafter⟩, hcross⟩ := h
  have hempty : ∀ s ∈ c.before, s.actions = [] := List.flatMap_eq_nil_iff.1 hb
  rw [Cursor.replace, List.pairwise_append, List.pairwise_cons]
  refine ⟨hbefore, ⟨fun t ht _ => ?_, hafter⟩, fun s hs t _ hne => absurd (hempty s hs) hne⟩
  exact htask t ht (by rw [c.actions_eq]; simp)

private theorem waits_of_timed {s s' t t' : Task} (h : Waits s t) (hs : TimedTask s s') (ht : TimedTask t t') :
    Waits s' t' := by
  intro hne a' ha'
  have hne' : s.actions ≠ [] := by
    intro hnil
    have htimed := hs.2.2
    rw [hnil, List.forall₂_nil_left_iff] at htimed
    exact hne htimed
  obtain ⟨a, ha, rfl | ⟨hrun, -⟩⟩ := ht.2.2.exists_of_mem_right ha'
  · exact h hne' a' ha
  · have := h hne' a ha
    rw [hrun] at this; cases this

private theorem pairwise_of_timed {ts ts' : List Task} (h : ts.Pairwise Waits) (ht : List.Forall₂ TimedTask ts ts') :
    ts'.Pairwise Waits := by
  induction ht with
  | nil => exact .nil
  | cons hs hts ih =>
    obtain ⟨hhead, htail⟩ := List.pairwise_cons.1 h
    refine List.pairwise_cons.2 ⟨fun t' ht' => ?_, ih htail⟩
    obtain ⟨t, htmem, htimed⟩ := hts.exists_of_mem_right ht'
    exact waits_of_timed (hhead t htmem) hs htimed

theorem FirstOnly.step (h : FirstOnly wf) (hg : WellStaged wf) (e : Event) : FirstOnly (step r wf e) := by
  rcases step_cases (r := r) hg.unique e with hs | ⟨env, req, c, -, hc, hacc, hs⟩ | ⟨hu, -⟩ |
    ⟨-, -, tasks, _, htasks, -, hs⟩
  · rw [hs]; exact h
  · rw [hs]
    unfold FirstOnly at h
    rw [hc] at h
    exact FirstOnly.replace h (Cursor.before_eq_nil hg hc hacc.index) _
  · exact absurd hu hg.state
  · rw [hs]; exact pairwise_of_timed h htasks

theorem FirstOnly.initial {tpl : Template.Workflow} (hwf : InitialisedFrom tpl wf) : FirstOnly wf := by
  refine List.pairwise_of_forall_mem_list fun s _ t ht _ a ha => ?_
  refine initial_pending tpl a ?_
  rw [show (workflowYAMLToStatus tpl).tasks = wf.status.tasks by rw [hwf]; rfl]
  exact mem_actionsOf.2 ⟨t, ht, ha⟩

/-- The tasks that have actions. -/
def busyTasks (tasks : List Task) : List Task := tasks.filter fun t => !t.actions.isEmpty

theorem length_busyTasks (tasks : List Task) :
    (busyTasks tasks).length = ((skeleton tasks).filter fun p => !p.2.isEmpty).length := by
  rw [busyTasks, skeleton, List.filter_map, List.length_map]
  simp [Function.comp_def]

theorem length_busyTasks_initial {tpl : Template.Workflow} (hwf : InitialisedFrom tpl wf) :
    (busyTasks wf.status.tasks).length = (tpl.tasks.filter fun t => !t.actions.isEmpty).length := by
  have htasks : wf.status.tasks = (workflowYAMLToStatus tpl).tasks := by rw [hwf]; rfl
  rw [htasks, busyTasks, workflowYAMLToStatus, List.filter_map, List.length_map]
  simp [Function.comp_def]

/-- With actions in two tasks, not all actions have succeeded. -/
theorem FirstOnly.ne_success (h : FirstOnly wf) (hs : Sane wf) (hbusy : 2 ≤ (busyTasks wf.status.tasks).length) :
    wf.status.state ≠ .success := by
  intro hstate
  match hb : busyTasks wf.status.tasks, hbusy with
  | s :: t :: rest, _ =>
    have hwaits : Waits s t := by
      have hpair := h.filter fun t : Task => !t.actions.isEmpty
      rw [show wf.status.tasks.filter (fun t => !t.actions.isEmpty) = s :: t :: rest from hb,
        List.pairwise_cons] at hpair
      exact hpair.1 t (by simp)
    have hmem : ∀ u ∈ s :: t :: rest, u ∈ wf.status.tasks ∧ u.actions ≠ [] := by
      intro u hu
      rw [← hb, busyTasks, List.mem_filter] at hu
      exact ⟨hu.1, by simpa using hu.2⟩
    obtain ⟨a, ha⟩ := List.exists_mem_of_ne_nil _ (hmem t (by simp)).2
    have hin : a ∈ actionsOf wf.status.tasks := mem_actionsOf.2 ⟨t, (hmem t (by simp)).1, ha⟩
    have hne : statuses wf ≠ [] := List.ne_nil_of_mem (List.mem_map_of_mem hin)
    have hpending := hwaits (hmem s (by simp)).2 a ha
    rw [(hs.agrees hne).1 hstate a hin] at hpending
    cases hpending

/-- Along every history with declared states, the actions of all tasks after the first one with actions are `PENDING`;
a workflow with actions in two tasks is never successful. -/
theorem later_tasks_pending (tpl : Template.Workflow) (hv : Template.validate r tpl = .ok ())
    (hwf : InitialisedFrom tpl wf) {es : List Event} (he : ∀ e ∈ es, e.Declared) :
    FirstOnly (run (step r) wf es) ∧
      (2 ≤ (tpl.tasks.filter fun t => !t.actions.isEmpty).length → (run (step r) wf es).status.state ≠ .success) := by
  have hacc := Template.validate_eq_ok.1 hv
  have h0 : Sane wf := { Steady.initial hacc hwf with agrees := Agrees.initial hwf }
  have hrun : Sane (run (step r) wf es) ∧ FirstOnly (run (step r) wf es) := by
    refine (always_of_every (I := fun w => Sane w ∧ FirstOnly w) (C := fun _ e => e.Declared)
      ⟨h0, FirstOnly.initial hwf⟩ (every_of_forall_mem fun e h _ => he e h) fun w e hw hd => ?_).last
    exact ⟨hw.1.step hd, hw.2.step hw.1.toWellStaged e⟩
  refine ⟨hrun.2, fun hbusy => hrun.2.ne_success hrun.1 ?_⟩
  rw [length_busyTasks, skeleton_run h0.unique h0.state, ← length_busyTasks, length_busyTasks_initial hwf]
  exact hbusy

theorem later_tasks_pending_two_tasks :
    let tpl := Template.Workflow.ofNames [("wipe", "m1", ["disks"]), ("os", "m1", ["stream"])]
    (run (step (.reading _ tpl)) (.ofNames [("wipe", "m1", ["disks"]), ("os", "m1", ["stream"])])
        [.reportOf 0 "wipe" "disks" .success, .reportOf 1 "os" "stream" .success]).status.state ≠ .success := by
  intro tpl
  exact (later_tasks_pending tpl (by rfl) (by rfl) (by decide)).2 (by decide)

end Tink.Kube
