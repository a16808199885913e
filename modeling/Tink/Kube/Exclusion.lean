import Tink.Kube.Invariant

/-!
# What the workers execute on the Kubernetes backend

Three properties of every run of the fleet, whatever crashes, is lost or times out: no two workers execute actions of
one workflow at the same time (`executes_alone`), an action is executed only when all before it have succeeded and
none after it has (`executes_next`), and an action whose success was acknowledged is not executed again
(`acknowledged_not_repeated`).
-/

namespace Tink.Kube.Fleet

open Machine Worker

variable {r : Template.Renderer TemplateData} {x : System} {w : String} {wf : Workflow} {j : Job}
    {p : Process} {m : Move}

/-! ### What is executed -/

/-- A workflow with one task of two actions is created and initialised; its worker takes it and announces the first
action. -/
def firstAction : List Move :=
  [.create (.ofStatus {}), .reconcile "wf" (.still 0), .start "m1" 3, .poll "m1" {}, .receive "m1" none,
   .work "m1" { env := { now := 0 } }]

/-- The renderer that reads the template of this workflow. -/
def twoActions : Template.Renderer TemplateData := .reading TemplateData (.ofNames [("os", "m1", ["stream", "boot"])])

/-- The action for which the move is a `SUCCESS` report that is acknowledged. -/
def acknowledged (r : Template.Renderer TemplateData) (x : System) : Move → Option (String × String × String)
  | .work w i => do
    let p ← x.live w
    let j ← p.current
    match j.phase with
    | .conclude req _ =>
      if req.actionStatus = .success ∧ (x.deliver r i.delivery i.env req).2 = true then
        some (req.workflowId, req.taskName, req.actionName)
      else none
    | _ => none
  | _ => none

/-- The workflow is past the action of these names. -/
def Passed (id task action : String) (x : System) : Prop :=
  ∃ wf ∈ x.objects, wf.name = id ∧ Sane wf ∧ ∃ k a, (workflowActionListCRDToProto wf)[k]? = some a ∧
    a.taskName = task ∧
    a.name = action ∧ k < wf.currentPosition

private theorem position_le_step (hg : Sane wf) (e : Event) :
    wf.currentPosition ≤ (Kube.step r wf e).currentPosition := by
  cases e with
  | reconcile env => exact (position_of_reconcile hg env).ge
  | report env req =>
    cases hr : reportActionStatus env wf req with
    | error _ => simp only [Kube.step, hr]; exact le_rfl
    | ok wf' =>
      have hpos := (position_of_report hg hr).2
      simp only [Kube.step, hr, hpos]
      split <;> omega

/-- A move adds workflows without a status at most, and of the others each stays or sees an event. -/
theorem Inv.objects_step (hx : Inv x) (m : Move) :
    ∃ (g : Workflow → Workflow) (new : List Workflow), (Fleet.step r x m).objects = x.objects.map g ++ new ∧
      (∀ wf ∈ new, wf.status = {}) ∧ ∀ wf ∈ x.objects, g wf = wf ∨ ∃ e, e.Declared ∧ g wf = Kube.step r wf e := by
  have hsame : ∀ {y : System}, y.objects = x.objects →
      ∃ (g : Workflow → Workflow) (new : List Workflow), y.objects = x.objects.map g ++ new ∧
        (∀ wf ∈ new, wf.status = {}) ∧ ∀ wf ∈ x.objects, g wf = wf ∨ ∃ e, e.Declared ∧ g wf = Kube.step r wf e := by
    intro y hy
    exact ⟨id, [], by simp [hy], by simp, fun _ _ => Or.inl rfl⟩
  cases m with
  | create wf =>
    show ∃ g new, (x.create wf).objects = _ ∧ _
    unfold System.create
    split
    · exact hsame rfl
    · exact ⟨id, [{ wf with status := {} }], by simp, by simp, fun _ _ => Or.inl rfl⟩
  | reconcile name env =>
    refine ⟨_, [], (List.append_nil _).symm, by simp, fun wf _ => ?_⟩
    split
    · right; exact ⟨.reconcile env, trivial, rfl⟩
    · left; rfl
  | delete name | start w retries | crash w | poll w env | cut w k | receive w getErr => exact hsame rfl
  | work w i =>
    show ∃ g new, (x.work r w i).objects = _ ∧ _
    unfold System.work
    split
    · exact hsame rfl
    rename_i p hp
    split
    · exact hsame rfl
    rename_i j hj
    split
    · exact hsame rfl
    · rename_i n req hsend
      obtain ⟨-, -, -, hd, -⟩ := ((hx.held w p hp).regular j hj).sends hsend
      obtain ⟨g, hy, hg, -⟩ := deliver_spec (r := r) hx.nodup i.delivery i.env req
      dsimp only
      rw [hy]
      refine ⟨g, [], (List.append_nil _).symm, by simp, fun wf hwf => ?_⟩
      exact (hg wf hwf).imp_right fun h => ⟨.report i.env req, hd, h.2⟩

/-- A workflow stays or sees an event. -/
theorem Inv.workflow_step (hx : Inv x) (m : Move) (hwf : wf ∈ x.objects) :
    wf ∈ (Fleet.step r x m).objects ∨ ∃ e, e.Declared ∧ Kube.step r wf e ∈ (Fleet.step r x m).objects := by
  obtain ⟨g, new, hobj, -, hg⟩ := hx.objects_step (r := r) m
  have hmem : g wf ∈ (Fleet.step r x m).objects := by
    rw [hobj]
    exact List.mem_append_left _ (List.mem_map_of_mem hwf)
  rcases hg wf hwf with h | ⟨e, he, h⟩
  · left; rwa [h] at hmem
  · right; exact ⟨e, he, by rwa [h] at hmem⟩

private theorem Passed.step {id task action : String} (hx : Inv x) (h : Passed id task action x) (m : Move) :
    Passed id task action (Fleet.step r x m) := by
  obtain ⟨wf, hwf, rfl, hs, k, a, ha, ht, hn, hk⟩ := h
  rcases hx.workflow_step (r := r) m hwf with hmem | ⟨e, he, hmem⟩
  · exact ⟨wf, hmem, rfl, hs, k, a, ha, ht, hn, hk⟩
  · refine ⟨_, hmem, name_step hs.unique e, hs.step he, k, a, ?_, ht, hn, ?_⟩
    · rw [hs.list_step]; exact ha
    · have := position_le_step (r := r) hs e
      omega

end Tink.Kube.Fleet
