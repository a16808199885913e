import Tink.Kube.Contexts
import Tink.Lib.Slice

/-!
# The volumes of an action list in memory

`WorkflowActionListCRDToProto` computes the volumes of an action as `append(task.Volumes, action.Volumes...)`, for
every action of a task from the same slice.  If there is room behind the volumes of the task, then the appends for
several actions write to the same cells.  Here the function is modelled on slices in a heap, and compared with the
function on lists (`workflowActionListCRDToProto`) that the rest of the development uses.

The two agree exactly if, in every task, of any two actions whose volumes fit into the room one has volumes that begin
with those of the other (`list_intact_iff`).  The server reads workflows from a cache, which hands out deep copies;
these have no room behind their slices, and there the two always agree (`deep_copied_list`).
-/

namespace Tink.Kube.Mem

open GoSlice GoSlice.Heap

/-- A task in memory: its volumes and those of its actions are slices, and the other fields are in `task` and in the
actions.  A nil slice is one without cells. -/
structure TaskRef where
  task : Task
  volumes : Slice
  actions : List (Action × Slice)

/-- The task that is read from memory. -/
def TaskRef.read (h : Heap String) (t : TaskRef) : Task :=
  { t.task with
    volumes := h.read t.volumes
    actions := t.actions.map fun a => { a.1 with volumes := h.read a.2 } }

/-- An element of the list that is built; its volumes are a slice. -/
structure ActionRef where
  action : WorkflowAction
  volumes : Slice

def ActionRef.read (h : Heap String) (a : ActionRef) : WorkflowAction := { a.action with volumes := h.read a.volumes }

/-- The loop over the actions of a task. -/
def actionLoop (growth : Nat → Nat) (t : TaskRef) : Heap String → List (Action × Slice) → Heap String × List ActionRef
  | h, [] => (h, [])
  | h, (action, vs) :: actions =>
    let (h₁, volumes) := h.append growth t.volumes (h.read vs)
    let (h₂, list) := actionLoop growth t h₁ actions
    (h₂, ⟨actionCRDToProto t.task action, volumes⟩ :: list)

/-- `WorkflowActionListCRDToProto`: the loop over the tasks. -/
def workflowActionListCRDToProto (growth : Nat → Nat) : Heap String → List TaskRef → Heap String × List ActionRef
  | h, [] => (h, [])
  | h, task :: tasks =>
    let (h₁, list) := actionLoop growth task h task.actions
    let (h₂, list') := workflowActionListCRDToProto growth h₁ tasks
    (h₂, list ++ list')

/-- `DeepCopyInto` of a slice of strings. -/
def copySlice (h : Heap String) (s : Slice) : Heap String × Slice :=
  (h.alloc (h.read s), ⟨h.arrays.length, 0, (h.read s).length, (h.read s).length⟩)

def copyActions : Heap String → List (Action × Slice) → Heap String × List (Action × Slice)
  | h, [] => (h, [])
  | h, (action, vs) :: actions =>
    let (h₁, vs') := copySlice h vs
    let (h₂, actions') := copyActions h₁ actions
    (h₂, (action, vs') :: actions')

/-- `DeepCopyInto` of the tasks of a workflow. -/
def deepCopy : Heap String → List TaskRef → Heap String × List TaskRef
  | h, [] => (h, [])
  | h, t :: ts =>
    let (h₁, actions) := copyActions h t.actions
    let (h₂, volumes) := copySlice h₁ t.volumes
    let (h₃, ts') := deepCopy h₂ ts
    (h₃, { t with volumes := volumes, actions := actions } :: ts')

/-- The slices are those of cells there are. -/
def TaskRef.Valid (h : Heap String) (t : TaskRef) : Prop := h.Valid t.volumes ∧ ∀ a ∈ t.actions, h.Valid a.2

/-- There is no room behind the slice. -/
def Full (s : Slice) : Prop := s.cap = s.len

/-- The cells behind the volumes of a task are those of no other slice. -/
structure Separate (ts : List TaskRef) : Prop where
  tasks : ts.Pairwise fun t u => t.volumes.array ≠ u.volumes.array ∨ (Full t.volumes ∧ Full u.volumes)
  actions : ∀ t ∈ ts, ∀ u ∈ ts, ∀ a ∈ u.actions, a.2.array ≠ t.volumes.array ∨ Full t.volumes

variable {g : Nat → Nat} {h h' : Heap String} {t u : TaskRef} {ts : List TaskRef} {as : List (Action × Slice)}

/-! ### One task -/

private theorem actionLoop_cons (action : Action) (vs : Slice) (as : List (Action × Slice)) :
    actionLoop g t h ((action, vs) :: as) =
      ((actionLoop g t (h.append g t.volumes (h.read vs)).1 as).1,
        ⟨actionCRDToProto t.task action, (h.append g t.volumes (h.read vs)).2⟩ ::
          (actionLoop g t (h.append g t.volumes (h.read vs)).1 as).2) := rfl

/-- The loop appends the volumes of each action to those of the task. -/
private theorem actionLoop_eq (ht : h.Valid t.volumes)
    (has : ∀ a ∈ as, h.Valid a.2 ∧ Apart t.volumes a.2) :
    (actionLoop g t h as).1 = (appendEach g t.volumes h (as.map fun a => h.read a.2)).1 ∧
      (actionLoop g t h as).2.map ActionRef.volumes = (appendEach g t.volumes h (as.map fun a => h.read a.2)).2 ∧
      List.Forall₂ (fun ref a => ref.action = actionCRDToProto t.task a.1) (actionLoop g t h as).2 as := by
  induction as generalizing h with
  | nil => exact ⟨rfl, rfl, .nil⟩
  | cons a as ih =>
    obtain ⟨action, vs⟩ := a
    obtain ⟨⟨hvs, -⟩, hrest⟩ := List.forall_mem_cons.1 has
    have hread : as.map (fun a => (h.append g t.volumes (h.read vs)).1.read a.2) = as.map fun a => h.read a.2 :=
      List.map_congr_left fun a ha => read_append_of_apart ht (hrest a ha).1 (hrest a ha).2 _
    have ih := ih (ht.append (g := g) ht (h.read vs)) fun a ha => ⟨(hrest a ha).1.append ht _, (hrest a ha).2⟩
    rw [hread] at ih
    obtain ⟨h1, h2, h3⟩ := ih
    rw [List.map_cons, appendEach_cons, actionLoop_cons]
    refine ⟨h1, ?_, .cons rfl h3⟩
    rw [List.map_cons, h2]

/-- What the loop over the actions of a task leaves alone. -/
private theorem actionLoop_frame (ht : t.Valid h) (hap : ∀ a ∈ t.actions, Apart t.volumes a.2) {s : Slice}
    (hs : h.Valid s) (hst : Apart t.volumes s) :
    (actionLoop g t h t.actions).1.read s = h.read s ∧ (actionLoop g t h t.actions).1.Valid s := by
  obtain ⟨heap, -, -⟩ := actionLoop_eq (g := g) ht.1 fun a ha => ⟨ht.2 a ha, hap a ha⟩
  rw [heap]
  exact appendEach_frame ht.1 hs hst

private theorem actionLoop_results (ht : t.Valid h) (hap : ∀ a ∈ t.actions, Apart t.volumes a.2) :
    ∀ ref ∈ (actionLoop g t h t.actions).2, (actionLoop g t h t.actions).1.Valid ref.volumes ∧
      (ref.volumes.array = t.volumes.array ∨ h.arrays.length ≤ ref.volumes.array) := by
  obtain ⟨heap, hvols, -⟩ := actionLoop_eq (g := g) ht.1 fun a ha => ⟨ht.2 a ha, hap a ha⟩
  intro ref href
  rw [heap]
  refine appendEach_results ht.1 ref.volumes ?_
  rw [← hvols]
  exact List.mem_map_of_mem href

private theorem map_eq_map_iff {α β γ : Type} {f : α → γ} {f' : β → γ} {l : List α} {l' : List β} :
    l.map f = l'.map f' ↔ List.Forall₂ (fun a b => f a = f' b) l l' := by
  rw [← List.forall₂_eq_eq_eq, List.forall₂_map_left_iff, List.forall₂_map_right_iff]

/-- The list of one task is right exactly if the volumes of its actions are compatible. -/
private theorem actionLoop_iff (ht : t.Valid h) (hap : ∀ a ∈ t.actions, Apart t.volumes a.2)
    (hkeep : ∀ ref ∈ (actionLoop g t h t.actions).2,
      h'.read ref.volumes = (actionLoop g t h t.actions).1.read ref.volumes) :
    (actionLoop g t h t.actions).2.map (ActionRef.read h') = (t.read h).actions.map (actionCRDToProto (t.read h)) ↔
      Compatible t.volumes (t.actions.map fun a => h.read a.2) := by
  obtain ⟨heap, hvols, hfields⟩ := actionLoop_eq (g := g) ht.1 fun a ha => ⟨ht.2 a ha, hap a ha⟩
  have hright : (t.read h).actions.map (actionCRDToProto (t.read h)) = t.actions.map fun a =>
      { actionCRDToProto t.task a.1 with volumes := h.read t.volumes ++ h.read a.2 } := by
    simp only [TaskRef.read, List.map_map]
    rfl
  rw [hright, map_eq_map_iff, ← appendEach_iff (g := g) ht.1, ← hvols, ← heap, List.forall₂_map_left_iff,
    List.forall₂_map_right_iff]
  have hall := (List.forall₂_and_left _ _).2 ⟨hkeep, hfields⟩
  constructor
  · intro hread
    refine List.Forall₂.mp (fun ref a hra heq => ?_) hall hread
    rw [← hra.1]
    exact congrArg WorkflowAction.volumes heq
  · intro hread
    refine List.Forall₂.mp (fun ref a hra heq => ?_) hall hread
    simp only [ActionRef.read, hra.1, hra.2, heq]

/-! ### All tasks -/

private theorem list_cons (t : TaskRef) (ts : List TaskRef) :
    workflowActionListCRDToProto g h (t :: ts) =
      ((workflowActionListCRDToProto g (actionLoop g t h t.actions).1 ts).1,
        (actionLoop g t h t.actions).2 ++ (workflowActionListCRDToProto g (actionLoop g t h t.actions).1 ts).2) := rfl

/-- The tasks are read as they were, if none of their slices is touched. -/
private theorem read_congr (hv : h'.read t.volumes = h.read t.volumes)
    (ha : ∀ a ∈ t.actions, h'.read a.2 = h.read a.2) :
    t.read h' = t.read h := by
  have hacts : t.actions.map (fun a => { a.1 with volumes := h'.read a.2 }) =
      t.actions.map fun a => { a.1 with volumes := h.read a.2 } :=
    List.map_congr_left fun a h => by rw [ha a h]
  simp only [TaskRef.read, hv, hacts]

private theorem Separate.tail (hsep : Separate (t :: ts)) : Separate ts :=
  ⟨(List.pairwise_cons.1 hsep.tasks).2, fun u hu v hv => hsep.actions u (by simp [hu]) v (by simp [hv])⟩

/-- The volumes of the actions of `u` are not touched by appends to those of `t`. -/
private theorem Separate.action (hsep : Separate ts) (ht : t ∈ ts) (hu : u ∈ ts) :
    ∀ a ∈ u.actions, Apart t.volumes a.2 :=
  fun a ha => (hsep.actions t ht u hu a ha).imp_right Or.inr

private theorem Separate.volumes (hsep : Separate ts) (ht : t ∈ ts) (hu : u ∈ ts) : Apart t.volumes u.volumes := by
  refine List.Pairwise.forall_of_forall_of_flip (R := fun t u : TaskRef => Apart t.volumes u.volumes)
    (fun _ _ => Or.inr (Or.inl rfl)) (hsep.tasks.imp ?_) (hsep.tasks.imp ?_) ht hu
  · intro t u h
    exact h.imp Ne.symm fun h => Or.inr h.1
  · intro t u h
    exact h.imp id fun h => Or.inr h.2

/-- The rest of the tasks after the first one. -/
private theorem tail_valid (hv : ∀ u ∈ t :: ts, u.Valid h) (hsep : Separate (t :: ts)) :
    ∀ u ∈ ts, u.Valid (actionLoop g t h t.actions).1 ∧ u.read (actionLoop g t h t.actions).1 = u.read h ∧
      ∀ a ∈ u.actions, (actionLoop g t h t.actions).1.read a.2 = h.read a.2 := by
  intro u hu
  have ht := hv t (by simp)
  have hut := hv u (by simp [hu])
  have hown := hsep.action (u := t) (t := t) (by simp) (by simp)
  have hother := hsep.action (u := u) (t := t) (by simp) (by simp [hu])
  obtain ⟨hread, hvalid⟩ := actionLoop_frame (g := g) ht hown hut.1
    (hsep.volumes (t := t) (u := u) (by simp) (by simp [hu]))
  have hacts := fun a ha => actionLoop_frame (g := g) ht hown (hut.2 a ha) (hother a ha)
  exact ⟨⟨hvalid, fun a ha => (hacts a ha).2⟩, read_congr hread fun a ha => (hacts a ha).1,
    fun a ha => (hacts a ha).1⟩

/-- What the whole function leaves alone. -/
private theorem list_frame (hv : ∀ u ∈ ts, u.Valid h) (hsep : Separate ts) {s : Slice} (hs : h.Valid s)
    (hst : ∀ u ∈ ts, Apart u.volumes s) : (workflowActionListCRDToProto g h ts).1.read s = h.read s := by
  induction ts generalizing h with
  | nil => rfl
  | cons t ts ih =>
    have hown := hsep.action (u := t) (t := t) (by simp) (by simp)
    obtain ⟨hread, hvalid⟩ := actionLoop_frame (g := g) (hv t (by simp)) hown hs (hst t (by simp))
    rw [list_cons]
    exact (ih (fun u hu => (tail_valid hv hsep u hu).1) hsep.tail hvalid fun u hu => hst u (by simp [hu])).trans hread

/-- The list of the first task is not touched any more. -/
private theorem head_kept (hv : ∀ u ∈ t :: ts, u.Valid h) (hsep : Separate (t :: ts)) :
    ∀ ref ∈ (actionLoop g t h t.actions).2,
      (workflowActionListCRDToProto g h (t :: ts)).1.read ref.volumes =
        (actionLoop g t h t.actions).1.read ref.volumes := by
  intro ref href
  have hown := hsep.action (u := t) (t := t) (by simp) (by simp)
  obtain ⟨hvalid, harray⟩ := actionLoop_results (hv t (by simp)) hown ref href
  rw [list_cons]
  refine list_frame (fun u hu => (tail_valid hv hsep u hu).1) hsep.tail hvalid fun u hu => ?_
  rcases harray with heq | hnew
  · -- in the array of the first task
    rcases (List.pairwise_cons.1 hsep.tasks).1 u hu with hne | ⟨-, hfull⟩
    · left; rw [heq]; exact hne
    · right; right; exact hfull
  · -- in a new array
    rcases (hv u (by simp [hu])).1.lt_or_full with hlt | hfull
    · left; omega
    · right; right; exact hfull

private theorem list_iff (hv : ∀ t ∈ ts, t.Valid h) (hsep : Separate ts) :
    (workflowActionListCRDToProto g h ts).2.map (ActionRef.read (workflowActionListCRDToProto g h ts).1) =
        (ts.map (TaskRef.read h)).flatMap (fun t => t.actions.map (actionCRDToProto t)) ↔
      ∀ t ∈ ts, Compatible t.volumes (t.actions.map fun a => h.read a.2) := by
  induction ts generalizing h with
  | nil => simp [workflowActionListCRDToProto]
  | cons t ts ih =>
    have hown := hsep.action (u := t) (t := t) (by simp) (by simp)
    have htail := tail_valid (g := g) hv hsep
    have ih := ih (fun u hu => (htail u hu).1) hsep.tail
    have hreads : ts.map (TaskRef.read (actionLoop g t h t.actions).1) = ts.map (TaskRef.read h) :=
      List.map_congr_left fun u hu => (htail u hu).2.1
    have hcompat : (∀ u ∈ ts, Compatible u.volumes (u.actions.map fun a => (actionLoop g t h t.actions).1.read a.2)) ↔
        ∀ u ∈ ts, Compatible u.volumes (u.actions.map fun a => h.read a.2) := by
      refine forall₂_congr fun u hu => ?_
      rw [List.map_congr_left (htail u hu).2.2]
    rw [hreads, hcompat] at ih
    have hhead := actionLoop_iff (hv t (by simp)) hown (head_kept (g := g) hv hsep)
    have hlen : ((actionLoop g t h t.actions).2.map
      (ActionRef.read (workflowActionListCRDToProto g h (t :: ts)).1)).length =
        ((t.read h).actions.map (actionCRDToProto (t.read h))).length := by
      obtain ⟨-, -, hfields⟩ := actionLoop_eq (g := g) (hv t (by simp)).1 fun a ha =>
        ⟨(hv t (by simp)).2 a ha, hown a ha⟩
      rw [List.length_map, List.length_map, hfields.length_eq]
      simp [TaskRef.read]
    rw [List.forall_mem_cons, ← hhead, ← ih, List.map_cons, List.flatMap_cons]
    rw [list_cons] at hlen ⊢
    rw [List.map_append]
    constructor
    · intro heq
      exact List.append_inj heq hlen
    · rintro ⟨h1, h2⟩
      rw [h1, h2]

/-- The function on memory builds the list that the function on lists builds, exactly if in every task the volumes
that fit behind those of the task are compatible.  The workflow itself reads as before. -/
theorem list_intact_iff (wf : Workflow) (growth : Nat → Nat) (h : Heap String) (ts : List TaskRef)
    (hwf : wf.status.tasks = ts.map (TaskRef.read h)) (hv : ∀ t ∈ ts, t.Valid h) (hsep : Separate ts) :
    ((workflowActionListCRDToProto growth h ts).2.map (ActionRef.read (workflowActionListCRDToProto growth h ts).1) =
        Kube.workflowActionListCRDToProto wf ↔
      ∀ t ∈ ts, Compatible t.volumes (t.actions.map fun a => h.read a.2)) ∧
    ts.map (TaskRef.read (workflowActionListCRDToProto growth h ts).1) = wf.status.tasks := by
  constructor
  · rw [Kube.workflowActionListCRDToProto, hwf]
    exact list_iff hv hsep
  · rw [hwf]
    refine List.map_congr_left fun t ht => ?_
    have hself : ∀ u ∈ ts, Apart u.volumes t.volumes := fun u hu => hsep.volumes hu ht
    exact read_congr (list_frame hv hsep (hv t ht).1 hself) fun a ha =>
      list_frame hv hsep ((hv t ht).2 a ha) fun u hu => hsep.action hu ht a ha

/-- A task with room for one more volume, and two actions with one volume each. -/
def twoActionsTask (cap : Nat) : TaskRef where
  task := { name := "os", workerAddr := "m1", actions := [] }
  volumes := ⟨0, 0, 1, cap⟩
  actions := [({ name := "stream" }, ⟨1, 0, 1, 1⟩), ({ name := "boot" }, ⟨2, 0, 1, 1⟩)]

def twoActionsHeap : Heap String := ⟨[["/dev:/dev", ""], ["/a:/a"], ["/b:/b"]]⟩

private theorem twoActionsTask_valid : ∀ t ∈ [twoActionsTask 2], t.Valid twoActionsHeap := by
  intro t ht
  rw [List.mem_singleton.1 ht]
  refine ⟨⟨by decide, by decide⟩, fun a ha => ?_⟩
  rcases List.mem_pair.1 ha with rfl | rfl <;> exact ⟨by decide, by decide⟩

/-- With room behind the volumes of the task, the second action overwrites the volume of the first. -/
theorem list_intact_iff_overwritten :
    ((workflowActionListCRDToProto id twoActionsHeap [twoActionsTask 2]).2.map
        (ActionRef.read (workflowActionListCRDToProto id twoActionsHeap [twoActionsTask 2]).1)).map
          WorkflowAction.volumes = [["/dev:/dev", "/b:/b"], ["/dev:/dev", "/b:/b"]] ∧
      (workflowActionListCRDToProto id twoActionsHeap [twoActionsTask 2]).2.map
          (ActionRef.read (workflowActionListCRDToProto id twoActionsHeap [twoActionsTask 2]).1) ≠
        Kube.workflowActionListCRDToProto (.ofStatus { tasks := [(twoActionsTask 2).read twoActionsHeap] }) := by
  have hsep : Separate [twoActionsTask 2] := by
    refine ⟨List.pairwise_singleton _ _, fun t ht u hu a ha => Or.inl ?_⟩
    rw [List.mem_singleton.1 ht]
    rw [List.mem_singleton.1 hu] at ha
    rcases List.mem_pair.1 ha with rfl | rfl <;> decide
  refine ⟨by decide, fun heq => ?_⟩
  have hcompat : Compatible ⟨0, 0, 1, 2⟩ [["/a:/a"], ["/b:/b"]] :=
    (list_intact_iff (.ofStatus { tasks := [(twoActionsTask 2).read twoActionsHeap] }) id twoActionsHeap
      [twoActionsTask 2] rfl twoActionsTask_valid hsep).1.1 heq _ (List.mem_singleton.2 rfl)
  rcases (List.pairwise_cons.1 hcompat).1 ["/b:/b"] (by simp) (by decide) (by decide) with hp | hp
  · revert hp; decide
  · revert hp; decide

/-! ### Deep copies -/

private theorem copySlice_spec (h : Heap String) (s : Slice) :
    (copySlice h s).1.Valid (copySlice h s).2 ∧ Full (copySlice h s).2 ∧
      (copySlice h s).1.read (copySlice h s).2 = h.read s := by
  refine ⟨⟨le_rfl, ?_⟩, rfl, ?_⟩
  · simp [copySlice, array_alloc_self]
  · simp [copySlice, Heap.read, array_alloc_self]

/-- Slices read in the later heap as in the earlier one. -/
private def Extends (h h' : Heap String) : Prop := ∀ s, h.Valid s → h'.Valid s ∧ h'.read s = h.read s

private theorem extends_copySlice (h : Heap String) (s : Slice) : Extends h (copySlice h s).1 :=
  fun _ ht => ⟨ht.alloc, read_alloc ht⟩

private theorem Extends.trans {h'' : Heap String} (h1 : Extends h h') (h2 : Extends h' h'') : Extends h h'' :=
  fun s hs => ⟨(h2 s (h1 s hs).1).1, (h2 s (h1 s hs).1).2.trans (h1 s hs).2⟩

private theorem copyActions_spec (has : ∀ a ∈ as, h.Valid a.2) :
    Extends h (copyActions h as).1 ∧ (∀ a ∈ (copyActions h as).2, (copyActions h as).1.Valid a.2) ∧
      (copyActions h as).2.map (fun a => (a.1, (copyActions h as).1.read a.2)) =
        as.map fun a => (a.1, h.read a.2) := by
  induction as generalizing h with
  | nil => exact ⟨fun s hs => ⟨hs, rfl⟩, by simp [copyActions], rfl⟩
  | cons a as ih =>
    obtain ⟨action, vs⟩ := a
    obtain ⟨hvs, hrest⟩ := List.forall_mem_cons.1 has
    have hext := extends_copySlice h vs
    obtain ⟨hvalid, -, hread⟩ := copySlice_spec h vs
    obtain ⟨hext', hvalid', hread'⟩ := ih fun a ha => (hext _ (hrest a ha)).1
    have hold : as.map (fun a => (a.1, (copySlice h vs).1.read a.2)) = as.map fun a => (a.1, h.read a.2) :=
      List.map_congr_left fun a ha => by rw [(hext _ (hrest a ha)).2]
    refine ⟨hext.trans hext', ?_, ?_⟩
    · intro b hb
      rcases List.mem_cons.1 hb with rfl | hb
      · exact (hext' _ hvalid).1
      · exact hvalid' b hb
    · show (action, (copyActions (copySlice h vs).1 as).1.read (copySlice h vs).2) :: _ = (action, h.read vs) :: _
      rw [(hext' _ hvalid).2, hread, ← hold, ← hread']
      rfl

private theorem deepCopy_cons (t : TaskRef) (ts : List TaskRef) :
    deepCopy h (t :: ts) =
      ((deepCopy (copySlice (copyActions h t.actions).1 t.volumes).1 ts).1,
        { t with
          volumes := (copySlice (copyActions h t.actions).1 t.volumes).2
          actions := (copyActions h t.actions).2 } ::
        (deepCopy (copySlice (copyActions h t.actions).1 t.volumes).1 ts).2) := rfl

/-- A deep copy reads as the original, and there is no room behind its slices. -/
private theorem deepCopy_spec (hv : ∀ t ∈ ts, t.Valid h) :
    Extends h (deepCopy h ts).1 ∧ (∀ t ∈ (deepCopy h ts).2, t.Valid (deepCopy h ts).1 ∧ Full t.volumes) ∧
      (deepCopy h ts).2.map (TaskRef.read (deepCopy h ts).1) = ts.map (TaskRef.read h) := by
  induction ts generalizing h with
  | nil => exact ⟨fun s hs => ⟨hs, rfl⟩, by simp [deepCopy], rfl⟩
  | cons t ts ih =>
    obtain ⟨ht, hts⟩ := List.forall_mem_cons.1 hv
    obtain ⟨hext₁, hvalid₁, hread₁⟩ := copyActions_spec ht.2
    obtain ⟨hvalid₂, hfull, hread₂⟩ := copySlice_spec (copyActions h t.actions).1 t.volumes
    have hext₂ := extends_copySlice (copyActions h t.actions).1 t.volumes
    have hext := hext₁.trans hext₂
    obtain ⟨hext₃, hvalid₃, hread₃⟩ := ih fun u hu =>
      ⟨(hext _ (hts u hu).1).1, fun a ha => (hext _ ((hts u hu).2 a ha)).1⟩
    have hold : ts.map (TaskRef.read (copySlice (copyActions h t.actions).1 t.volumes).1) = ts.map (TaskRef.read h) :=
      List.map_congr_left fun u hu => read_congr (hext _ (hts u hu).1).2 fun a ha => (hext _ ((hts u hu).2 a ha)).2
    rw [deepCopy_cons]
    refine ⟨hext.trans hext₃, ?_, ?_⟩
    · intro u hu
      rcases List.mem_cons.1 hu with rfl | hu
      · exact ⟨⟨(hext₃ _ hvalid₂).1, fun a ha => (hext₃ _ (hext₂ _ (hvalid₁ a ha)).1).1⟩, hfull⟩
      · exact hvalid₃ u hu
    · rw [List.map_cons, List.map_cons, ← hold, ← hread₃]
      refine congrArg (· :: _) ?_
      -- the actions of the copy, with what their slices read
      have hacts : (copyActions h t.actions).2.map (fun a => ({ a.1 with
            volumes := (deepCopy (copySlice (copyActions h t.actions).1 t.volumes).1 ts).1.read a.2 } : Action)) =
          t.actions.map fun a => { a.1 with volumes := h.read a.2 } := by
        have hmap := congrArg (List.map fun p : Action × List String => ({ p.1 with volumes := p.2 } : Action)) hread₁
        rw [List.map_map, List.map_map] at hmap
        refine Eq.trans (List.map_congr_left fun a ha => ?_) hmap
        rw [(hext₃ _ (hext₂ _ (hvalid₁ a ha)).1).2, (hext₂ _ (hvalid₁ a ha)).2]
        rfl
      simp only [TaskRef.read, hacts, (hext₃ _ hvalid₂).2, hread₂, (hext₁ _ ht.1).2]

/-- On a deep copy of a workflow, whatever slices of the original share their arrays, the function on memory builds
the list that the function on lists builds. -/
theorem deep_copied_list (wf : Workflow) (growth : Nat → Nat) (h : Heap String) (ts : List TaskRef)
    (hwf : wf.status.tasks = ts.map (TaskRef.read h)) (hv : ∀ t ∈ ts, t.Valid h) :
    let copy := deepCopy h ts
    let list := workflowActionListCRDToProto growth copy.1 copy.2
    list.2.map (ActionRef.read list.1) = Kube.workflowActionListCRDToProto wf := by
  obtain ⟨-, hvalid, hread⟩ := deepCopy_spec hv
  intro copy list
  have hsep : Separate copy.2 := by
    refine ⟨List.pairwise_of_forall_mem_list fun t ht u hu => Or.inr ⟨(hvalid t ht).2, (hvalid u hu).2⟩, ?_⟩
    exact fun t ht u hu a ha => Or.inr (hvalid t ht).2
  rw [Kube.workflowActionListCRDToProto, hwf, ← hread]
  refine (list_iff (fun t ht => (hvalid t ht).1) hsep).2 fun t ht => ?_
  -- only the empty list fits
  refine List.pairwise_of_forall_mem_list fun xs _ ys _ hx _ => Or.inl ?_
  have hfull : t.volumes.cap = t.volumes.len := (hvalid t ht).2
  have hnil : xs = [] := List.length_eq_zero_iff.1 (by omega)
  rw [hnil]
  exact List.nil_prefix

theorem deep_copied_list_two_actions :
    let copy := deepCopy twoActionsHeap [twoActionsTask 2]
    let list := workflowActionListCRDToProto id copy.1 copy.2
    (list.2.map (ActionRef.read list.1)).map WorkflowAction.volumes =
      [["/dev:/dev", "/a:/a"], ["/dev:/dev", "/b:/b"]] := by
  intro copy list
  have hlist := deep_copied_list (.ofStatus { tasks := [(twoActionsTask 2).read twoActionsHeap] }) id twoActionsHeap
    [twoActionsTask 2] rfl twoActionsTask_valid
  rw [show list.2.map (ActionRef.read list.1) = _ from hlist]
  rfl

end Tink.Kube.Mem
