import Mathlib.Data.List.TakeWhile
import Tink.Db.Lookup
import Tink.Db.Position

/-!
# What is stored of a template

`CreateWorkflow` stores the actions of a template, task by task, and the workers that take part (`insertActionList` in
`db/workflow.go`).  Two of its loops keep something by a key.  The volumes of a task and of an action are cut at the
first colon, collected in a map by what is in front of it, and joined again: of several volumes with one host path the
last one stays, and a volume without a colon gets one.  A worker is registered when its id differs from the one of the
task before, and in front of the first task the variable has its zero value: what is registered are the workers from
the first task on whose worker has another id than that (`mem_registered`).
-/

namespace Tink.Db

open Pg Machine

variable {H : Type} {r : Template.Renderer H} {reg : Registry} {s s' : Store} {id : UUID}

/-! ### Volumes -/

/-- The text of a volume in front of the first colon. -/
def hostPath (vol : String) : String := (cutVolume vol).1

/-- A volume as it is stored: cut at the first colon and joined. -/
def joined (vol : String) : String := (cutVolume vol).1 ++ ":" ++ (cutVolume vol).2

/-- Every volume of the action is stored; every one of the task unless the action has one with its host path; and
nothing else. -/
structure VolumesKept (taskVols actionVols stored : List String) : Prop where
  action : ∀ v ∈ actionVols, v ∈ stored
  task : ∀ v ∈ taskVols, (∀ w ∈ actionVols, hostPath w ≠ hostPath v) → v ∈ stored
  only : ∀ v ∈ stored, v ∈ actionVols ∨ (v ∈ taskVols ∧ ∀ w ∈ actionVols, hostPath w ≠ hostPath v)

/-- The volumes have a colon, and different volumes have different host paths. -/
structure Mountable (vols : List String) : Prop where
  colon : ∀ v ∈ vols, ':' ∈ v.toList
  distinct : ∀ v ∈ vols, ∀ w ∈ vols, hostPath v = hostPath w → v = w

/-- The volumes of the task with a host path that no volume of the action has. -/
def inherited (taskVols actionVols : List String) : List String :=
  taskVols.filter fun v => ∀ w ∈ actionVols, hostPath w ≠ hostPath v

private theorem mem_inherited {taskVols actionVols : List String} {v : String} :
    v ∈ inherited taskVols actionVols ↔ v ∈ taskVols ∧ ∀ w ∈ actionVols, hostPath w ≠ hostPath v := by
  simp [inherited]

private theorem colon_mem_joined (vol : String) : ':' ∈ (joined vol).toList := by
  simp [joined]

/-- A volume with a colon is stored as it is. -/
private theorem joined_of_colon {vol : String} (h : ':' ∈ vol.toList) : joined vol = vol := by
  apply String.toList_inj.1
  have hdrop : vol.toList.dropWhile (· ≠ ':') ≠ [] := by
    intro hnil
    have hall := List.dropWhile_eq_nil_iff.1 hnil ':' h
    simp at hall
  have hhead : ':' :: (vol.toList.dropWhile (· ≠ ':')).drop 1 = vol.toList.dropWhile (· ≠ ':') := by
    cases hd : vol.toList.dropWhile (· ≠ ':') with
    | nil => exact absurd hd hdrop
    | cons c rest =>
      have hc := List.head_dropWhile_not (· ≠ ':') hdrop
      simp only [hd, List.head_cons] at hc
      simp at hc
      rw [hc, List.drop_one, List.tail_cons]
  calc (joined vol).toList
      = vol.toList.takeWhile (· ≠ ':') ++ ':' :: (vol.toList.dropWhile (· ≠ ':')).drop 1 := by
        simp [joined, cutVolume]
    _ = vol.toList := by rw [hhead, List.takeWhile_append_dropWhile]

/-- Cutting a stored volume gives the parts it was joined from. -/
private theorem cutVolume_joined (vol : String) : cutVolume (joined vol) = cutVolume vol := by
  have hfront : ∀ c ∈ vol.toList.takeWhile (· ≠ ':'), decide (c ≠ ':') = true := by
    intro c hc
    exact List.mem_takeWhile_imp (p := fun c => decide (c ≠ ':')) hc
  have htext : (joined vol).toList =
      vol.toList.takeWhile (· ≠ ':') ++ ':' :: (vol.toList.dropWhile (· ≠ ':')).drop 1 := by
    simp [joined, cutVolume]
  unfold cutVolume
  rw [htext, List.takeWhile_append_of_pos hfront, List.dropWhile_append_of_pos hfront]
  simp

/-- The last volume of a list with a host path. -/
def lastVolume (path : String) (vols : List String) : Option String :=
  vols.reverse.find? fun vol => hostPath vol = path

/-- The volume that stays for a host path. -/
def mergedVolume (taskVols actionVols : List String) (path : String) : Option String :=
  (lastVolume path actionVols).or (lastVolume path taskVols)

private theorem lookup_addVolumes (m : StringMap) (vols : List String) (path : String) :
    (addVolumes m vols).lookup path =
      ((lastVolume path vols).map fun vol => (cutVolume vol).2).or (m.lookup path) := by
  induction vols using List.reverseRecOn with
  | nil => simp [addVolumes, lastVolume]
  | append_singleton vols vol ih =>
    have hfold : addVolumes m (vols ++ [vol]) = (addVolumes m vols).insert (cutVolume vol).1 (cutVolume vol).2 := by
      simp [addVolumes]
    by_cases hpath : hostPath vol = path
    · rw [hfold, ← hpath, hostPath, AList.lookup_insert]
      simp [lastVolume, hostPath]
    · have hne : path ≠ (cutVolume vol).1 := fun h => hpath h.symm
      rw [hfold, AList.lookup_insert_ne hne, ih]
      simp [lastVolume, hpath]

private theorem lastVolume_eq_some {path v : String} {vols : List String} (h : lastVolume path vols = some v) :
    v ∈ vols ∧ hostPath v = path := by
  refine ⟨List.mem_reverse.1 (List.mem_of_find?_eq_some h), ?_⟩
  simpa using List.find?_some h

private theorem lastVolume_eq_none {path : String} {vols : List String} :
    lastVolume path vols = none ↔ ∀ w ∈ vols, hostPath w ≠ path := by
  simp [lastVolume]

/-- What stays is a volume of the action, or one of the task that the action does not override. -/
private theorem mergedVolume_eq_some {taskVols actionVols : List String} {path v : String}
    (h : mergedVolume taskVols actionVols path = some v) :
    hostPath v = path ∧ (v ∈ actionVols ∨ v ∈ inherited taskVols actionVols) := by
  unfold mergedVolume at h
  rcases Option.or_eq_some_iff.1 h with ha | ⟨hnone, ht⟩
  · obtain ⟨hmem, hpath⟩ := lastVolume_eq_some ha
    exact ⟨hpath, Or.inl hmem⟩
  · obtain ⟨hmem, hpath⟩ := lastVolume_eq_some ht
    refine ⟨hpath, Or.inr (mem_inherited.2 ⟨hmem, ?_⟩)⟩
    rw [hpath]
    exact lastVolume_eq_none.1 hnone

private theorem exists_mergedVolume_action (taskVols : List String) {actionVols : List String} {v : String}
    (h : v ∈ actionVols) :
    ∃ w ∈ actionVols, hostPath w = hostPath v ∧ mergedVolume taskVols actionVols (hostPath v) = some w := by
  cases hlast : lastVolume (hostPath v) actionVols with
  | none => exact absurd rfl (lastVolume_eq_none.1 hlast v h)
  | some w =>
    obtain ⟨hmem, hpath⟩ := lastVolume_eq_some hlast
    exact ⟨w, hmem, hpath, by rw [mergedVolume, hlast, Option.some_or]⟩

private theorem exists_mergedVolume_inherited {taskVols actionVols : List String} {v : String}
    (h : v ∈ inherited taskVols actionVols) :
    ∃ w ∈ inherited taskVols actionVols, hostPath w = hostPath v ∧
      mergedVolume taskVols actionVols (hostPath v) = some w := by
  obtain ⟨hmem, hfree⟩ := mem_inherited.1 h
  have hnone := lastVolume_eq_none.2 hfree
  cases hlast : lastVolume (hostPath v) taskVols with
  | none => exact absurd rfl (lastVolume_eq_none.1 hlast v hmem)
  | some w =>
    obtain ⟨hw, hpath⟩ := lastVolume_eq_some hlast
    refine ⟨w, mem_inherited.2 ⟨hw, by rwa [hpath]⟩, hpath, ?_⟩
    rw [mergedVolume, hnone, Option.none_or, hlast]

/-- The volumes stored for an action are those that stay, joined. -/
private theorem mem_volumes {task : Template.Task} {u : UUID} {ac : Template.Action} {v : String} :
    v ∈ (workflowAction task u ac).volumes ↔
      ∃ vol, mergedVolume task.volumes ac.volumes (hostPath vol) = some vol ∧ v = joined vol := by
  have hlookup : ∀ path, (addVolumes (addVolumes ∅ task.volumes) ac.volumes).lookup path =
      (mergedVolume task.volumes ac.volumes path).map fun vol => (cutVolume vol).2 := by
    intro path
    rw [lookup_addVolumes, lookup_addVolumes, AList.lookup_empty, Option.or_none, mergedVolume, Option.map_or]
  simp only [workflowAction, List.mem_map]
  constructor
  · rintro ⟨⟨path, rest⟩, hentry, rfl⟩
    have h := AList.mem_lookup_iff.2 hentry
    rw [hlookup, Option.mem_def, Option.map_eq_some_iff] at h
    obtain ⟨vol, hvol, rfl⟩ := h
    obtain ⟨rfl, -⟩ := mergedVolume_eq_some hvol
    exact ⟨vol, hvol, rfl⟩
  · rintro ⟨vol, hvol, rfl⟩
    refine ⟨⟨hostPath vol, (cutVolume vol).2⟩, AList.mem_lookup_iff.1 ?_, rfl⟩
    rw [hlookup, hvol]
    rfl

/-- A stored volume has a colon, and is determined by its host path. -/
private theorem of_mem_volumes {task : Template.Task} {u : UUID} {ac : Template.Action} {v : String}
    (h : v ∈ (workflowAction task u ac).volumes) :
    ':' ∈ v.toList ∧ (mergedVolume task.volumes ac.volumes (hostPath v)).map joined = some v := by
  obtain ⟨vol, hvol, rfl⟩ := mem_volumes.1 h
  have hpath : hostPath (joined vol) = hostPath vol := by rw [hostPath, cutVolume_joined, hostPath]
  refine ⟨colon_mem_joined vol, ?_⟩
  rw [hpath, hvol, Option.map_some]

private theorem mountable_of_stored {task : Template.Task} {u : UUID} {ac : Template.Action} {vols : List String}
    (h : ∀ v ∈ vols, v ∈ (workflowAction task u ac).volumes) : Mountable vols := by
  refine ⟨fun v hv => (of_mem_volumes (h v hv)).1, ?_⟩
  intro v hv w hw hpath
  have hv' := (of_mem_volumes (h v hv)).2
  have hw' := (of_mem_volumes (h w hw)).2
  rw [hpath, hw'] at hv'
  exact (Option.some.inj hv').symm

/-- The requested volumes are stored exactly when the ones to be stored have a colon and different host paths. -/
private theorem volumesKept_iff (task : Template.Task) (u : UUID) (ac : Template.Action) :
    VolumesKept task.volumes ac.volumes (workflowAction task u ac).volumes ↔
      Mountable ac.volumes ∧ Mountable (inherited task.volumes ac.volumes) := by
  constructor
  · intro h
    have hinherited : ∀ v ∈ inherited task.volumes ac.volumes, v ∈ (workflowAction task u ac).volumes := by
      intro v hv
      obtain ⟨hmem, hfree⟩ := mem_inherited.1 hv
      exact h.task v hmem hfree
    exact ⟨mountable_of_stored h.action, mountable_of_stored hinherited⟩
  · rintro ⟨ha, ht⟩
    refine ⟨?_, ?_, ?_⟩
    · intro v hv
      obtain ⟨w, hw, hpath, hmerged⟩ := exists_mergedVolume_action task.volumes hv
      cases ha.distinct w hw v hv hpath
      exact mem_volumes.2 ⟨v, hmerged, (joined_of_colon (ha.colon v hv)).symm⟩
    · intro v hv hfree
      have hinh := mem_inherited.2 ⟨hv, hfree⟩
      obtain ⟨w, hw, hpath, hmerged⟩ := exists_mergedVolume_inherited hinh
      cases ht.distinct w hw v hinh hpath
      exact mem_volumes.2 ⟨v, hmerged, (joined_of_colon (ht.colon v hinh)).symm⟩
    · intro v hv
      obtain ⟨vol, hvol, rfl⟩ := mem_volumes.1 hv
      rcases (mergedVolume_eq_some hvol).2 with hmem | hmem
      · rw [joined_of_colon (ha.colon vol hmem)]
        exact Or.inl hmem
      · rw [joined_of_colon (ht.colon vol hmem)]
        exact Or.inr (mem_inherited.1 hmem)

/-! ### The action list -/

private theorem mem_cons_dropWhile {us : List UUID} {u w : UUID} : u ∈ w :: us.dropWhile (· = w) ↔ u ∈ w :: us := by
  induction us with
  | nil => rfl
  | cons a us ih =>
    by_cases ha : a = w
    · subst ha
      rw [List.dropWhile_cons_of_pos (by simp), ih]
      simp
    · rw [List.dropWhile_cons_of_neg (by simpa using ha)]

/-- The loop over the tasks: every task has a worker, its actions are stored for that worker in their order, and the
workers are registered from the first one on that differs from `unique`. -/
private theorem collectTasks_resolved {unique : UUID} {tasks : List Template.Task} {actions : List WorkflowAction}
    {workers : List UUID} (h : collectTasks reg unique tasks = .ok (actions, workers)) :
    ∃ us : List UUID, List.Forall₂ (fun task u => reg.Resolves task.workerAddr u) tasks us ∧
      actions = (tasks.zip us).flatMap (fun p => p.1.actions.map (workflowAction p.1 p.2)) ∧
      ∀ u, u ∈ workers ↔ u ∈ us.dropWhile (· = unique) := by
  induction tasks generalizing unique actions workers with
  | nil =>
    cases h
    exact ⟨[], .nil, rfl, by simp⟩
  | cons task tasks ih =>
    obtain ⟨u, actions', workers', hrest, rfl, rfl, hres⟩ := collectTasks_cons h
    obtain ⟨us, hus, rfl, hreg⟩ := ih hrest
    refine ⟨u :: us, .cons hres hus, rfl, ?_⟩
    intro w
    by_cases hu : unique = u
    · subst hu
      rw [List.dropWhile_cons_of_pos (by simp), if_neg (by simp)]
      exact hreg w
    · rw [List.dropWhile_cons_of_neg (by simpa using Ne.symm hu), if_pos hu, List.mem_cons, hreg, ← List.mem_cons,
        mem_cons_dropWhile]

private theorem forall₂_flatMap_map {tasks : List Template.Task} {us : List UUID}
    {P : Template.Task × Template.Action → WorkflowAction → Prop}
    (hP : ∀ task u ac, P (task, ac) (workflowAction task u ac)) (hlen : tasks.length = us.length) :
    List.Forall₂ P (tasks.flatMap fun task => task.actions.map (Prod.mk task))
      ((tasks.zip us).flatMap fun p => p.1.actions.map (workflowAction p.1 p.2)) := by
  induction tasks generalizing us with
  | nil => exact .nil
  | cons task tasks ih =>
    cases us with
    | nil => cases hlen
    | cons u us =>
      have hhead : List.Forall₂ P (task.actions.map (Prod.mk task)) (task.actions.map (workflowAction task u)) := by
        rw [List.forall₂_map_left_iff, List.forall₂_map_right_iff]
        exact List.forall₂_same.2 fun ac _ => hP task u ac
      exact List.rel_append hhead (ih (Nat.succ.inj hlen))

/-- The volumes of an action of a workflow are stored as requested exactly when those to be stored have a colon and
different host paths. -/
theorem volumes_kept_iff {yaml : String} (h : insertActionList r reg s yaml id = .ok s') :
    ∃ wf row, Template.parse r yaml = .ok wf ∧ s'.workflowState id = some row ∧
      List.Forall₂ (fun (entry : Template.Task × Template.Action) (stored : WorkflowAction) =>
        stored.taskName = entry.1.name ∧ stored.name = entry.2.name ∧
          (VolumesKept entry.1.volumes entry.2.volumes stored.volumes ↔
            Mountable entry.2.volumes ∧ Mountable (inherited entry.1.volumes entry.2.volumes)))
        (wf.tasks.flatMap fun task => task.actions.map (Prod.mk task)) row.actionList := by
  obtain ⟨wf, actions, workers, hparse, hcol, -, -, rfl⟩ := insertActionList_ok h
  obtain ⟨us, hus, rfl, -⟩ := collectTasks_resolved hcol
  refine ⟨wf, _, hparse, Function.update_self .., forall₂_flatMap_map ?_ hus.length_eq⟩
  intro task u ac
  exact ⟨rfl, rfl, volumesKept_iff task u ac⟩

/-- A template of one task with one action, with the given volumes. -/
def mountingTemplate (taskVols actionVols : List String) : Template.Workflow :=
  { Template.Workflow.ofNames [] with
    tasks := [{ name := "os", workerAddr := machine1, volumes := taskVols
                actions := [{ name := "stream", image := "image", volumes := actionVols }] }] }

def insertMounting (taskVols actionVols : List String) : Except String Store :=
  insertActionList (Template.Renderer.reading Unit (mountingTemplate taskVols actionVols))
    { getWorkerID := .ok, parse := uuidColumn } {} "" sampleID

/-- The volumes stored for each action of the sample workflow. -/
def storedVolumes (s : Store) : List (List String) :=
  ((s.workflowState sampleID).map fun row => row.actionList.map WorkflowAction.volumes).getD []

theorem volumes_kept_two :
    ∃ s', insertMounting ["/var:/a"] ["/dev:/b:ro"] = .ok s' ∧
      ∃ stored, storedVolumes s' = [stored] ∧ VolumesKept ["/var:/a"] ["/dev:/b:ro"] stored := by
  have hins : insertMounting ["/var:/a"] ["/dev:/b:ro"] = .ok _ := rfl
  obtain ⟨wf, row, hparse, hrow, hall⟩ := volumes_kept_iff hins
  cases hparse
  cases hrow
  rcases hall with _ | ⟨⟨-, -, hkept⟩, -⟩
  refine ⟨_, hins, _, rfl, hkept.2 ⟨⟨?_, ?_⟩, ⟨?_, ?_⟩⟩⟩
  · simp
  · simp
  · simp [mem_inherited]
  · intro v hv w hw hpath
    have hv := (mem_inherited.1 hv).1
    have hw := (mem_inherited.1 hw).1
    simp_all

/-- A volume without a colon is stored with one, and of two volumes with a host path the first one is lost. -/
theorem volumes_changed :
    (∃ s', insertMounting [] ["/dev"] = .ok s' ∧ storedVolumes s' = [["/dev:"]] ∧
      ¬ VolumesKept [] ["/dev"] ["/dev:"]) ∧
      ∃ s', insertMounting [] ["/dev:/a", "/dev:/b"] = .ok s' ∧ storedVolumes s' = [["/dev:/b"]] ∧
        ¬ VolumesKept [] ["/dev:/a", "/dev:/b"] ["/dev:/b"] := by
  refine ⟨⟨_, rfl, by decide +kernel, ?_⟩, ⟨_, rfl, by decide +kernel, ?_⟩⟩
  · intro h
    simpa using h.action "/dev" (by simp)
  · intro h
    simpa using h.action "/dev:/a" (by simp)

/-! ### The workers -/

/-- What is stored of a template: its actions in order for the workers of their tasks, and the workers, unless the
first ones have the id 0, which no row is inserted for. -/
theorem workers_registered_iff {env : CreateEnv} {template hardware : String}
    (h : createWorkflow r reg env s template hardware = .ok (s', id)) :
    ∃ text data wf us row, env.template = .ok text ∧ Template.renderTemplate r template text hardware = .ok data ∧
      Template.parse r data = .ok wf ∧ List.Forall₂ (fun task u => reg.Resolves task.workerAddr u) wf.tasks us ∧
      s'.workflowState id = some row ∧
      row.actionList = (wf.tasks.zip us).flatMap (fun p => p.1.actions.map (workflowAction p.1 p.2)) ∧
      row.totalNumberOfActions = row.actionList.length ∧
      ((∀ u, (id, u) ∈ s'.workflowWorkerMap ↔ u ∈ us) ↔
        (∀ u, (id, u) ∈ s.workflowWorkerMap → u ∈ us) ∧
          (UUID.zero ∈ us → (id, UUID.zero) ∈ s.workflowWorkerMap ∨ UUID.zero ∈ us.dropWhile (· = UUID.zero))) := by
  obtain ⟨-, text, data, s₁, htext, hrender, hins, rfl⟩ := createWorkflow_eq_ok h
  obtain ⟨wf, actions, workers, hparse, hcol, -, -, rfl⟩ := insertActionList_ok hins
  obtain ⟨us, hus, rfl, hreg⟩ := collectTasks_resolved hcol
  refine ⟨text, data, wf, us, _, htext, hrender, hparse, hus, Function.update_self .., rfl, rfl, ?_⟩
  have hmap : ∀ u, (id, u) ∈ workers.foldl (insertIntoWfWorkerTable id) s.workflowWorkerMap ↔
      (id, u) ∈ s.workflowWorkerMap ∨ u ∈ us.dropWhile (· = UUID.zero) := by
    intro u
    rw [mem_foldl_insertIntoWfWorkerTable, hreg]
    simp
  simp only [hmap]
  constructor
  · intro hall
    exact ⟨fun u hu => (hall u).1 (Or.inl hu), fun hz => (hall UUID.zero).2 hz⟩
  · rintro ⟨hold, hzero⟩ u
    constructor
    · rintro (hu | hu)
      · exact hold u hu
      · exact (List.dropWhile_suffix _).subset hu
    · intro hu
      -- an id other than 0 is not dropped
      by_cases hz : u = UUID.zero
      · subst hz
        exact hzero hu
      · have hcons := (mem_cons_dropWhile (w := UUID.zero)).2 (List.mem_cons_of_mem _ hu)
        exact Or.inr ((List.mem_cons.1 hcons).resolve_left hz)

/-- Three tasks for two workers in turn: both are registered. -/
theorem workers_registered_alternating :
    ∃ s' u v,
      createSample [("os", machine1, ["stream"]), ("boot", machine2, ["kexec"]), ("cleanup", machine1, ["wipe"])] =
        .ok (s', sampleID) ∧ uuidColumn machine1 = .ok u ∧ uuidColumn machine2 = .ok v ∧
      ∀ w, (sampleID, w) ∈ s'.workflowWorkerMap ↔ w = u ∨ w = v := by
  have hcreate : createSample [("os", machine1, ["stream"]), ("boot", machine2, ["kexec"]),
      ("cleanup", machine1, ["wipe"])] = .ok (_, sampleID) := rfl
  have hzero₁ : uuidColumn machine1 ≠ .ok UUID.zero := by decide +kernel
  have hzero₂ : uuidColumn machine2 ≠ .ok UUID.zero := by decide +kernel
  obtain ⟨text, data, wf, us, row, -, -, hparse, hus, -, -, -, hiff⟩ := workers_registered_iff hcreate
  cases hparse
  obtain ⟨u, us₁, ⟨_, hget, hu⟩, hus₁, rfl⟩ := List.forall₂_cons_left_iff.1 hus
  cases hget
  obtain ⟨v, us₂, ⟨_, hget, hv⟩, hus₂, rfl⟩ := List.forall₂_cons_left_iff.1 hus₁
  cases hget
  obtain ⟨u', us₃, ⟨_, hget, hu'⟩, hus₃, rfl⟩ := List.forall₂_cons_left_iff.1 hus₂
  cases hget
  cases List.forall₂_nil_left_iff.1 hus₃
  cases hu.symm.trans hu'
  have hmem := hiff.2 ⟨by simp, fun hz => ?_⟩
  · refine ⟨_, u, v, hcreate, hu, hv, fun w => (hmem w).trans ?_⟩
    simp [or_comm]
  · simp only [List.mem_cons, List.not_mem_nil, or_false] at hz
    rcases hz with rfl | rfl | rfl
    · exact absurd hu hzero₁
    · exact absurd hv hzero₂
    · exact absurd hu hzero₁

/-- The workers of a table of hardware, found by their MAC address. -/
def Registry.ofTable (t : List HardwareRow) : Registry where
  getWorkerID := Db.getWorkerID (fun _ => false) (getWorkerIDbyMac {} t) .error
  parse := uuidColumn

/-- `CreateWorkflow` for a worker with the id, with a template of one task and one action. -/
def createFor (id : String) : Except String (Store × UUID) :=
  createWorkflow { Template.Renderer.reading Unit (.ofNames [("os", "02:42:ac:12:00:01", ["stream"])]) with
      unmarshalDevices := fun _ => .ok () }
    (.ofTable (run (hardwareStep String.toLower) [] (pushOne id "02:42:ac:12:00:01"))) sampleEnv {}
      "template" "devices"

/-- The table of workers after `createFor`. -/
def workersFor (id : String) : Option (List (UUID × UUID)) :=
  (createFor id).toOption.map fun p => p.1.workflowWorkerMap

/-- The worker with the id 0 is not registered for its workflow. -/
theorem zero_worker_unregistered :
    let reg := Registry.ofTable (run (hardwareStep String.toLower) []
      (pushOne UUID.zero.toString "02:42:ac:12:00:01"))
    reg.Resolves "02:42:ac:12:00:01" UUID.zero ∧ workersFor UUID.zero.toString = some [] := by
  refine ⟨⟨UUID.zero.toString, by decide +kernel, by decide +kernel⟩, by decide +kernel⟩

end Tink.Db
