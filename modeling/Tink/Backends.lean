import Tink.Db.Position
import Tink.Kube.Contexts

/-!
# The two backends and one template

Both backends flatten a template into the list of actions a worker reads: `insertActionList` (`db/workflow.go`) when
the workflow is created, `WorkflowYAMLToStatus` and `WorkflowActionListCRDToProto` (`pkg/convert/workflow.go`) over
the status of the resource.  The lists have the same actions in the same order.  An action and its task both have an
environment; each backend merges the two maps, the action overriding, and writes the result as a list of strings, in
an order of its own (`merged_entries`).
-/

namespace Tink

/-! ### Merging two maps -/

/-- The entries of `action` override those of `task`. -/
private theorem lookup_foldl_insert (task action : StringMap) (k : String) :
    (action.foldl (fun m key val => m.insert key val) task).lookup k = (action.lookup k).or (task.lookup k) := by
  obtain ⟨entries, hnd⟩ := action
  show (entries.foldl (fun (m : StringMap) e => m.insert e.1 e.2) task).lookup k =
    (entries.dlookup k).or (task.lookup k)
  induction entries generalizing task with
  | nil => simp
  | cons e es ih =>
    rw [List.nodupKeys_cons] at hnd
    rw [List.foldl_cons, ih _ hnd.2]
    by_cases hk : k = e.1
    · subst hk
      have hnone : es.dlookup e.1 = none := List.dlookup_eq_none.2 hnd.1
      rw [hnone, AList.lookup_insert, List.dlookup_cons_eq]
      rfl
    · rw [AList.lookup_insert_ne hk, List.dlookup_cons_ne _ e hk]

/-- One string `key=value` for every key of the two environments, the value that of the action if it has one. -/
def Merged (task action : StringMap) (env : List String) : Prop :=
  ∃ keys : List String, keys.Nodup ∧ (∀ k, k ∈ keys ↔ k ∈ task ∨ k ∈ action) ∧
    env.Perm (keys.map fun k => k ++ "=" ++ ((action.lookup k).or (task.lookup k)).getD "")

theorem merged_entries (task action : StringMap) :
    Merged task action
      ((action.foldl (fun m key val => m.insert key val) task).entries.map fun e => e.1 ++ "=" ++ e.2) := by
  have hlookup := lookup_foldl_insert task action
  generalize action.foldl (fun m key val => m.insert key val) task = merged at hlookup
  refine ⟨merged.keys, merged.keys_nodup, fun k => ?_, ?_⟩
  · show k ∈ merged ↔ _
    rw [← AList.lookup_isSome, ← AList.lookup_isSome, ← AList.lookup_isSome, hlookup, Option.isSome_or,
      Bool.or_eq_true, or_comm]
  · rw [show merged.keys = merged.entries.map Sigma.fst from rfl, List.map_map]
    refine List.Perm.of_eq (List.map_congr_left fun e he => ?_)
    have hvalue : merged.lookup e.1 = some e.2 := AList.mem_lookup_iff.2 he
    rw [Function.comp_apply, ← hlookup, hvalue]
    rfl

/-! ### One action -/

/-- The actions `a` of the database and `b` of the resource agree on what a worker runs, and both environments are
that of the action `ac` in its task. -/
structure SameAction (task : Template.Task) (ac : Template.Action) (a b : WorkflowAction) : Prop where
  taskName : a.taskName = b.taskName
  name : a.name = b.name
  image : a.image = b.image
  timeout : a.timeout = b.timeout
  command : a.command = b.command
  pid : a.pid = b.pid
  environment : ∀ t, t ∈ a.environment ↔ t ∈ b.environment
  merged : Merged task.environment ac.environment a.environment
  merged_kube : Merged task.environment ac.environment b.environment
  sorted : b.environment.Pairwise (· ≤ ·)

/-- The action of a task in the status of a resource, and in the list made of it. -/
private def kubeAction (task : Template.Task) (ac : Template.Action) : WorkflowAction where
  taskName := task.name
  name := ac.name
  image := ac.image
  timeout := ac.timeout
  command := ac.command
  workerId := task.workerAddr
  volumes := task.volumes ++ ac.volumes
  environment := Kube.mergedEnvironment task.environment ac.environment
  pid := ac.pid

private theorem sameAction (task : Template.Task) (ac : Template.Action) (u : Pg.UUID) :
    SameAction task ac (Db.workflowAction task u ac) (kubeAction task ac) := by
  have hperm : (kubeAction task ac).environment.Perm (Db.workflowAction task u ac).environment :=
    List.perm_insertionSort ..
  obtain ⟨keys, hnd, hkeys, hdb⟩ := merged_entries task.environment ac.environment
  refine ⟨rfl, rfl, rfl, rfl, rfl, rfl, fun t => hperm.mem_iff.symm, ⟨keys, hnd, hkeys, hdb⟩,
    ⟨keys, hnd, hkeys, hperm.trans hdb⟩, ?_⟩
  exact List.pairwise_insertionSort ..

/-! ### The lists -/

/-- The actions of a template in order, each with its task. -/
def Template.entriesOf (tasks : List Template.Task) : List (Template.Task × Template.Action) :=
  tasks.flatMap fun t => t.actions.map (Prod.mk t)

private theorem kube_list {wf : Kube.Workflow} {tpl : Template.Workflow}
    (h : wf.status = Kube.workflowYAMLToStatus tpl) :
    Kube.workflowActionListCRDToProto wf = (Template.entriesOf tpl.tasks).map fun e => kubeAction e.1 e.2 := by
  rw [Kube.workflowActionListCRDToProto, h]
  simp only [Kube.workflowYAMLToStatus, Template.entriesOf, List.flatMap_map, List.map_flatMap, List.map_map]
  rfl

private theorem db_list {reg : Db.Registry} {unique : Pg.UUID} {tasks : List Template.Task}
    {actions : List WorkflowAction} {workers : List Pg.UUID}
    (h : Db.collectTasks reg unique tasks = .ok (actions, workers)) :
    List.Forall₂ (fun e a => ∃ u, a = Db.workflowAction e.1 u e.2) (Template.entriesOf tasks) actions := by
  induction tasks generalizing unique actions workers with
  | nil =>
    cases h
    exact .nil
  | cons task tasks ih =>
    obtain ⟨u, actions', workers', hrest, rfl, -⟩ := Db.collectTasks_cons h
    refine List.rel_append ?_ (ih hrest)
    rw [List.forall₂_map_left_iff, List.forall₂_map_right_iff, List.forall₂_same]
    exact fun ac _ => ⟨u, rfl⟩

/-- The list inserted for a rendered template and the list of a resource initialised from it have an element for every
action of the template, and at every position the same action. -/
theorem backends_agree {H : Type} (r : Template.Renderer H) (reg : Db.Registry) (templateID templateData : String)
    (hardware : H) (tpl : Template.Workflow) (buf : String)
    (hrender : Template.renderTemplateHardware r templateID templateData hardware = .ok (tpl, buf))
    (s s' : Db.Store) (id : Pg.UUID) (hinsert : Db.insertActionList r reg s buf id = .ok s')
    (wf : Kube.Workflow) (hwf : wf.status = Kube.workflowYAMLToStatus tpl) :
    ∃ row, s'.workflowState id = some row ∧
      row.actionList.length = (Template.entriesOf tpl.tasks).length ∧
      (Kube.workflowActionListCRDToProto wf).length = (Template.entriesOf tpl.tasks).length ∧
      ∀ (i : Nat) task ac, (Template.entriesOf tpl.tasks)[i]? = some (task, ac) →
        ∃ a b, row.actionList[i]? = some a ∧ (Kube.workflowActionListCRDToProto wf)[i]? = some b ∧
          SameAction task ac a b := by
  obtain ⟨tpl', actions, workers, hparse', hcollect, -, -, rfl⟩ := Db.insertActionList_ok hinsert
  -- what was inserted is the template that was rendered
  have hparse := (Template.renderTemplateHardware_eq_ok hrender).1
  rw [hparse] at hparse'
  cases hparse'
  have hlist := db_list hcollect
  refine ⟨_, Function.update_self .., hlist.length_eq.symm, by rw [kube_list hwf, List.length_map], ?_⟩
  intro i task ac hi
  obtain ⟨hlt, hget⟩ := List.getElem?_eq_some_iff.1 hi
  have hlt' : i < actions.length := hlist.length_eq ▸ hlt
  obtain ⟨u, hu⟩ := hlist.get hlt hlt'
  have hu' : actions[i] = Db.workflowAction task u ac := by
    simp only [List.get_eq_getElem, hget] at hu
    exact hu
  refine ⟨_, kubeAction task ac, List.getElem?_eq_getElem hlt', ?_, ?_⟩
  · rw [kube_list hwf, List.getElem?_map, hi]
    rfl
  · rw [hu']
    exact sameAction task ac u

/-- Two tasks, in each of which an action overrides a variable of its task. -/
theorem backends_agree_overridden :
    let tpl : Template.Workflow := { version := "0.1", name := "provision", tasks :=
      [{ name := "os", workerAddr := "m1", environment := (∅ : StringMap).insert "DISK" "sda" |>.insert "MODE" "fast",
         actions := [{ name := "stream", image := "os", environment := (∅ : StringMap).insert "DISK" "sdb" },
           { name := "mount", image := "os" }] },
       { name := "boot", workerAddr := "m2", environment := (∅ : StringMap).insert "MODE" "safe",
         actions := [{ name := "kexec", image := "os", environment := (∅ : StringMap).insert "MODE" "fast" }] }] }
    let r := Template.Renderer.reading Unit tpl
    let reg : Db.Registry := { getWorkerID := .ok, parse := fun _ => .ok .zero }
    let wf := Kube.Workflow.ofStatus (Kube.workflowYAMLToStatus tpl)
    ∃ s', Db.insertActionList r reg {} "rendered" .zero = .ok s' ∧
      ∃ row, s'.workflowState .zero = some row ∧
        row.actionList.length = (Template.entriesOf tpl.tasks).length ∧
        (Kube.workflowActionListCRDToProto wf).length = (Template.entriesOf tpl.tasks).length ∧
        ∀ (i : Nat) task ac, (Template.entriesOf tpl.tasks)[i]? = some (task, ac) →
          ∃ a b, row.actionList[i]? = some a ∧ (Kube.workflowActionListCRDToProto wf)[i]? = some b ∧
            SameAction task ac a b := by
  intro tpl r reg wf
  have hinsert : ∃ s', Db.insertActionList r reg {} "rendered" .zero = .ok s' := ⟨_, rfl⟩
  obtain ⟨s', hinsert⟩ := hinsert
  exact ⟨s', hinsert, backends_agree r reg "id" "rendered" () tpl "rendered" rfl {} s' .zero hinsert wf rfl⟩

end Tink
