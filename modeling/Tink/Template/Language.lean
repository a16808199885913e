import Tink.Template
import Tink.Lib.Columns

/-!
# The language of the template validator

The messages of `workflow/template_validator.go` describe which templates there are: among others, a name "cannot have
more than 200 characters".  The check behind that message compares the number of bytes with 200, and rejects 200 of
them.  So `validate` accepts the templates that are described, except those with a name that has at least 200 bytes
(`validate_described_iff`).
-/

namespace Tink.Template

variable {H : Type} {r : Renderer H} {wf : Workflow}

/-- A name as the messages describe it. -/
def DescribedName (name : String) : Prop := name ≠ "" ∧ name.length ≤ 200

/-- A template as the messages of the validator describe it. -/
structure Described (r : Renderer H) (wf : Workflow) : Prop where
  version : wf.version = "0.1"
  tasks : wf.tasks ≠ []
  name : DescribedName wf.name
  taskName : ∀ t ∈ wf.tasks, DescribedName t.name
  actionName : ∀ t ∈ wf.tasks, ∀ a ∈ t.actions, DescribedName a.name
  taskNodup : (wf.tasks.map Task.name).Nodup
  actionNodup : ∀ t ∈ wf.tasks, (t.actions.map Action.name).Nodup
  actionImage : ∀ t ∈ wf.tasks, ∀ a ∈ t.actions, r.parseNormalizedNamed a.image = true

/-- The names in a template: its own, those of the tasks, those of the actions. -/
def Workflow.names (wf : Workflow) : List String :=
  wf.name :: wf.tasks.flatMap fun t => t.name :: t.actions.map Action.name

private theorem validName_iff (name : String) : ValidName name ↔ DescribedName name ∧ name.utf8ByteSize < 200 := by
  have hle : name.length ≤ name.utf8ByteSize := Pg.length_le_utf8ByteSize name
  constructor
  · intro h
    exact ⟨⟨h.1, by have := h.2; omega⟩, h.2⟩
  · intro h
    exact ⟨h.1.1, h.2⟩

private theorem forall_mem_names {p : String → Prop} :
    (∀ n ∈ wf.names, p n) ↔
      p wf.name ∧ (∀ t ∈ wf.tasks, p t.name) ∧ ∀ t ∈ wf.tasks, ∀ a ∈ t.actions, p a.name := by
  rw [Workflow.names, List.forall_mem_cons]
  refine and_congr_right fun _ => ?_
  constructor
  · intro h
    refine ⟨fun t ht => ?_, fun t ht a ha => ?_⟩
    · exact h _ (List.mem_flatMap.2 ⟨t, ht, List.mem_cons_self⟩)
    · exact h _ (List.mem_flatMap.2 ⟨t, ht, List.mem_cons_of_mem _ (List.mem_map_of_mem ha)⟩)
  · intro h n hn
    obtain ⟨t, ht, hn⟩ := List.mem_flatMap.1 hn
    rcases List.mem_cons.1 hn with rfl | hn
    · exact h.1 t ht
    · obtain ⟨a, ha, rfl⟩ := List.mem_map.1 hn
      exact h.2 t ht a ha

/-- The validator accepts the templates described all of whose names have fewer than 200 bytes. -/
private theorem accepted_iff : Accepted r wf ↔ Described r wf ∧ ∀ n ∈ wf.names, n.utf8ByteSize < 200 := by
  rw [forall_mem_names]
  constructor
  · intro h
    have hname := (validName_iff _).1 h.name
    have htask : ∀ t ∈ wf.tasks, _ := fun t ht => (validName_iff _).1 (h.taskName t ht)
    have haction : ∀ t ∈ wf.tasks, ∀ a ∈ t.actions, _ := fun t ht a ha => (validName_iff _).1 (h.actionName t ht a ha)
    refine ⟨⟨h.version, h.tasks, hname.1, fun t ht => (htask t ht).1, fun t ht a ha => (haction t ht a ha).1,
      h.taskNodup, h.actionNodup, h.actionImage⟩, hname.2, fun t ht => (htask t ht).2, fun t ht a ha =>
        (haction t ht a ha).2⟩
  · rintro ⟨h, hname, htask, haction⟩
    refine ⟨⟨fun t ht => ?_, h.taskNodup, fun t ht a ha => ?_, h.actionImage, h.actionNodup⟩, ?_, h.version, h.tasks⟩
    · exact (validName_iff _).2 ⟨h.taskName t ht, htask t ht⟩
    · exact (validName_iff _).2 ⟨h.actionName t ht a ha, haction t ht a ha⟩
    · exact (validName_iff _).2 ⟨h.name, hname⟩

/-- The validator is right about a template exactly if it is not one that is described and has a name of 200 bytes or
more. -/
theorem validate_described_iff {H : Type} (r : Renderer H) (wf : Workflow) :
    (validate r wf = .ok () ↔ Described r wf) ↔ (Described r wf → ∀ n ∈ wf.names, n.utf8ByteSize < 200) := by
  rw [validate_eq_ok, accepted_iff]
  exact and_iff_left_iff_imp

/-- A name of 200 letters, and one of 100 letters that take two bytes each. -/
theorem long_names_rejected :
    let tpl : String → Workflow := fun name =>
      { version := "0.1", name := name, tasks := [{ name := "os", workerAddr := "m1", actions := [] }] }
    let r : Renderer Unit := .reading Unit (tpl "")
    ∀ name ∈ [String.ofList (List.replicate 200 'a'), String.ofList (List.replicate 100 'é')],
      name.length ≤ 200 ∧ Described r (tpl name) ∧ validate r (tpl name) = .error (errInvalidLength name) := by
  intro tpl r name hname
  have hlen : name ≠ "" ∧ name.length ≤ 200 ∧ hasEmptyName name = false ∧ hasValidLength name = false := by
    rcases List.mem_cons.1 hname with rfl | hname
    · decide +kernel
    · obtain rfl := List.mem_singleton.1 hname
      decide +kernel
  obtain ⟨hne, hle, hempty, hlong⟩ := hlen
  refine ⟨hle, ⟨rfl, by simp [tpl], ⟨hne, hle⟩, ?_, ?_, ?_, ?_, ?_⟩, ?_⟩
  · intro t ht
    obtain rfl := List.mem_singleton.1 ht
    exact ⟨by decide, by decide⟩
  · intro t ht a ha
    obtain rfl := List.mem_singleton.1 ht
    cases ha
  · exact List.nodup_singleton _
  · intro t ht
    obtain rfl := List.mem_singleton.1 ht
    exact List.nodup_nil
  · intro t ht a ha
    rfl
  · simp [validate, tpl, hempty, hlong]

end Tink.Template
