import Tink.Proto

/-!
# Templates: parsing, validation, rendering

The data of a template (`workflow/types.go`) and the checks it passes before a workflow is made of it
(`workflow/template_validator.go`).  The packages that interpolate the text, read the YAML and judge an image name
are outside the repository: they are the fields of a `Renderer`, and nothing is assumed of them.

The two nested loops of `validate` keep a set of the names seen on their level.  `validate_eq_ok` turns them into
conditions on the template as a whole, and `renderTemplateHardware_accepted` collects what every rendered template
satisfies.
-/

namespace Tink.Template

/-- `workflow.Action`, the basic executional unit for a workflow. -/
structure Action where
  name : String
  image : String
  timeout : Int := 0
  command : List String := []
  onTimeout : List String := []
  onFailure : List String := []
  volumes : List String := []
  environment : StringMap := ∅
  pid : String := ""

/-- `workflow.Task`. -/
structure Task where
  name : String
  workerAddr : String
  actions : List Action
  volumes : List String := []
  environment : StringMap := ∅

/-- `workflow.Workflow`. -/
structure Workflow where
  version : String
  name : String
  id : String := ""
  globalTimeout : Int := 0
  tasks : List Task

/-- The packages a template goes through: `text/template` with the template functions, the decoder of the hardware
document, the YAML decoder, the image reference parser, and the `%v` verb for the hardware map. -/
structure Renderer (H : Type) where
  interpolate : String → H → Except String String
  unmarshalDevices : String → Except String H
  unmarshalStrict : String → Except String Workflow
  parseNormalizedNamed : String → Bool
  showHardware : H → String

def errEmptyName : String := "name cannot be empty"
def errInvalidLength (name : String) : String := "name cannot have more than 200 characters: " ++ name
def errTemplateInvalidVersion (version : String) : String := "invalid template version: " ++ version
def errTaskDuplicateName (name : String) : String := "two tasks in a template cannot have same name: " ++ name
def errActionDuplicateName (name : String) : String := "two actions in a task cannot have same name: " ++ name
def errActionInvalidImage (image : String) : String := "invalid action image: " ++ image
def errTemplateParsing (id : String) : String := "failed to parse template with ID " ++ id
def errInvalidHardwareAddress (hardware : String) : String :=
  "failed to render template, invalid hardware address: " ++ hardware

def hasEmptyName (name : String) : Bool := name == ""

/-- Go's `len` counts bytes. -/
def hasValidLength (name : String) : Bool := decide (name.utf8ByteSize < 200)

section

variable {H : Type} (r : Renderer H)

def hasValidImageName (name : String) : Bool := r.parseNormalizedNamed name

/-- The inner loop of `validate`; `seen` are the keys of `actionNameMap`. -/
def validateActions (seen : List String) : List Action → Except String Unit
  | [] => .ok ()
  | action :: actions =>
    if hasEmptyName action.name then .error errEmptyName
    else if !hasValidLength action.name then .error (errInvalidLength action.name)
    else if !hasValidImageName r action.image then .error (errActionInvalidImage action.image)
    else if seen.contains action.name then .error (errActionDuplicateName action.name)
    else validateActions (action.name :: seen) actions

/-- The outer loop of `validate`; `seen` are the keys of `taskNameMap`. -/
def validateTasks (seen : List String) : List Task → Except String Unit
  | [] => .ok ()
  | task :: tasks =>
    if hasEmptyName task.name then .error errEmptyName
    else if !hasValidLength task.name then .error (errInvalidLength task.name)
    else if seen.contains task.name then .error (errTaskDuplicateName task.name)
    else do
      validateActions r [] task.actions
      validateTasks (task.name :: seen) tasks

def validate (wf : Workflow) : Except String Unit :=
  if hasEmptyName wf.name then .error errEmptyName
  else if !hasValidLength wf.name then .error (errInvalidLength wf.name)
  else if wf.version ≠ "0.1" then .error (errTemplateInvalidVersion wf.version)
  else if wf.tasks.length = 0 then .error "template must have at least one task defined"
  else validateTasks r [] wf.tasks

def parse (yamlContent : String) : Except String Workflow :=
  match r.unmarshalStrict yamlContent with
  | .error e => .error ("parsing yaml data: " ++ e)
  | .ok wf =>
    match validate r wf with
    | .error e => .error ("validating workflow template: " ++ e)
    | .ok () => .ok wf

def renderTemplateHardware (templateID templateData : String) (hardware : H) :
    Except String (Workflow × String) :=
  match r.interpolate templateData hardware with
  | .error e => .error (errTemplateParsing templateID ++ ": " ++ e)
  | .ok buf =>
    match parse r buf with
    | .error e => .error e
    | .ok wf =>
      if wf.tasks.any (fun task => task.workerAddr == "") then
        .error (errInvalidHardwareAddress (r.showHardware hardware))
      else .ok (wf, buf)

def renderTemplate (templateID templateData devices : String) : Except String String :=
  match r.unmarshalDevices devices with
  | .error e => .error (errTemplateParsing templateID ++ ": " ++ e)
  | .ok hardware => (renderTemplateHardware r templateID templateData hardware).map Prod.snd

end

/-! ### What validation guarantees -/

/-- A name that passes `hasEmptyName` and `hasValidLength`. -/
def ValidName (name : String) : Prop := name ≠ "" ∧ name.utf8ByteSize < 200

variable {H : Type} {r : Renderer H}

/-- The conditions `validate` puts on a task list. -/
structure ValidTasks (r : Renderer H) (tasks : List Task) : Prop where
  taskName : ∀ t ∈ tasks, ValidName t.name
  taskNodup : (tasks.map Task.name).Nodup
  actionName : ∀ t ∈ tasks, ∀ a ∈ t.actions, ValidName a.name
  actionImage : ∀ t ∈ tasks, ∀ a ∈ t.actions, hasValidImageName r a.image = true
  actionNodup : ∀ t ∈ tasks, (t.actions.map Action.name).Nodup

/-- The conditions `validate` puts on a template. -/
structure Accepted (r : Renderer H) (wf : Workflow) : Prop extends ValidTasks r wf.tasks where
  name : ValidName wf.name
  version : wf.version = "0.1"
  tasks : wf.tasks ≠ []

private theorem validateActions_eq_ok {seen : List String} {actions : List Action} :
    validateActions r seen actions = .ok () ↔
      (∀ a ∈ actions, ValidName a.name ∧ hasValidImageName r a.image = true ∧ a.name ∉ seen) ∧
        (actions.map Action.name).Nodup := by
  induction actions generalizing seen with
  | nil => simp [validateActions]
  | cons a as ih =>
    have hrest : validateActions r seen (a :: as) = .ok () ↔
        (ValidName a.name ∧ hasValidImageName r a.image = true ∧ a.name ∉ seen) ∧
          validateActions r (a.name :: seen) as = .ok () := by
      rw [validateActions]
      simp only [hasEmptyName, hasValidLength, ValidName, List.contains_iff_mem, beq_iff_eq, Bool.not_eq_true',
        decide_eq_false_iff_not]
      by_cases h1 : a.name = ""
      · simp [h1]
      by_cases h2 : a.name.utf8ByteSize < 200
      · by_cases h3 : hasValidImageName r a.image = true
        · by_cases h4 : a.name ∈ seen
          · simp [h1, h2, h3, h4]
          · simp [h1, h2, h3, h4]
        · simp [h1, h2, h3]
      · simp [h1, h2]
    rw [hrest, ih, List.map_cons, List.nodup_cons, List.forall_mem_cons]
    simp only [List.mem_cons, not_or, List.mem_map, not_exists, not_and]
    constructor
    · rintro ⟨ha, has, hnd⟩
      exact ⟨⟨ha, fun b hb => ⟨(has b hb).1, (has b hb).2.1, (has b hb).2.2.2⟩⟩,
        fun b hb => (has b hb).2.2.1, hnd⟩
    · rintro ⟨⟨ha, has⟩, hne, hnd⟩
      exact ⟨ha, fun b hb => ⟨(has b hb).1, (has b hb).2.1, hne b hb, (has b hb).2.2⟩, hnd⟩

private theorem validateTasks_eq_ok {seen : List String} {tasks : List Task} :
    validateTasks r seen tasks = .ok () ↔ ValidTasks r tasks ∧ ∀ t ∈ tasks, t.name ∉ seen := by
  induction tasks generalizing seen with
  | nil =>
    simp only [validateTasks, List.not_mem_nil, false_imp_iff, implies_true, and_true, true_iff]
    exact ⟨by simp, by simp, by simp, by simp, by simp⟩
  | cons t ts ih =>
    have hrest : validateTasks r seen (t :: ts) = .ok () ↔
        (ValidName t.name ∧ t.name ∉ seen) ∧ validateActions r [] t.actions = .ok () ∧
          validateTasks r (t.name :: seen) ts = .ok () := by
      rw [validateTasks]
      simp only [hasEmptyName, hasValidLength, ValidName, List.contains_iff_mem, beq_iff_eq, Bool.not_eq_true',
        decide_eq_false_iff_not]
      by_cases h1 : t.name = ""
      · simp [h1]
      by_cases h2 : t.name.utf8ByteSize < 200
      · by_cases h3 : t.name ∈ seen
        · simp [h1, h2, h3]
        · cases h : validateActions r [] t.actions <;> simp [h1, h2, h3, bind, Except.bind]
      · simp [h1, h2]
    rw [hrest, validateActions_eq_ok, ih]
    simp only [List.mem_cons, not_or]
    constructor
    · rintro ⟨⟨hn, hs⟩, ⟨ha, hnd⟩, hv, hts⟩
      refine ⟨⟨List.forall_mem_cons.2 ⟨hn, hv.taskName⟩, ?_,
        List.forall_mem_cons.2 ⟨fun a h => (ha a h).1, hv.actionName⟩,
        List.forall_mem_cons.2 ⟨fun a h => (ha a h).2.1, hv.actionImage⟩,
        List.forall_mem_cons.2 ⟨hnd, hv.actionNodup⟩⟩, ?_⟩
      · rw [List.map_cons, List.nodup_cons]
        refine ⟨fun hm => ?_, hv.taskNodup⟩
        obtain ⟨u, hu, he⟩ := List.mem_map.1 hm
        exact (hts u hu).1 he
      · rintro u (rfl | hu)
        · exact hs
        · exact (hts u hu).2
    · rintro ⟨hv, hs⟩
      have hnd := hv.taskNodup
      rw [List.map_cons, List.nodup_cons] at hnd
      obtain ⟨hn, hns⟩ := List.forall_mem_cons.1 hv.taskName
      obtain ⟨ha, has⟩ := List.forall_mem_cons.1 hv.actionName
      obtain ⟨hi, his⟩ := List.forall_mem_cons.1 hv.actionImage
      obtain ⟨hd, hds⟩ := List.forall_mem_cons.1 hv.actionNodup
      refine ⟨⟨hn, hs t (Or.inl rfl)⟩, ⟨fun a h => ⟨ha a h, hi a h, by simp⟩, hd⟩, ⟨hns, hnd.2, has, his, hds⟩, ?_⟩
      exact fun u hu => ⟨fun he => hnd.1 (List.mem_map.2 ⟨u, hu, he⟩), hs u (Or.inr hu)⟩

/-- `validate` accepts exactly the templates satisfying `Accepted`. -/
theorem validate_eq_ok {wf : Workflow} : validate r wf = .ok () ↔ Accepted r wf := by
  unfold validate
  simp only [hasEmptyName, hasValidLength, beq_iff_eq, Bool.not_eq_true', decide_eq_false_iff_not,
    List.length_eq_zero_iff]
  constructor
  · intro h
    by_cases h1 : wf.name = ""
    · simp [h1] at h
    by_cases h2 : wf.name.utf8ByteSize < 200
    · by_cases h3 : wf.version = "0.1"
      · by_cases h4 : wf.tasks = []
        · simp [h1, h2, h3, h4] at h
        · simp only [h1, h2, h3, h4, not_true_eq_false, ne_eq, if_false, validateTasks_eq_ok] at h
          exact { h.1 with name := ⟨h1, h2⟩, version := h3, tasks := h4 }
      · simp [h1, h2, h3] at h
    · simp [h1, h2] at h
  · intro h
    simp only [h.name.1, h.name.2, h.version, h.tasks, not_true_eq_false, ne_eq, if_false, validateTasks_eq_ok]
    exact ⟨h.toValidTasks, by simp⟩

/-- What the parser returns has passed the validator. -/
theorem parse_accepted {yaml : String} {wf : Workflow} (h : parse r yaml = .ok wf) : Accepted r wf := by
  unfold parse at h
  split at h
  · cases h
  · split at h
    · cases h
    · rename_i hv
      cases h
      exact validate_eq_ok.1 hv

theorem renderTemplateHardware_eq_ok {id data buf : String} {hw : H} {wf : Workflow}
    (h : renderTemplateHardware r id data hw = .ok (wf, buf)) :
    parse r buf = .ok wf ∧ ∀ t ∈ wf.tasks, t.workerAddr ≠ "" := by
  unfold renderTemplateHardware at h
  split at h
  · cases h
  · split at h
    · cases h
    · rename_i hp
      split at h
      · cases h
      · rename_i hany
        cases h
        refine ⟨hp, fun t ht he => hany ?_⟩
        exact List.any_eq_true.2 ⟨t, ht, by simp [he]⟩

/-- A rendered template has passed the validator, and every task has a worker. -/
theorem renderTemplateHardware_accepted {id data buf : String} {hw : H} {wf : Workflow}
    (h : renderTemplateHardware r id data hw = .ok (wf, buf)) :
    Accepted r wf ∧ ∀ t ∈ wf.tasks, t.workerAddr ≠ "" := by
  obtain ⟨hp, hw⟩ := renderTemplateHardware_eq_ok h
  exact ⟨parse_accepted hp, hw⟩

/-! ### Concrete templates -/

/-- A renderer that reads every text as the template `tpl`. -/
def Renderer.reading (H : Type) (tpl : Workflow) : Renderer H where
  interpolate text _ := .ok text
  unmarshalDevices _ := .error "no devices"
  unmarshalStrict _ := .ok tpl
  parseNormalizedNamed _ := true
  showHardware _ := "map[]"

/-- The template with the given tasks: name, worker and names of the actions. -/
def Workflow.ofNames (tasks : List (String × String × List String)) : Workflow where
  version := "0.1"
  name := "provision"
  globalTimeout := 600
  tasks := tasks.map fun (task, worker, actions) =>
    { name := task, workerAddr := worker,
      actions := actions.map fun name => { name := name, image := "os", timeout := 60 } }

end Tink.Template
