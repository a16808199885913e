import Tink.Db.Integrity
import Tink.Db.Templates

/-!
# What `GetWorkflow` shows

`CreateWorkflow` renders a template with the hardware it is given and stores the actions of the result; the workers
run these.  `GetWorkflow` (`server/dbserver_workflow.go`) renders again, each time it is called: the template as it is
in the table by then, deleted or not, with the hardware as the `JSONB` column gives it back.  A template that is
updated after a workflow was made of it changes what is shown of the workflow, but not what is run.

The tables are those of the templates and of the workflows together.  Next to them stand the tasks every action list
was built from (`builtFrom`), which no call reads; `Built` says what they are.
-/

namespace Tink.Db

open Pg Machine

/-- `template.WorkflowTemplate`, without the times. -/
structure WorkflowTemplate where
  id : String
  name : String
  data : String

/-- `TinkDB.GetTemplate` by id; with `deleted` also a template that is deleted. -/
def getTemplate (failure : Option String) (t : Templates) (id : String) (deleted : Bool) :
    Except String WorkflowTemplate :=
  if id = "" then .error "failed to get template: one GetBy field must be set to build a get condition"
  else
    match failure, uuidColumn id with
    | some e, _ => .error ("SELECT: " ++ e)
    | none, .error e => .error ("SELECT: " ++ e)
    | none, .ok u =>
      match t.lookup u with
      | none => .error "sql: no rows in result set"
      | some row =>
        if row.deleted = true ∧ deleted = false then .error "sql: no rows in result set"
        else .ok ⟨u.toString, row.name, row.data⟩

/-- The text in which a `UUID` column is read. -/
def uuidText (s : String) : String := ((UUID.ofString? s).map UUID.toString).getD s

/-- What `GetWorkflow` meets: the errors of its queries. -/
structure GetEnv where
  workflowErr : Option String := none
  templateErr : Option String := none
  stateErr : Option String := none

/-- `pb.Workflow` as `GetWorkflow` fills it, without the times. -/
structure ShownWorkflow extends WorkflowMessage where
  data : String

/-- `TinkDB.GetWorkflow`; `jsonb` gives the text in which a `JSONB` column is read. -/
def selectWorkflow (jsonb : String → String) (failure : Option String) (s : Store) (id : String) :
    Except String WorkflowRow :=
  match failure, uuidColumn id with
  | some e, _ => .error ("SELECT: " ++ e)
  | none, .error e => .error ("SELECT: " ++ e)
  | none, .ok u =>
    match s.workflow u with
    | none => .error ("Workflow with id " ++ id ++ " does not exist")
    | some row =>
      if row.deleted then .error ("Workflow with id " ++ id ++ " does not exist")
      else .ok { row with template := uuidText row.template, devices := jsonb row.devices }

section

variable {H : Type} (r : Template.Renderer H) (parseID : String → Option UUID) (jsonb : String → String)

/-- `DBServer.GetWorkflow`. -/
def getWorkflow (env : GetEnv) (t : Templates) (s : Store) (id : String) : Except String ShownWorkflow := do
  let w ← selectWorkflow jsonb env.workflowErr s id
  match getTemplate env.templateErr t w.template true with
  | .error e => .error ("failed to get template with ID " ++ w.template ++ ": " ++ e)
  | .ok wtmpl => do
    let data ← Template.renderTemplate r w.template wtmpl.data w.devices
    pure { id := id, template := w.template, hardware := w.devices, state := getWorkflowState env.stateErr s id,
           data := data }

/-- The tasks a template is rendered to. -/
def renderedTasks (templateData devices : String) : Option (List Template.Task) :=
  ((r.unmarshalDevices devices).bind (Template.renderTemplateHardware r "" templateData)).toOption.map
    fun (wf, _) => wf.tasks

/-- The tables of templates and workflows, and the tasks that the action list of a workflow was built from. -/
structure Catalog where
  templates : Templates := ∅
  store : Store := {}
  builtFrom : UUID → Option (List Template.Task) := fun _ => none

/-- A call; a new workflow has a new id, and its creation may meet errors of the queries. -/
inductive CatalogCall where
  | template (call : TemplateCall)
  | createWorkflow (reg : Registry) (id : UUID) (templateErr txErr : Option String) (template hardware : String)

/-- What `CreateWorkflow` gets from the table of templates. -/
def Catalog.createEnv (c : Catalog) (id : UUID) (templateErr txErr : Option String) (template : String) :
    CreateEnv where
  id := id
  template := (getTemplate templateErr c.templates template false).map WorkflowTemplate.data
  txErr := txErr

def Catalog.step (c : Catalog) : CatalogCall → Catalog
  | .template call => { c with templates := templateStep r parseID c.templates call }
  | .createWorkflow reg id templateErr txErr template hardware =>
    match getTemplate templateErr c.templates template false,
      createWorkflow r reg (c.createEnv id templateErr txErr template) c.store template hardware with
    | .ok wtmpl, .ok (s, id) =>
      { c with store := s, builtFrom := Function.update c.builtFrom id (renderedTasks r wtmpl.data hardware) }
    | _, _ => c

/-- Every live workflow has the action list that its tasks gave. -/
def Built (c : Catalog) : Prop :=
  ∀ id, c.store.Live id → ∃ tasks reg row workers, c.builtFrom id = some tasks ∧ c.store.workflowState id = some row ∧
    collectTasks reg UUID.zero tasks = .ok (row.actionList, workers)

/-- Whatever `GetWorkflow` returns, its data is parsed to the tasks that the action list was built from. -/
def Shows (c : Catalog) : Prop :=
  ∀ env text shown, getWorkflow r jsonb env c.templates c.store text = .ok shown →
    ∃ id wf, UUID.ofString? text = some id ∧ Template.parse r shown.data = .ok wf ∧ c.builtFrom id = some wf.tasks

/-- The call sets no data of a template that renders to other tasks than those of a live workflow of that template,
for the hardware of the workflow; and it creates no workflow for which the hardware that is read back does. -/
def KeepsTasks (c : Catalog) : CatalogCall → Prop
  | .template call => ∀ u text, SetsData r parseID c.templates call u text →
      ∀ id row, c.store.workflow id = some row → row.deleted = false → UUID.ofString? row.template = some u →
        ∀ tasks, renderedTasks r text (jsonb row.devices) = some tasks → c.builtFrom id = some tasks
  | .createWorkflow reg id templateErr txErr template hardware => ∀ wtmpl created,
      getTemplate templateErr c.templates template false = .ok wtmpl →
      createWorkflow r reg (c.createEnv id templateErr txErr template) c.store template hardware = .ok created →
        ∀ tasks, renderedTasks r wtmpl.data (jsonb hardware) = some tasks →
          renderedTasks r wtmpl.data hardware = some tasks

end

variable {H : Type} {r : Template.Renderer H} {parseID : String → Option UUID} {jsonb : String → String} {c : Catalog}
  {t : Templates} {s : Store} {u : UUID}

/-! ### Rendering -/

/-- The id of a template only shows in errors. -/
private theorem renderTemplateHardware_of_id {id data : String} {hw : H} {p : Template.Workflow × String}
    (id' : String) (h : Template.renderTemplateHardware r id data hw = .ok p) :
    Template.renderTemplateHardware r id' data hw = .ok p := by
  unfold Template.renderTemplateHardware at h ⊢
  cases hi : r.interpolate data hw with
  | error e => simp only [hi] at h; cases h
  | ok buf => simpa only [hi] using h

private theorem renderTemplate_eq_ok {id text devices data : String} :
    Template.renderTemplate r id text devices = .ok data ↔ ∃ hw wf, r.unmarshalDevices devices = .ok hw ∧
      Template.renderTemplateHardware r id text hw = .ok (wf, data) := by
  unfold Template.renderTemplate
  cases hdev : r.unmarshalDevices devices with
  | error e => simp
  | ok hw =>
    cases hr : Template.renderTemplateHardware r id text hw with
    | error e => simp [Except.map, hr]
    | ok p => simp [Except.map, hr, Prod.ext_iff]

private theorem renderedTasks_eq_some {text devices : String} {tasks : List Template.Task} :
    renderedTasks r text devices = some tasks ↔ ∃ hw wf buf, r.unmarshalDevices devices = .ok hw ∧
      Template.renderTemplateHardware r "" text hw = .ok (wf, buf) ∧ wf.tasks = tasks := by
  unfold renderedTasks
  cases hdev : r.unmarshalDevices devices with
  | error e => simp [Except.bind, Except.toOption]
  | ok hw =>
    cases hr : Template.renderTemplateHardware r "" text hw with
    | error e => simp [Except.bind, Except.toOption, hr]
    | ok p => simp [Except.bind, Except.toOption, hr, Prod.ext_iff]

/-- The data a template is rendered to is parsed to the tasks it is rendered to. -/
private theorem renderedTasks_of_renderTemplate {id text devices data : String}
    (h : Template.renderTemplate r id text devices = .ok data) :
    ∃ wf, Template.parse r data = .ok wf ∧ renderedTasks r text devices = some wf.tasks := by
  obtain ⟨hw, wf, hdev, hr⟩ := renderTemplate_eq_ok.1 h
  refine ⟨wf, (Template.renderTemplateHardware_eq_ok hr).1, ?_⟩
  exact renderedTasks_eq_some.2 ⟨hw, wf, data, hdev, renderTemplateHardware_of_id "" hr, rfl⟩

private theorem renderTemplate_of_renderedTasks {text devices : String} {tasks : List Template.Task} (id : String)
    (h : renderedTasks r text devices = some tasks) :
    ∃ data wf, Template.renderTemplate r id text devices = .ok data ∧ Template.parse r data = .ok wf ∧
      wf.tasks = tasks := by
  obtain ⟨hw, wf, data, hdev, hr, htasks⟩ := renderedTasks_eq_some.1 h
  have hr' := renderTemplateHardware_of_id id hr
  exact ⟨data, wf, renderTemplate_eq_ok.2 ⟨hw, wf, hdev, hr'⟩, (Template.renderTemplateHardware_eq_ok hr').1, htasks⟩

/-! ### Reading -/

private theorem getTemplate_eq_ok {failure : Option String} {id : String} {deleted : Bool}
    {wtmpl : WorkflowTemplate} :
    getTemplate failure t id deleted = .ok wtmpl ↔ failure = none ∧ ∃ u row, UUID.ofString? id = some u ∧
      t.lookup u = some row ∧ (row.deleted = true → deleted = true) ∧ wtmpl = ⟨u.toString, row.name, row.data⟩ := by
  have hempty : UUID.ofString? "" = none := by decide
  unfold getTemplate uuidColumn
  by_cases hid : id = ""
  · simp [hid, hempty]
  · rw [if_neg hid]
    cases failure with
    | some e => simp
    | none =>
      cases hu : UUID.ofString? id with
      | none => simp
      | some u =>
        cases hrow : t.lookup u with
        | none => simp [hrow]
        | some row =>
          constructor
          · intro h
            simp only [hrow] at h
            split at h
            · cases h
            · rename_i hdel
              cases h
              refine ⟨rfl, u, row, rfl, hrow, fun htrue => ?_, rfl⟩
              by_contra hfalse
              exact hdel ⟨htrue, Bool.eq_false_iff.2 hfalse⟩
          · rintro ⟨-, u', row', hu', hrow', hdel, rfl⟩
            cases hu'
            cases hrow.symm.trans hrow'
            simp only [hrow]
            rw [if_neg]
            rintro ⟨htrue, hfalse⟩
            rw [hdel htrue] at hfalse
            cases hfalse

private theorem uuidText_of_some {text : String} (h : UUID.ofString? text = some u) : uuidText text = u.toString := by
  simp [uuidText, h]

private theorem ofString?_uuidText (text : String) : UUID.ofString? (uuidText text) = UUID.ofString? text := by
  cases h : UUID.ofString? text with
  | none => simp [uuidText, h]
  | some u => rw [uuidText_of_some h, UUID.ofString?_toString]

private theorem selectWorkflow_eq_ok {failure : Option String} {text : String} {w : WorkflowRow} :
    selectWorkflow jsonb failure s text = .ok w ↔ failure = none ∧ ∃ id row, UUID.ofString? text = some id ∧
      s.workflow id = some row ∧ row.deleted = false ∧
      w = { row with template := uuidText row.template, devices := jsonb row.devices } := by
  unfold selectWorkflow uuidColumn
  cases failure with
  | some e => simp
  | none =>
    cases hid : UUID.ofString? text with
    | none => simp
    | some id =>
      cases hrow : s.workflow id with
      | none => simp [hrow]
      | some row =>
        constructor
        · intro h
          simp only [hrow] at h
          split at h
          · cases h
          · rename_i hlive
            cases h
            exact ⟨rfl, id, row, rfl, hrow, Bool.eq_false_iff.2 hlive, rfl⟩
        · rintro ⟨-, id', row', hid', hrow', hlive, rfl⟩
          cases hid'
          cases hrow.symm.trans hrow'
          simp only [hrow, hlive, Bool.false_eq_true, if_false]

/-- What `GetWorkflow` shows for a text. -/
private theorem getWorkflow_eq_ok {env : GetEnv} {text : String} {shown : ShownWorkflow}
    (h : getWorkflow r jsonb env t s text = .ok shown) :
    ∃ id row u data, UUID.ofString? text = some id ∧ s.workflow id = some row ∧ row.deleted = false ∧
      UUID.ofString? row.template = some u ∧ dataAt t u = some data ∧
      Template.renderTemplate r (uuidText row.template) data (jsonb row.devices) = .ok shown.data := by
  unfold getWorkflow at h
  obtain ⟨w, hw, h⟩ := except_bind_eq_ok.1 h
  obtain ⟨-, id, row, hid, hrow, hlive, rfl⟩ := selectWorkflow_eq_ok.1 hw
  split at h
  · cases h
  · rename_i wtmpl ht
    obtain ⟨-, u, trow, hu, htrow, -, rfl⟩ := getTemplate_eq_ok.1 ht
    obtain ⟨data, hdata, h⟩ := except_bind_eq_ok.1 h
    cases h
    rw [ofString?_uuidText] at hu
    exact ⟨id, row, u, trow.data, hid, hrow, hlive, hu, dataAt_eq_some.2 ⟨trow, htrow, rfl⟩, hdata⟩

/-- Without errors of the queries, `GetWorkflow` shows a live workflow whose template renders. -/
private theorem exists_getWorkflow {id : UUID} {row : WorkflowRow} {text data : String}
    (hrow : s.workflow id = some row)
    (hlive : row.deleted = false) (hu : UUID.ofString? row.template = some u) (hdata : dataAt t u = some text)
    (hr : Template.renderTemplate r (uuidText row.template) text (jsonb row.devices) = .ok data) :
    ∃ shown, getWorkflow r jsonb {} t s id.toString = .ok shown ∧ shown.data = data := by
  obtain ⟨trow, htrow, rfl⟩ := dataAt_eq_some.1 hdata
  have hw : selectWorkflow jsonb none s id.toString =
      .ok { row with template := uuidText row.template, devices := jsonb row.devices } :=
    selectWorkflow_eq_ok.2 ⟨rfl, id, row, UUID.ofString?_toString id, hrow, hlive, rfl⟩
  have ht : getTemplate none t (uuidText row.template) true = .ok ⟨u.toString, trow.name, trow.data⟩ := by
    refine getTemplate_eq_ok.2 ⟨rfl, u, trow, ?_, htrow, fun _ => rfl, rfl⟩
    rw [ofString?_uuidText]
    exact hu
  refine ⟨{ id := id.toString, template := uuidText row.template, hardware := jsonb row.devices,
            state := getWorkflowState none s id.toString, data := data }, ?_, rfl⟩
  unfold getWorkflow
  simp only [hw, bind, Except.bind, ht, hr, pure, Except.pure]

/-- What is shown, in terms of the tables. -/
private theorem shows_iff :
    Shows r jsonb c ↔ ∀ id row u text tasks, c.store.workflow id = some row → row.deleted = false →
    UUID.ofString? row.template = some u → dataAt c.templates u = some text →
    renderedTasks r text (jsonb row.devices) = some tasks → c.builtFrom id = some tasks := by
  constructor
  · intro h id row u text tasks hrow hlive hu hdata htasks
    obtain ⟨data, wf, hr, hparse, rfl⟩ := renderTemplate_of_renderedTasks (uuidText row.template) htasks
    obtain ⟨shown, hshown, rfl⟩ := exists_getWorkflow hrow hlive hu hdata hr
    obtain ⟨id', wf', hid', hparse', hbuilt⟩ := h {} _ shown hshown
    rw [UUID.ofString?_toString] at hid'
    cases hid'
    rw [hparse] at hparse'
    cases hparse'
    exact hbuilt
  · intro h env text shown hshown
    obtain ⟨id, row, u, data, hid, hrow, hlive, hu, hdata, hr⟩ := getWorkflow_eq_ok hshown
    obtain ⟨wf, hparse, htasks⟩ := renderedTasks_of_renderTemplate hr
    exact ⟨id, wf, hid, hparse, h id row u data wf.tasks hrow hlive hu hdata htasks⟩

/-! ### Calls -/

/-- If the hardware is read back as the map it was, a creation is always shown as it was built. -/
theorem keepsTasks_createWorkflow
    (hjsonb : ∀ devices, r.unmarshalDevices (jsonb devices) = r.unmarshalDevices devices)
    (reg : Registry) (id : UUID) (templateErr txErr : Option String) (template hardware : String) :
    KeepsTasks r parseID jsonb c (.createWorkflow reg id templateErr txErr template hardware) := by
  intro wtmpl created _ _ tasks htasks
  unfold renderedTasks at htasks ⊢
  rwa [hjsonb] at htasks

/-- What a creation that is applied leaves. -/
private theorem createWorkflow_built {reg : Registry} {id : UUID} {templateErr txErr : Option String}
    {template hardware : String} {wtmpl : WorkflowTemplate} {created : Store × UUID}
    (ht : getTemplate templateErr c.templates template false = .ok wtmpl)
    (h : createWorkflow r reg (c.createEnv id templateErr txErr template) c.store template hardware = .ok created) :
    ∃ tasks actions workers, renderedTasks r wtmpl.data hardware = some tasks ∧
      collectTasks reg UUID.zero tasks = .ok (actions, workers) ∧ created.2 = id ∧
      created.1.workflow = Function.update c.store.workflow id (some { template := template, devices := hardware }) ∧
      created.1.workflowState = Function.update c.store.workflowState id
        (some { actionList := actions, totalNumberOfActions := actions.length }) := by
  obtain ⟨s', id'⟩ := created
  obtain ⟨rfl, text, data, s₁, htext, hr, hins, rfl⟩ := createWorkflow_eq_ok h
  have htext' : text = wtmpl.data := by
    simp only [Catalog.createEnv, ht, Except.map] at htext
    exact (Except.ok.inj htext).symm
  obtain ⟨wf, actions, workers, hparse, hcol, -, -, rfl⟩ := insertActionList_ok hins
  obtain ⟨wf', hparse', htasks⟩ := renderedTasks_of_renderTemplate hr
  cases hparse.symm.trans hparse'
  rw [htext'] at htasks
  exact ⟨wf.tasks, actions, workers, htasks, hcol, rfl, rfl, rfl⟩

/-- A creation is applied, with the template it has got, or leaves everything as it is. -/
private theorem createWorkflow_cases (r : Template.Renderer H) (parseID : String → Option UUID) (c : Catalog)
    (reg : Registry) (id : UUID) (templateErr txErr : Option String)
    (template hardware : String) :
    (∃ wtmpl s, getTemplate templateErr c.templates template false = .ok wtmpl ∧
      createWorkflow r reg (c.createEnv id templateErr txErr template) c.store template hardware = .ok (s, id) ∧
      c.step r parseID (.createWorkflow reg id templateErr txErr template hardware) =
        { c with store := s, builtFrom := Function.update c.builtFrom id (renderedTasks r wtmpl.data hardware) }) ∨
    (c.step r parseID (.createWorkflow reg id templateErr txErr template hardware) = c ∧ ∀ wtmpl created,
      getTemplate templateErr c.templates template false = .ok wtmpl →
      createWorkflow r reg (c.createEnv id templateErr txErr template) c.store template hardware ≠ .ok created) := by
  cases ht : getTemplate templateErr c.templates template false with
  | error e => exact Or.inr ⟨by simp only [Catalog.step, ht], nofun⟩
  | ok wtmpl =>
    cases hcreate : createWorkflow r reg (c.createEnv id templateErr txErr template) c.store template hardware with
    | error e => exact Or.inr ⟨by simp only [Catalog.step, ht, hcreate], fun _ _ _ => nofun⟩
    | ok created =>
      obtain ⟨s, id'⟩ := created
      obtain ⟨rfl, -⟩ := createWorkflow_eq_ok hcreate
      exact Or.inl ⟨wtmpl, s, rfl, rfl, by simp only [Catalog.step, ht, hcreate]⟩

private theorem Built.step (h : Built c) (call : CatalogCall) : Built (c.step r parseID call) := by
  cases call with
  | template call => exact h
  | createWorkflow reg id templateErr txErr template hardware =>
    rcases createWorkflow_cases r parseID c reg id templateErr txErr template hardware with
      ⟨wtmpl, s, ht, hcreate, hstep⟩ | ⟨hstep, -⟩
    · rw [hstep]
      obtain ⟨tasks, actions, workers, htasks, hcol, -, hrows, hstates⟩ := createWorkflow_built ht hcreate
      intro id' hlive
      show ∃ tasks' reg row workers, Function.update c.builtFrom id _ id' = some tasks' ∧
        s.workflowState id' = some row ∧ _
      rw [hstates]
      by_cases hid : id' = id
      · rw [hid, Function.update_self, Function.update_self]
        exact ⟨tasks, reg, _, workers, htasks, rfl, hcol⟩
      · rw [Function.update_of_ne hid, Function.update_of_ne hid]
        refine h id' ?_
        have := (live_of_update hrows id').1 hlive
        rwa [if_neg hid] at this
    · rw [hstep]
      exact h

private theorem shows_template (h : Shows r jsonb c) (call : TemplateCall) :
    Shows r jsonb (c.step r parseID (.template call)) ↔ KeepsTasks r parseID jsonb c (.template call) := by
  rw [shows_iff]
  rw [shows_iff] at h
  rcases templateStep_cases r parseID c.templates call with ⟨hsame, hnone⟩ | ⟨v, data, hset, hsets⟩
  · refine iff_of_true ?_ fun u text hu => absurd hu (hnone u text)
    intro id row u text tasks hrow hlive hu hdata
    refine h id row u text tasks hrow hlive hu ?_
    rw [← hsame]
    exact hdata
  · constructor
    · intro hshows u text hu id row hrow hlive htemplate tasks htasks
      obtain ⟨rfl, rfl⟩ := (hsets u text).1 hu
      refine hshows id row v data tasks hrow hlive htemplate ?_ htasks
      show dataAt (templateStep r parseID c.templates call) v = _
      rw [hset, if_pos rfl]
    · intro hkeeps id row u text tasks hrow hlive htemplate hdata htasks
      have hdata' : dataAt (templateStep r parseID c.templates call) u = some text := hdata
      rw [hset] at hdata'
      split at hdata'
      · rename_i hu
        cases hdata'
        exact hkeeps u data ((hsets u data).2 ⟨hu.symm, rfl⟩) id row hrow hlive htemplate tasks htasks
      · exact h id row u text tasks hrow hlive htemplate hdata' htasks

private theorem shows_create (h : Shows r jsonb c) (reg : Registry) (id : UUID) (templateErr txErr : Option String)
    (template hardware : String) :
    Shows r jsonb (c.step r parseID (.createWorkflow reg id templateErr txErr template hardware)) ↔
      KeepsTasks r parseID jsonb c (.createWorkflow reg id templateErr txErr template hardware) := by
  rcases createWorkflow_cases r parseID c reg id templateErr txErr template hardware with
    ⟨wtmpl, s, ht, hcreate, hstep⟩ | ⟨hstep, hnone⟩
  · obtain ⟨-, -, -, -, -, -, hrows, -⟩ := createWorkflow_built ht hcreate
    obtain ⟨-, u, trow, hu, htrow, -, rfl⟩ := getTemplate_eq_ok.1 ht
    have hdata : dataAt c.templates u = some trow.data := dataAt_eq_some.2 ⟨trow, htrow, rfl⟩
    rw [hstep, shows_iff]
    rw [shows_iff] at h
    constructor
    · intro hshows wtmpl' created ht' hcreate' tasks htasks
      cases ht.symm.trans ht'
      have hrow : s.workflow id = some { template := template, devices := hardware } := by
        rw [hrows, Function.update_self]
      have hbuilt : Function.update c.builtFrom id (renderedTasks r trow.data hardware) id = some tasks :=
        hshows id _ u trow.data tasks hrow rfl hu hdata htasks
      rwa [Function.update_self] at hbuilt
    · intro hkeeps id' row u' text tasks hrow hlive hu' hdata' htasks
      have hrow' : s.workflow id' = some row := hrow
      show Function.update c.builtFrom id _ id' = some tasks
      rw [hrows] at hrow'
      by_cases hid : id' = id
      · rw [hid, Function.update_self] at hrow'
        cases hrow'
        cases hu.symm.trans hu'
        cases hdata.symm.trans hdata'
        rw [hid, Function.update_self]
        exact hkeeps _ (s, id) ht hcreate tasks htasks
      · rw [Function.update_of_ne hid] at hrow' ⊢
        exact h id' row u' text tasks hrow' hlive hu' hdata' htasks
  · rw [hstep]
    exact iff_of_true h fun wtmpl created ht hcreate => absurd hcreate (hnone wtmpl created ht)

/-- The action lists are always those of the tasks, and `GetWorkflow` shows the tasks of every live workflow at any
time if and only if no call that is applied sets the data of a template to one that renders to other tasks, for the
hardware of a live workflow of the template, nor creates a workflow whose hardware renders to other tasks once it is
read back. -/
theorem shown_as_built_iff {H : Type} (r : Template.Renderer H) (parseID : String → Option UUID)
    (jsonb : String → String) (calls : List CatalogCall) :
    Always (Catalog.step r parseID) Built {} calls ∧
      (Always (Catalog.step r parseID) (Shows r jsonb) {} calls ↔
        Every (Catalog.step r parseID) (KeepsTasks r parseID jsonb) {} calls) := by
  have hbuilt : Built {} := by
    rintro id ⟨row, hrow, -⟩
    cases hrow
  have hshows : Shows r jsonb {} := by
    rw [shows_iff]
    intro id row u text tasks hrow
    cases hrow
  have hstep : ∀ c call, Shows r jsonb c →
      (Shows r jsonb (c.step r parseID call) ↔ KeepsTasks r parseID jsonb c call) := by
    intro c call h
    cases call with
    | template call => exact shows_template h call
    | createWorkflow reg id templateErr txErr template hardware =>
      exact shows_create h reg id templateErr txErr template hardware
  refine ⟨fun p _ => run_inv hbuilt fun c call h => h.step call, ?_⟩
  exact always_iff_every hshows (fun _ h => h) (fun c call h => (hstep c call h).2) fun c call h => (hstep c call h).1

/-- A template is updated after a workflow was made of it: the worker runs the first text, and the second one is
shown. -/
theorem updated_template_shown :
    let stream : Template.Workflow := .ofNames [("os", machine1, ["stream"])]
    let kexec : Template.Workflow := .ofNames [("os", machine1, ["kexec"])]
    let r : Template.Renderer Unit := { Template.Renderer.reading Unit stream with
      unmarshalDevices := fun _ => .ok ()
      unmarshalStrict := fun text => .ok (if text = "stream" then stream else kexec) }
    let reg : Registry := { getWorkerID := .ok, parse := uuidColumn }
    let c := run (Catalog.step r UUID.ofString?) {}
      [.template (.create none "hello" "stream" .zero),
        .createWorkflow reg sampleID none none UUID.zero.toString "devices",
        .template (.update none "" "kexec" UUID.zero.toString)]
    (c.store.workflowState sampleID).map (fun row => row.actionList.map WorkflowAction.name) = some ["stream"] ∧
      (getWorkflow r (fun text => text) {} c.templates c.store sampleID.toString).toOption.map ShownWorkflow.data =
        some "kexec" ∧
      Template.parse r "kexec" = .ok kexec ∧ ¬ Shows r (fun text => text) c := by
  intro stream kexec r reg c
  have hlist : (c.store.workflowState sampleID).map (fun row => row.actionList.map WorkflowAction.name) =
      some ["stream"] := by decide +kernel
  have hshown : (getWorkflow r (fun text => text) {} c.templates c.store sampleID.toString).toOption.map
      ShownWorkflow.data = some "kexec" := by decide +kernel
  have hbuilt : (c.builtFrom sampleID).map
    (fun tasks => tasks.map fun task => task.actions.map Template.Action.name) =
      some [["stream"]] := by decide +kernel
  have hparse : Template.parse r "kexec" = .ok kexec := by rfl
  refine ⟨hlist, hshown, hparse, fun h => ?_⟩
  obtain ⟨shown, hok, hdata⟩ := Option.map_eq_some_iff.1 hshown
  cases hget : getWorkflow r (fun text => text) {} c.templates c.store sampleID.toString with
  | error e => rw [hget] at hok; cases hok
  | ok shown' =>
    rw [hget] at hok
    cases hok
    obtain ⟨id, wf, hid, hwf, hbuilt'⟩ := h {} _ shown hget
    rw [UUID.ofString?_toString] at hid
    cases hid
    rw [hdata, hparse] at hwf
    cases hwf
    rw [hbuilt'] at hbuilt
    exact absurd hbuilt (by decide)

end Tink.Db
