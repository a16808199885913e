import Mathlib.Data.List.AList
import Tink.Db.Store
import Tink.Lib.Outcome
import Tink.Lib.Run

/-!
# Templates in the database

`CreateTemplate`, `UpdateTemplate` and `DeleteTemplate` of `server/dbserver_template.go` over the table `template`
(`db/template.go`).  A template is parsed when it is created, but not when it is updated; an update sets the name, the
data, or both, and both if both are empty.  Names have at most 200 characters from a small alphabet, and are unique
among the live templates.

The server parses the id of an update with `uuid.MustParse`, which panics.  The parser is a parameter.
-/

namespace Tink.Db

open Pg Machine

/-- A row of `template`. -/
structure TemplateRow where
  name : String
  data : String
  deleted : Bool := false
deriving DecidableEq

/-- The table, by id. -/
abbrev Templates := AList fun _ : UUID => TemplateRow

/-- The constraint `CK_name`. -/
def isNameChar (c : Char) : Bool := c.isAlphanum || c == '_' || c == '-'

/-- The name column of the row `id`, which is live or not: the text, the characters, and the unique index. -/
def nameColumn (t : Templates) (id : UUID) (deleted : Bool) (name : String) : Except String String := do
  let name ← varcharColumn name
  if name.toList.all isNameChar = false then
    .error "pq: new row for relation \"template\" violates check constraint \"ck_name\""
  else if deleted = false ∧ t.entries.any (fun e => e.1 ≠ id ∧ e.2.deleted = false ∧ e.2.name = name) then
    .error "pq: duplicate key value violates unique constraint \"uidx_template_name\""
  else pure name

/-- An error with the statement it comes from, as `errors.Wrap` writes it. -/
def wrap {α : Type} (statement : String) : Except String α → Except String α
  | .ok a => .ok a
  | .error e => .error (statement ++ ": " ++ e)

section

variable {H : Type} (r : Template.Renderer H)

/-- `TinkDB.CreateTemplate`. -/
def createTemplate (failure : Option String) (t : Templates) (name data : String) (id : UUID) :
    Except String Templates := do
  let _ ← Template.parse r data
  match failure with
  | some e => .error e
  | none => do
    let name ← wrap "INSERT" (nameColumn t id false name)
    pure (t.insert id { name := name, data := data })

/-- The columns set by `UpdateTemplate`. -/
def updateColumns (t : Templates) (id : UUID) (row : TemplateRow) (name data : String) : Except String TemplateRow :=
  if data = "" ∧ name ≠ "" then do
    let name ← nameColumn t id row.deleted name
    pure { row with name := name }
  else if data ≠ "" ∧ name = "" then pure { row with data := data }
  else do
    let name ← nameColumn t id row.deleted name
    pure { row with name := name, data := data }

/-- `TinkDB.UpdateTemplate`; no row is updated if there is none. -/
def updateTemplate (failure : Option String) (t : Templates) (name data : String) (id : UUID) :
    Except String Templates :=
  match failure, t.lookup id with
  | some e, _ => .error e
  | none, none => .ok t
  | none, some row => do
    let row ← wrap "UPDATE" (updateColumns t id row name data)
    pure (t.insert id row)

/-- `TinkDB.DeleteTemplate`. -/
def deleteTemplate (failure : Option String) (t : Templates) (id : String) : Except String Templates :=
  match failure with
  | some e => .error e
  | none => do
    let u ← wrap "UPDATE" (uuidColumn id)
    match t.lookup u with
    | none => .error ("not found, id:" ++ id)
    | some row => pure (t.insert u { row with deleted := true })

/-- A call of the template service; a new template has a new id. -/
inductive TemplateCall where
  | create (failure : Option String) (name data : String) (id : UUID)
  | update (failure : Option String) (name data id : String)
  | delete (failure : Option String) (id : String)

/-- A database error passed on. -/
def passed {α : Type} : Except String α → Outcome String α
  | .ok a => .ok a
  | .error e => .error e

variable (parseID : String → Option UUID)

/-- What `DBServer` makes of a call. -/
def serveTemplate (t : Templates) : TemplateCall → Outcome String Templates
  | .create failure name data id => passed (createTemplate r failure t name data id)
  | .update failure name data id =>
    match parseID id with
    | none => .panic
    | some u => passed (updateTemplate failure t name data u)
  | .delete failure id => passed (deleteTemplate failure t id)

/-- The table after a call; one that fails leaves it as it is. -/
def templateStep (t : Templates) (call : TemplateCall) : Templates :=
  match serveTemplate r parseID t call with
  | .ok t' => t'
  | _ => t

end

/-! ### Valid templates -/

variable {H : Type} {r : Template.Renderer H} {parseID : String → Option UUID} {t t' : Templates} {id : UUID}
  {row : TemplateRow}

/-- `workflow.Parse` accepts the text. -/
def Parses (r : Template.Renderer H) (data : String) : Prop := ∃ wf, Template.parse r data = .ok wf

/-- The data of every live template is accepted. -/
def ValidTemplates (r : Template.Renderer H) (t : Templates) : Prop :=
  ∀ id row, t.lookup id = some row → row.deleted = false → Parses r row.data

/-- A row more keeps the templates valid exactly if it is valid itself. -/
private theorem validTemplates_insert (h : ValidTemplates r t) :
    ValidTemplates r (t.insert id row) ↔ (row.deleted = false → Parses r row.data) := by
  constructor
  · intro hv
    exact hv id row (AList.lookup_insert t)
  · intro hrow id' row' hlookup
    by_cases hid : id' = id
    · subst hid
      rw [AList.lookup_insert, Option.some.injEq] at hlookup
      rw [← hlookup]
      exact hrow
    · rw [AList.lookup_insert_ne hid] at hlookup
      exact h id' row' hlookup

/-- An update that the database applies to a live template and that sets the data has data that is accepted. -/
def ParsesUpdate (r : Template.Renderer H) (parseID : String → Option UUID) (t : Templates) : TemplateCall → Prop
  | .update failure name data id => failure = none → ∀ u, parseID id = some u → ∀ row, t.lookup u = some row →
      row.deleted = false → (data ≠ "" ∨ name = "") →
      (name = "" ∧ data ≠ "" ∨ ∃ name', nameColumn t u false name = .ok name') → Parses r data
  | _ => True

private theorem validTemplates_create (h : ValidTemplates r t) {failure : Option String} {name data : String}
    (hok : createTemplate r failure t name data id = .ok t') : ValidTemplates r t' := by
  unfold createTemplate at hok
  obtain ⟨wf, hparse, hok⟩ := except_bind_eq_ok.1 hok
  cases failure with
  | some e => cases hok
  | none =>
    obtain ⟨name', -, hok⟩ := except_bind_eq_ok.1 hok
    cases hok
    exact (validTemplates_insert h).2 fun _ => ⟨wf, hparse⟩

private theorem validTemplates_delete (h : ValidTemplates r t) {failure : Option String} {id : String}
    (hok : deleteTemplate failure t id = .ok t') : ValidTemplates r t' := by
  unfold deleteTemplate at hok
  cases failure with
  | some e => cases hok
  | none =>
    obtain ⟨u, -, hok⟩ := except_bind_eq_ok.1 hok
    cases hrow : t.lookup u with
    | none => simp [hrow] at hok
    | some row =>
      simp only [hrow] at hok
      cases hok
      exact (validTemplates_insert h).2 fun hlive => by cases hlive

/-- What an update does to a row. -/
private theorem updateColumns_cases (t : Templates) (u : UUID) (row : TemplateRow) (name data : String) :
    -- the data is not set
    ((data = "" ∧ name ≠ "") ∧ ∀ row', updateColumns t u row name data = .ok row' → row'.data = row.data) ∨
    -- the data is set
    ((data ≠ "" ∨ name = "") ∧ (name = "" ∧ data ≠ "" ∨ ∃ name', nameColumn t u row.deleted name = .ok name') ∧
      ∃ row', updateColumns t u row name data = .ok row' ∧ row'.data = data ∧ row'.deleted = row.deleted) ∨
    -- the name is rejected
    (¬ (name = "" ∧ data ≠ "" ∨ ∃ name', nameColumn t u row.deleted name = .ok name') ∧
      ∃ e, updateColumns t u row name data = .error e) := by
  unfold updateColumns
  by_cases hname : data = "" ∧ name ≠ ""
  · left
    refine ⟨hname, fun row' h => ?_⟩
    rw [if_pos hname] at h
    obtain ⟨name', -, h⟩ := except_bind_eq_ok.1 h
    cases h
    rfl
  · right
    rw [if_neg hname]
    have hsets : data ≠ "" ∨ name = "" := by
      by_cases hd : data = ""
      · exact .inr (by_contra fun hn => hname ⟨hd, hn⟩)
      · exact .inl hd
    by_cases hdata : data ≠ "" ∧ name = ""
    · left
      rw [if_pos hdata]
      exact ⟨hsets, .inl hdata.symm, _, rfl, rfl, rfl⟩
    · rw [if_neg hdata]
      cases hcol : nameColumn t u row.deleted name with
      | ok name' => exact .inl ⟨hsets, .inr ⟨name', rfl⟩, _, rfl, rfl, rfl⟩
      | error e =>
        right
        refine ⟨?_, e, rfl⟩
        rintro (h | ⟨name', h⟩)
        · exact hdata h.symm
        · cases h

/-- An update of a live template keeps the templates valid exactly if it does not set data that is not accepted. -/
private theorem validTemplates_update (h : ValidTemplates r t) {u : UUID} (hrow : t.lookup u = some row)
    (hlive : row.deleted = false) (name data : String) :
    ValidTemplates r ((updateTemplate none t name data u).toOption.getD t) ↔
      ((data ≠ "" ∨ name = "") → (name = "" ∧ data ≠ "" ∨ ∃ name', nameColumn t u false name = .ok name') →
        Parses r data) := by
  unfold updateTemplate
  simp only [hrow]
  have hcases := updateColumns_cases t u row name data
  rw [hlive] at hcases
  rcases hcases with ⟨hname, hsame⟩ | ⟨hsets, hfits, row', hcols, hdata, hlive'⟩ | ⟨hrejected, e, hcols⟩
  · refine iff_of_true ?_ fun hsets => ?_
    · cases hcols : updateColumns t u row name data with
      | error e => exact h
      | ok row' =>
        refine (validTemplates_insert h).2 fun _ => ?_
        rw [hsame row' hcols]
        exact h u row hrow hlive
    · rcases hsets with hd | hn
      · exact absurd hname.1 hd
      · exact absurd hn hname.2
  · simp only [hcols, wrap]
    refine (validTemplates_insert h).trans ?_
    rw [hdata]
    exact ⟨fun hp _ _ => hp hlive', fun hp _ => hp hsets hfits⟩
  · simp only [hcols, wrap]
    exact iff_of_true h fun _ hfits => absurd hfits hrejected

private theorem updateColumns_deleted {u : UUID} {name data : String} {row' : TemplateRow}
    (h : updateColumns t u row name data = .ok row') : row'.deleted = row.deleted := by
  unfold updateColumns at h
  split at h
  · obtain ⟨name', -, h⟩ := except_bind_eq_ok.1 h
    cases h
    rfl
  · split at h
    · cases h
      rfl
    · obtain ⟨name', -, h⟩ := except_bind_eq_ok.1 h
      cases h
      rfl

/-- An update of a template that is not live does no harm. -/
private theorem validTemplates_update_of_not_live (h : ValidTemplates r t) {u : UUID} (name data : String)
    (hlive : ∀ row, t.lookup u = some row → row.deleted = true) :
    ValidTemplates r ((updateTemplate none t name data u).toOption.getD t) := by
  unfold updateTemplate
  cases hrow : t.lookup u with
  | none => exact h
  | some row =>
    cases hcols : updateColumns t u row name data with
    | error e =>
      simp only [hcols, wrap]
      exact h
    | ok row' =>
      simp only [hcols, wrap]
      refine (validTemplates_insert h).2 fun hlive' => ?_
      rw [updateColumns_deleted hcols, hlive row hrow] at hlive'
      cases hlive'

private theorem applied_passed (x : Except String Templates) :
    (match passed x with | .ok t' => t' | _ => t) = x.toOption.getD t := by
  cases x <;> rfl

/-- A call keeps the templates valid exactly if it is not an update that sets data that is not accepted. -/
private theorem validTemplates_step (h : ValidTemplates r t) (call : TemplateCall) :
    ValidTemplates r (templateStep r parseID t call) ↔ ParsesUpdate r parseID t call := by
  cases call with
  | create failure name data id =>
    refine iff_of_true ?_ trivial
    rw [templateStep, serveTemplate, applied_passed]
    cases hok : createTemplate r failure t name data id with
    | error e => exact h
    | ok t' => exact validTemplates_create h hok
  | delete failure id =>
    refine iff_of_true ?_ trivial
    rw [templateStep, serveTemplate, applied_passed]
    cases hok : deleteTemplate failure t id with
    | error e => exact h
    | ok t' => exact validTemplates_delete h hok
  | update failure name data id =>
    rw [templateStep, serveTemplate, ParsesUpdate]
    cases hid : parseID id with
    | none => exact iff_of_true h fun _ u hu => by cases hu
    | some u =>
      cases failure with
      | some e => exact iff_of_true h fun hnone => by cases hnone
      | none =>
        simp only [applied_passed, true_imp_iff, Option.some.injEq, forall_eq']
        by_cases hlive : ∀ row, t.lookup u = some row → row.deleted = true
        · refine iff_of_true (validTemplates_update_of_not_live h name data hlive) fun row hrow hfalse => ?_
          rw [hlive row hrow] at hfalse
          cases hfalse
        · simp only [not_forall, Bool.not_eq_true] at hlive
          obtain ⟨row, hrow, hfalse⟩ := hlive
          rw [validTemplates_update h hrow hfalse]
          constructor
          · intro hp row' _ _
            exact hp
          · intro hp
            exact hp row hrow hfalse

/-- Along any sequence of calls from an empty table, the data of every live template is accepted at any time, exactly
if no update that the database applies to a live template sets data that is not accepted. -/
theorem templates_valid_iff {H : Type} (r : Template.Renderer H) (parseID : String → Option UUID)
    (calls : List TemplateCall) :
    Always (templateStep r parseID) (ValidTemplates r) ∅ calls ↔
      Every (templateStep r parseID) (ParsesUpdate r parseID) ∅ calls := by
  have h0 : ValidTemplates r ∅ := by
    intro id row hrow
    cases hrow
  exact always_iff_every h0 (fun _ h => h) (fun t call h => (validTemplates_step h call).2)
    fun t call h => (validTemplates_step h call).1

/-- A template that is created with data the parser accepts, and then updated: with data it does not accept, or with
neither a name nor data. -/
theorem updated_template_invalid :
    let tpl : Template.Workflow := .ofNames [("os", "m1", ["stream"])]
    let r : Template.Renderer Unit := { Template.Renderer.reading Unit tpl with
      unmarshalStrict := fun text => if text = "template" then .ok tpl else .error "yaml: unmarshal errors" }
    let create : TemplateCall := .create none "hello" "template" .zero
    let updated := fun data : String =>
      (run (templateStep r UUID.ofString?) ∅ [create, .update none "" data UUID.zero.toString]).lookup .zero
    updated "hello" = some { name := "hello", data := "hello" } ∧ ¬ Parses r "hello" ∧
      updated "" = some { name := "", data := "" } ∧ ¬ Parses r "" := by
  intro tpl r create updated
  have hparse : ∀ data, data ≠ "template" → ¬ Parses r data := by
    rintro data hne ⟨wf, hwf⟩
    simp [Template.parse, r, hne] at hwf
  exact ⟨by decide +kernel, hparse _ (by decide), by decide +kernel, hparse _ (by decide)⟩

/-! ### The data of a template -/

/-- The data of a template, deleted or not. -/
def dataAt (t : Templates) (u : UUID) : Option String := (t.lookup u).map TemplateRow.data

theorem dataAt_eq_some {u : UUID} {text : String} :
    dataAt t u = some text ↔ ∃ row, t.lookup u = some row ∧ row.data = text :=
  Option.map_eq_some_iff

/-- The call is applied, and sets the data of template `u` to `text`. -/
def SetsData (r : Template.Renderer H) (parseID : String → Option UUID) (t : Templates) :
    TemplateCall → UUID → String → Prop
  | .create failure name data id, u, text =>
    failure = none ∧ id = u ∧ data = text ∧ Parses r data ∧ ∃ name', nameColumn t u false name = .ok name'
  | .update failure name data id, u, text =>
    failure = none ∧ parseID id = some u ∧ data = text ∧ (data ≠ "" ∨ name = "") ∧ ∃ row, t.lookup u = some row ∧
      (name = "" ∧ data ≠ "" ∨ ∃ name', nameColumn t u row.deleted name = .ok name')
  | .delete _ _, _, _ => False

private theorem dataAt_insert (u : UUID) :
    dataAt (t.insert id row) u = if u = id then some row.data else dataAt t u := by
  unfold dataAt
  by_cases hu : u = id
  · rw [if_pos hu, hu, AList.lookup_insert]
    rfl
  · rw [if_neg hu, AList.lookup_insert_ne hu]

/-- A row with the data it had changes no data. -/
private theorem dataAt_insert_same (row' : TemplateRow) (hrow : t.lookup id = some row) (hdata : row'.data = row.data)
    (u : UUID) :
    dataAt (t.insert id row') u = dataAt t u := by
  rw [dataAt_insert]
  split
  · rename_i hu
    rw [hu, hdata]
    exact (dataAt_eq_some.2 ⟨row, hrow, rfl⟩).symm
  · rfl

private theorem dataAt_create (failure : Option String) (name data : String) (id : UUID) :
    let t' := (createTemplate r failure t name data id).toOption.getD t
    ((∀ u, dataAt t' u = dataAt t u) ∧ ∀ u text, ¬ SetsData r parseID t (.create failure name data id) u text) ∨
      (∀ u, dataAt t' u = if u = id then some data else dataAt t u) ∧
        ∀ u text, SetsData r parseID t (.create failure name data id) u text ↔ id = u ∧ data = text := by
  unfold createTemplate
  cases hparse : Template.parse r data with
  | error e =>
    refine Or.inl ⟨fun u => rfl, ?_⟩
    rintro u text ⟨-, -, -, ⟨wf, hwf⟩, -⟩
    cases hparse.symm.trans hwf
  | ok wf =>
    cases failure with
    | some e => exact Or.inl ⟨fun u => rfl, fun u text h => nomatch h.1⟩
    | none =>
      cases hname : nameColumn t id false name with
      | error e =>
        refine Or.inl ⟨fun u => ?_, ?_⟩
        · rfl
        · rintro u text ⟨-, rfl, -, -, name', hname'⟩
          cases hname.symm.trans hname'
      | ok name' =>
        refine Or.inr ⟨fun u => ?_, fun u text => ⟨fun h => ⟨h.2.1, h.2.2.1⟩, ?_⟩⟩
        · exact dataAt_insert u
        · rintro ⟨rfl, rfl⟩
          exact ⟨rfl, rfl, rfl, ⟨wf, hparse⟩, name', hname⟩

private theorem dataAt_update {idText : String} {v : UUID} (hid : parseID idText = some v) (failure : Option String)
    (name data : String) :
    let t' := (updateTemplate failure t name data v).toOption.getD t
    ((∀ u, dataAt t' u = dataAt t u) ∧ ∀ u text, ¬ SetsData r parseID t (.update failure name data idText) u text) ∨
      (∀ u, dataAt t' u = if u = v then some data else dataAt t u) ∧
        ∀ u text, SetsData r parseID t (.update failure name data idText) u text ↔ v = u ∧ data = text := by
  unfold updateTemplate
  cases failure with
  | some e => exact Or.inl ⟨fun u => rfl, fun u text h => nomatch h.1⟩
  | none =>
    cases hrow : t.lookup v with
    | none =>
      refine Or.inl ⟨fun u => rfl, ?_⟩
      rintro u text ⟨-, hu, -, -, row, hrow', -⟩
      cases hid.symm.trans hu
      cases hrow.symm.trans hrow'
    | some row =>
      rcases updateColumns_cases t v row name data with
        ⟨⟨hd, hn⟩, hsame⟩ | ⟨hsets, hfits, row', hcols, hdata, -⟩ | ⟨hrejected, e, hcols⟩
      · refine Or.inl ⟨fun u => ?_, fun u text h => ?_⟩
        · cases hcols : updateColumns t v row name data with
          | error e => simp only [hcols, wrap]; rfl
          | ok row' =>
            simp only [hcols, wrap]
            exact dataAt_insert_same row' hrow (hsame row' hcols) u
        · obtain ⟨-, -, -, hsets, -⟩ := h
          exact hsets.elim (fun h => h hd) hn
      · refine Or.inr ⟨fun u => ?_, fun u text => ⟨fun h => ⟨?_, h.2.2.1⟩, ?_⟩⟩
        · simp only [hcols, wrap]
          rw [← hdata]
          exact dataAt_insert u
        · exact Option.some.inj (hid.symm.trans h.2.1)
        · rintro ⟨rfl, rfl⟩
          exact ⟨rfl, hid, rfl, hsets, row, hrow, hfits⟩
      · refine Or.inl ⟨fun u => ?_, ?_⟩
        · simp only [hcols, wrap]
          rfl
        · rintro u text ⟨-, hu, -, -, row', hrow', hfits⟩
          cases hid.symm.trans hu
          cases hrow.symm.trans hrow'
          exact hrejected hfits

private theorem dataAt_delete (failure : Option String) (idText : String) (u : UUID) :
    dataAt ((deleteTemplate failure t idText).toOption.getD t) u = dataAt t u := by
  unfold deleteTemplate
  cases failure with
  | some e => rfl
  | none =>
    cases hcol : uuidColumn idText with
    | error e => rfl
    | ok v =>
      cases hrow : t.lookup v with
      | none =>
        simp only [bind, Except.bind, wrap, hrow]
        rfl
      | some row =>
        simp only [bind, Except.bind, wrap, hrow]
        exact dataAt_insert_same { row with deleted := true } hrow rfl u

/-- A call sets the data of no template, or of one. -/
theorem templateStep_cases (r : Template.Renderer H) (parseID : String → Option UUID) (t : Templates)
    (call : TemplateCall) :
    ((∀ u, dataAt (templateStep r parseID t call) u = dataAt t u) ∧ ∀ u text, ¬ SetsData r parseID t call u text) ∨
      ∃ v data, (∀ u, dataAt (templateStep r parseID t call) u = if u = v then some data else dataAt t u) ∧
        ∀ u text, SetsData r parseID t call u text ↔ v = u ∧ data = text := by
  cases call with
  | create failure name data id =>
    simp only [templateStep, serveTemplate, applied_passed]
    exact (dataAt_create failure name data id).imp_right fun h => ⟨id, data, h⟩
  | delete failure id =>
    simp only [templateStep, serveTemplate, applied_passed]
    exact Or.inl ⟨fun u => dataAt_delete failure id u, fun u text h => h⟩
  | update failure name data id =>
    cases hid : parseID id with
    | none =>
      simp only [templateStep, serveTemplate, hid]
      refine Or.inl ⟨fun u => trivial, ?_⟩
      rintro u text ⟨-, hu, -⟩
      cases hid.symm.trans hu
    | some v =>
      simp only [templateStep, serveTemplate, hid, applied_passed]
      exact (dataAt_update hid failure name data).imp_right fun h => ⟨v, data, h⟩

end Tink.Db
