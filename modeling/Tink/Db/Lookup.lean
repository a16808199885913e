import Tink.Db.Hardware
import Tink.Lib.Mac

/-!
# Finding hardware by an address

`ByMAC` (`server/dbserver_hardware.go`) looks for the address as it is given, `getWorkerID` (`db/workflow.go`), by
which `CreateWorkflow` resolves the worker of a task, for the form in which `HardwareAddr.String` writes it, and
`Push` stores addresses in lower case.  So a record is found by both exactly if the address asked for is stored letter
by letter and the record spells it with colons (`found_by_spelling_iff`).
-/

namespace Tink.Db

open Pg Machine GoNet

/-- What the database answers to one query: a failure, or one of the rows that match. -/
structure LookupEnv where
  failure : Option String := none
  select : (rows : List HardwareRow) → rows ≠ [] → { row // row ∈ rows } :=
    fun rows h => ⟨rows.head h, List.head_mem h⟩

def errNoRows : String := "SELECT: sql: no rows in result set"

/-- `get` of `db/db.go`, for the rows that match. -/
def get (env : LookupEnv) (rows : List HardwareRow) : Except String HardwareRow :=
  match env.failure with
  | some e => .error ("SELECT: " ++ e)
  | none => if h : rows = [] then .error errNoRows else .ok (env.select rows h)

/-- `DBServer.ByMAC`. -/
def byMAC (env : LookupEnv) (t : List HardwareRow) (mac : String) : Except String Hardware :=
  (get env (holders t mac)).map HardwareRow.data

def getWorkerIDbyMac (env : LookupEnv) (t : List HardwareRow) (mac : String) : Except String String :=
  match get env (holders t mac) with
  | .ok row => .ok row.id.toString
  | .error e => .error (if e = errNoRows then "mac: " ++ mac else e)

/-- `getWorkerID`, over its two queries and the test for an IPv4 address (`net.ParseIP` and `To4`). -/
def getWorkerID (isIPv4 : String → Bool) (byMac byIP : String → Except String String) (addr : String) :
    Except String String :=
  match parseMAC addr with
  | none =>
    if isIPv4 addr then (byIP addr).mapError ("no worker found: " ++ ·)
    else .error ("invalid worker address: " ++ addr)
  | some parsedMAC => (byMac parsedMAC.toString).mapError ("no worker found: " ++ ·)

variable {toLower : String → String} {t : List HardwareRow} {row : HardwareRow}

/-! ### The rows of a table -/

private theorem mem_holders {mac : String} :
    row ∈ holders t mac ↔ row ∈ t ∧ row.deleted = false ∧ row.data.Has mac := by
  simp [holders]

/-- A push that succeeds adds the record, or puts it in the place of the one with its id. -/
private theorem push_rows {env : PushEnv} {data : Option Hardware} {t' : List HardwareRow}
    (h : push toLower env t data = .ok t') :
    ∃ hw id, data = some hw ∧ UUID.ofString? hw.id = some id ∧
      t' = upsert t id (normalizeHardwareData toLower hw) := by
  obtain ⟨hw, id, rfl, hins, hid⟩ := push_eq_ok h
  refine ⟨hw, id, rfl, hid, ?_⟩
  rw [push_some hid hins] at h
  cases hv : validateHardwareData env t (normalizeHardwareData toLower hw) with
  | error e =>
    rw [hv] at h
    cases h
  | ok u =>
    rw [hv] at h
    exact (Except.ok.inj h).symm

/-- Deleting marks a row. -/
private theorem deleteHardware_rows {failure : Option String} {id : String} {t' : List HardwareRow}
    (h : deleteHardware failure t id = .ok t') :
    ∃ u : UUID, t' = t.map fun row => if row.id = u then { row with deleted := true } else row := by
  unfold deleteHardware deleteFromDB at h
  split at h
  · cases h
  · split at h
    · cases h
    · cases h
    · rename_i u _
      split at h
      · exact ⟨u, (Except.ok.inj h).symm⟩
      · cases h

/-- Every row has been pushed by one of the calls, and has an id of its own. -/
structure Pushed (toLower : String → String) (calls : List HardwareCall) (t : List HardwareRow) : Prop where
  nodup : (t.map HardwareRow.id).Nodup
  call : ∀ row ∈ t, ∃ env hw, HardwareCall.push env (some hw) ∈ calls ∧ UUID.ofString? hw.id = some row.id ∧
    row.data = normalizeHardwareData toLower hw

private theorem Pushed.mono {calls calls' : List HardwareCall} (h : Pushed toLower calls t) (hsub : calls ⊆ calls') :
    Pushed toLower calls' t := by
  refine ⟨h.nodup, ?_⟩
  intro row hrow
  obtain ⟨env, hw, hcall, hrest⟩ := h.call row hrow
  exact ⟨env, hw, hsub hcall, hrest⟩

private theorem Pushed.push {calls : List HardwareCall} (h : Pushed toLower calls t) {env : PushEnv} {hw : Hardware}
    {id : UUID} (hcall : HardwareCall.push env (some hw) ∈ calls) (hid : UUID.ofString? hw.id = some id) :
    Pushed toLower calls (upsert t id (normalizeHardwareData toLower hw)) := by
  constructor
  · rw [upsert, List.map_append, List.nodup_append]
    refine ⟨h.nodup.sublist (List.Sublist.map _ List.filter_sublist), by simp, ?_⟩
    intro u hu v hv huv
    obtain ⟨row, hrow, rfl⟩ := List.mem_map.1 hu
    simp only [List.map_cons, List.map_nil, List.mem_singleton] at hv
    have hne := (List.mem_filter.1 hrow).2
    simp [huv, hv] at hne
  · intro row hrow
    rcases List.mem_append.1 hrow with hold | hnew
    · exact h.call row (List.mem_filter.1 hold).1
    · cases List.mem_singleton.1 hnew
      exact ⟨env, hw, hcall, hid, rfl⟩

private theorem Pushed.delete {calls : List HardwareCall} (h : Pushed toLower calls t) (u : UUID) :
    Pushed toLower calls (t.map fun row => if row.id = u then { row with deleted := true } else row) := by
  constructor
  · have hids : (t.map fun row => if row.id = u then { row with deleted := true } else row).map HardwareRow.id =
        t.map HardwareRow.id := by
      rw [List.map_map]
      refine List.map_congr_left ?_
      intro row _
      simp only [Function.comp_apply]
      split <;> rfl
    rw [hids]
    exact h.nodup
  · intro row hrow
    obtain ⟨old, hold, rfl⟩ := List.mem_map.1 hrow
    obtain ⟨env, hw, hcall, hid, hdata⟩ := h.call old hold
    refine ⟨env, hw, hcall, ?_, ?_⟩
    · split <;> exact hid
    · split <;> exact hdata

/-- In every reachable table. -/
private theorem pushed_run (toLower : String → String) (calls : List HardwareCall) :
    Pushed toLower calls (run (hardwareStep toLower) [] calls) := by
  induction calls using List.reverseRecOn with
  | nil => exact ⟨List.nodup_nil, by simp [run]⟩
  | append_singleton calls call ih =>
    have ih' := ih.mono (List.subset_append_left calls [call])
    rw [run_concat]
    cases call with
    | push env data =>
      rw [hardwareStep]
      cases h : Db.push toLower env (run (hardwareStep toLower) [] calls) data with
      | error e => exact ih'
      | ok t' =>
        obtain ⟨hw, id, rfl, hid, rfl⟩ := push_rows h
        exact ih'.push (List.mem_append_right calls (List.mem_singleton_self _)) hid
    | delete failure id =>
      rw [hardwareStep]
      cases h : deleteHardware failure (run (hardwareStep toLower) [] calls) id with
      | error e => exact ih'
      | ok t' =>
        obtain ⟨u, rfl⟩ := deleteHardware_rows h
        exact ih'.delete u

/-- Rows with the same document are the same. -/
private theorem Pushed.ext {calls : List HardwareCall} (h : Pushed toLower calls t) {row' : HardwareRow}
    (hrow : row ∈ t) (hrow' : row' ∈ t) (hdata : row'.data = row.data) : row' = row := by
  obtain ⟨env, hw, -, hid, hd⟩ := h.call row hrow
  obtain ⟨env', hw', -, hid', hd'⟩ := h.call row' hrow'
  have hsame : hw'.id = hw.id := by
    have := congrArg Hardware.id (hd'.symm.trans (hdata.trans hd))
    exact this
  rw [hsame, hid] at hid'
  exact List.inj_on_of_nodup_map h.nodup hrow' hrow (Option.some.inj hid').symm

/-! ### What is found -/

/-- Whichever row is selected, the result is `x`: there are rows, and all of them give it. -/
private theorem forall_select_iff {α : Type} {rows : List HardwareRow} {f : HardwareRow → α} {x : α} :
    (∀ select, (get { select := select } rows).map f = .ok x) ↔ rows ≠ [] ∧ ∀ row ∈ rows, f row = x := by
  constructor
  · intro h
    have hne : rows ≠ [] := by
      intro hnil
      have := h fun rows h => ⟨rows.head h, List.head_mem h⟩
      simp [get, hnil, Except.map] at this
    refine ⟨hne, ?_⟩
    intro row hrow
    have hsel := h fun rows' hne' => if hmem : row ∈ rows' then ⟨row, hmem⟩ else ⟨rows'.head hne', List.head_mem hne'⟩
    simpa [get, hne, hrow, Except.map] using hsel
  · rintro ⟨hne, hall⟩ select
    have hx := hall _ (select rows hne).2
    simp [get, hne, Except.map, hx]

private theorem mapError_eq_ok {ε ε' α : Type} {x : Except ε α} {f : ε → ε'} {a : α} :
    x.mapError f = .ok a ↔ x = .ok a := by
  cases x <;> simp [Except.mapError]

private theorem getWorkerIDbyMac_eq_ok {env : LookupEnv} {mac id : String} :
    getWorkerIDbyMac env t mac = .ok id ↔ (get env (holders t mac)).map (fun row => row.id.toString) = .ok id := by
  unfold getWorkerIDbyMac
  cases get env (holders t mac) <;> simp [Except.map]

/-- The record is the only live one with the address. -/
def Sole (t : List HardwareRow) (row : HardwareRow) (mac : String) : Prop :=
  row.data.Has mac ∧ ∀ row' ∈ t, row'.deleted = false → row'.id ≠ row.id → ¬ row'.data.Has mac

private theorem sole_iff {calls : List HardwareCall} (h : Pushed toLower calls t) (hrow : row ∈ t)
    (hlive : row.deleted = false)
    {mac : String} : Sole t row mac ↔ holders t mac ≠ [] ∧ ∀ row' ∈ holders t mac, row' = row := by
  constructor
  · rintro ⟨hhas, hother⟩
    refine ⟨List.ne_nil_of_mem (mem_holders.2 ⟨hrow, hlive, hhas⟩), ?_⟩
    intro row' hrow'
    obtain ⟨hmem, hlive', hhas'⟩ := mem_holders.1 hrow'
    have hid : row'.id = row.id := by
      by_contra hne
      exact hother row' hmem hlive' hne hhas'
    exact List.inj_on_of_nodup_map h.nodup hmem hrow hid
  · rintro ⟨hne, hall⟩
    obtain ⟨row', hrow'⟩ := List.exists_mem_of_ne_nil _ hne
    cases hall row' hrow'
    refine ⟨(mem_holders.1 hrow').2.2, ?_⟩
    intro other hother hlive' hid hhas
    cases hall other (mem_holders.2 ⟨hother, hlive', hhas⟩)
    exact hid rfl

/-- Both queries return a record exactly if it is the only one with the text they look for. -/
private theorem byMAC_getWorkerID_iff {calls : List HardwareCall} (h : Pushed toLower calls t) (hrow : row ∈ t)
    (hlive : row.deleted = false) (isIPv4 : String → Bool) (byIP : String → Except String String) {m : String}
    {a : HardwareAddr} (hm : parseMAC m = some a) :
    ((∀ select, byMAC { select := select } t m = .ok row.data) ∧
      ∀ select, getWorkerID isIPv4 (getWorkerIDbyMac { select := select } t) byIP m = .ok row.id.toString) ↔
      Sole t row m ∧ Sole t row a.toString := by
  have hby : (∀ select, byMAC { select := select } t m = .ok row.data) ↔ Sole t row m := by
    unfold byMAC
    rw [forall_select_iff, sole_iff h hrow hlive]
    refine and_congr_right fun _ => forall₂_congr fun row' hrow' => ?_
    constructor
    · intro hdata
      exact h.ext hrow (mem_holders.1 hrow').1 hdata
    · rintro rfl
      rfl
  have hget : (∀ select, getWorkerID isIPv4 (getWorkerIDbyMac { select := select } t) byIP m = .ok row.id.toString) ↔
      Sole t row a.toString := by
    simp only [getWorkerID, hm, mapError_eq_ok, getWorkerIDbyMac_eq_ok]
    rw [forall_select_iff, sole_iff h hrow hlive]
    refine and_congr_right fun _ => forall₂_congr fun row' hrow' => ?_
    constructor
    · intro hid
      exact List.inj_on_of_nodup_map h.nodup (mem_holders.1 hrow').1 hrow (UUID.toString_injective hid)
    · rintro rfl
      rfl
  rw [hby, hget]

private theorem toLower_empty : "".toLower = "" := by decide +kernel

private theorem mem_macs_normalizeHardwareData {hw : Hardware} {mac : String} :
    (normalizeHardwareData String.toLower hw).Has mac ↔ mac ≠ "" ∧ ∃ x ∈ hw.macs, x.toLower = mac := by
  have hmap : ∀ dhcp : Option String, (dhcp.map fun mac => if mac ≠ "" then mac.toLower else mac).getD "" =
      (dhcp.getD "").toLower := by
    intro dhcp
    cases dhcp with
    | none => exact toLower_empty.symm
    | some mac =>
      by_cases hmac : mac = ""
      · simp [hmac, toLower_empty]
      · simp [hmac]
  simp only [Hardware.Has, Hardware.macs, normalizeHardwareData, List.map_map, List.mem_map,
    Function.comp_apply, hmap, exists_exists_and_eq_and]

/-- A record is found by `ByMAC` and by the resolution of workers under a spelling of an address exactly if one of its
addresses is lowered to that spelling, one spells the address with colons, and no other live record has either
text. -/
theorem found_by_spelling_iff (calls : List HardwareCall) {row : HardwareRow}
    (hrow : row ∈ run (hardwareStep String.toLower) [] calls) (hlive : row.deleted = false) (isIPv4 : String → Bool)
    (byIP : String → Except String String) {m : String} {a : HardwareAddr} (hm : parseMAC m = some a) :
    ∃ env hw, HardwareCall.push env (some hw) ∈ calls ∧ UUID.ofString? hw.id = some row.id ∧
      row.data = normalizeHardwareData String.toLower hw ∧
      (((∀ select, byMAC { select := select } (run (hardwareStep String.toLower) [] calls) m = .ok row.data) ∧
        ∀ select, getWorkerID isIPv4
          (getWorkerIDbyMac { select := select } (run (hardwareStep String.toLower) [] calls)) byIP m =
            .ok row.id.toString) ↔
        ((∃ x ∈ hw.macs, x.toLower = m) ∧ ∃ x ∈ hw.macs, parseMAC x = some a ∧ Coloned x) ∧
          ∀ row' ∈ run (hardwareStep String.toLower) [] calls, row'.deleted = false → row'.id ≠ row.id →
            m ∉ row'.data.macs ∧ a.toString ∉ row'.data.macs) := by
  have hpushed := pushed_run String.toLower calls
  obtain ⟨env, hw, hcall, hid, hdata⟩ := hpushed.call row hrow
  refine ⟨env, hw, hcall, hid, hdata, ?_⟩
  have hvalid := validLength_of_parseMAC hm
  have hm_ne : m ≠ "" := by
    rintro rfl
    cases hm
  have ha_ne : a.toString ≠ "" := by
    intro hempty
    have hself := (toLower_eq_toString (s := "") hvalid).1 (toLower_empty.trans hempty.symm)
    cases hself.2
  rw [byMAC_getWorkerID_iff hpushed hrow hlive isIPv4 byIP hm]
  have hhas : ∀ mac, row.data.Has mac ↔ mac ≠ "" ∧ ∃ x ∈ hw.macs, x.toLower = mac := by
    intro mac
    rw [hdata]
    exact mem_macs_normalizeHardwareData
  have hcolon : (∃ x ∈ hw.macs, x.toLower = a.toString) ↔ ∃ x ∈ hw.macs, parseMAC x = some a ∧ Coloned x := by
    simp only [toLower_eq_toString hvalid]
  have hm_has : ∀ hw' : Hardware, hw'.Has m ↔ m ∈ hw'.macs := fun hw' => and_iff_right hm_ne
  have ha_has : ∀ hw' : Hardware, hw'.Has a.toString ↔ a.toString ∈ hw'.macs := fun hw' => and_iff_right ha_ne
  simp only [Sole, hhas, hm_has, ha_has, hcolon, ne_eq, hm_ne, ha_ne, not_false_eq_true, true_and]
  constructor
  · rintro ⟨⟨h1, hm'⟩, h2, ha'⟩
    exact ⟨⟨h1, h2⟩, fun row' hr hl hne => ⟨hm' row' hr hl hne, ha' row' hr hl hne⟩⟩
  · rintro ⟨⟨h1, h2⟩, hboth⟩
    exact ⟨⟨h1, fun row' hr hl hne => (hboth row' hr hl hne).1⟩, h2, fun row' hr hl hne => (hboth row' hr hl hne).2⟩

def hardwareA : String := "00000000-0000-0000-0000-00000000000a"

/-- The calls of a push of a record with one interface. -/
def pushOne (id mac : String) : List HardwareCall := [.push {} (some { id := id, interfaces := [some mac] })]

/-- The row of that record. -/
def rowA (mac : String) : HardwareRow :=
  { id := (UUID.ofString? hardwareA).get (by decide +kernel), data := { id := hardwareA, interfaces := [some mac] } }

theorem found_by_spelling_lower :
    let t := run (hardwareStep String.toLower) [] (pushOne hardwareA "02:42:AC:12:00:01")
    rowA "02:42:ac:12:00:01" ∈ t ∧ (parseMAC "02:42:ac:12:00:01").isSome = true ∧
      (∀ select, byMAC { select := select } t "02:42:ac:12:00:01" = .ok (rowA "02:42:ac:12:00:01").data) ∧
      ∀ select, getWorkerID (fun _ => false) (getWorkerIDbyMac { select := select } t) (fun _ => .error "")
        "02:42:ac:12:00:01" = .ok (rowA "02:42:ac:12:00:01").id.toString := by
  have honly : run (hardwareStep String.toLower) [] (pushOne hardwareA "02:42:AC:12:00:01") =
      [rowA "02:42:ac:12:00:01"] := by
    decide +kernel
  have hrow : rowA "02:42:ac:12:00:01" ∈ run (hardwareStep String.toLower) []
      (pushOne hardwareA "02:42:AC:12:00:01") := by
    rw [honly]
    exact List.mem_singleton_self _
  have hm : parseMAC "02:42:ac:12:00:01" =
    some ⟨[(0, 2), (4, 2), (10, 12), (1, 2), (0, 0), (0, 1)]⟩ := by decide +kernel
  obtain ⟨env, hw, hcall, -, -, hiff⟩ :=
    found_by_spelling_iff _ hrow rfl (fun _ => false) (fun _ => .error "") hm
  simp only [pushOne, List.mem_singleton, HardwareCall.push.injEq, Option.some.injEq] at hcall
  obtain ⟨-, rfl⟩ := hcall
  refine ⟨hrow, by decide +kernel,
    hiff.2 ⟨⟨⟨_, List.mem_singleton_self _, ?_⟩, _, List.mem_singleton_self _, ?_⟩, ?_⟩⟩
  · decide +kernel
  · exact ⟨by decide +kernel, rfl⟩
  · intro row' hrow' _ hne
    rw [honly, List.mem_singleton] at hrow'
    exact absurd (congrArg HardwareRow.id hrow') hne

/-- A record with hyphens in its address is not found as a worker, and one with colons not by `ByMAC` in upper
case. -/
theorem spelling_not_found :
    let hyphened := run (hardwareStep String.toLower) [] (pushOne hardwareA "02-42-ac-12-00-01")
    let coloned := run (hardwareStep String.toLower) [] (pushOne hardwareA "02:42:ac:12:00:01")
    parseMAC "02-42-ac-12-00-01" = parseMAC "02:42:AC:12:00:01" ∧ (parseMAC "02:42:AC:12:00:01").isSome = true ∧
      hyphened.map (fun row => row.data.macs) = [["02-42-ac-12-00-01"]] ∧
      getWorkerID (fun _ => false) (getWorkerIDbyMac {} hyphened) (fun _ => .error "") "02-42-ac-12-00-01" =
        .error "no worker found: mac: 02:42:ac:12:00:01" ∧
      coloned.map (fun row => row.data.macs) = [["02:42:ac:12:00:01"]] ∧
      byMAC {} coloned "02:42:AC:12:00:01" = .error "SELECT: sql: no rows in result set" := by
  decide +kernel

end Tink.Db
