import Tink.Db.Store
import Tink.Lib.Run

/-!
# Hardware records

`Push` and `Delete` of `server/dbserver_hardware.go` over the table `hardware` (`db/hardware.go`).  Before a record is
stored, the MAC address of each of its interfaces is looked up among the live records.  The loop ends with the first
record that is found: if it is the one that is being pushed, the push goes on, and the interfaces that follow are not
looked at; a lookup that fails counts as one that finds nothing.

A lookup may return any of the records that match.  What `strings.ToLower` makes of an address does not matter here.
-/

namespace Tink.Db

open Pg Machine

/-- The part of `hardware.Hardware` used here: the id, and the MAC address of every interface with a DHCP record. -/
structure Hardware where
  id : String
  interfaces : List (Option String) := []
deriving DecidableEq

/-- A row of `hardware`. -/
structure HardwareRow where
  id : UUID
  data : Hardware
  deleted : Bool := false
deriving DecidableEq

/-- `iface.GetDhcp().GetMac()` for every interface. -/
def Hardware.macs (hw : Hardware) : List String := hw.interfaces.map fun dhcp => dhcp.getD ""

/-- The document has an interface with the address; an empty one is left out of it. -/
def Hardware.Has (hw : Hardware) (mac : String) : Prop := mac ≠ "" ∧ mac ∈ hw.macs

instance (hw : Hardware) (mac : String) : Decidable (hw.Has mac) := inferInstanceAs (Decidable (_ ∧ _))

/-- The live rows with an interface with the address. -/
def holders (t : List HardwareRow) (mac : String) : List HardwareRow :=
  t.filter fun row => row.deleted = false ∧ row.data.Has mac

/-- What the database answers during one `Push`: to the lookup for every interface, with the row returned if there are
several, and to the insertion. -/
structure PushEnv where
  lookupErr : Nat → Option String := fun _ => none
  select : Nat → (rows : List HardwareRow) → rows ≠ [] → { row // row ∈ rows } :=
    fun _ rows h => ⟨rows.head h, List.head_mem h⟩
  insertErr : Option String := none

def getByMAC (env : PushEnv) (k : Nat) (t : List HardwareRow) (mac : String) : Except String Hardware :=
  match env.lookupErr k with
  | some e => .error ("SELECT: " ++ e)
  | none =>
    if h : holders t mac = [] then .error "SELECT: sql: no rows in result set"
    else .ok (env.select k (holders t mac) h).1.data

/-- The loop of `validateHardwareData`, from interface `k` on. -/
def checkInterfaces (env : PushEnv) (t : List HardwareRow) (id : String) : Nat → List String → Except String Unit
  | _, [] => .ok ()
  | k, mac :: macs =>
    match getByMAC env k t mac with
    | .ok newhw =>
      if newhw.id = id then .ok ()
      else .error ("conflicting hardware MAC address " ++ mac ++ " provided with hardware data/info")
    | .error _ => checkInterfaces env t id (k + 1) macs

def validateHardwareData (env : PushEnv) (t : List HardwareRow) (hw : Hardware) : Except String Unit :=
  checkInterfaces env t hw.id 0 hw.macs

/-- The table with the row for `id` replaced or added. -/
def upsert (t : List HardwareRow) (id : UUID) (hw : Hardware) : List HardwareRow :=
  (t.filter fun row => row.id ≠ id) ++ [{ id := id, data := hw }]

def insertIntoDB (failure : Option String) (t : List HardwareRow) (hw : Hardware) :
    Except String (List HardwareRow) :=
  match failure, uuidColumn hw.id with
  | some e, _ => .error e
  | none, .error e => .error ("INSERT: " ++ e)
  | none, .ok id => .ok (upsert t id hw)

def deleteFromDB (failure : Option String) (t : List HardwareRow) (id : String) : Except String (List HardwareRow) :=
  match failure, uuidColumn id with
  | some e, _ => .error e
  | none, .error e => .error ("DELETE: " ++ e)
  | none, .ok u =>
    if t.any fun row => row.id = u then
      .ok (t.map fun row => if row.id = u then { row with deleted := true } else row)
    else .error ("not found, id:" ++ id)

section

variable (toLower : String → String)

def normalizeHardwareData (hw : Hardware) : Hardware :=
  { hw with interfaces := hw.interfaces.map fun dhcp => dhcp.map fun mac => if mac ≠ "" then toLower mac else mac }

/-- `DBServer.Push`. -/
def push (env : PushEnv) (t : List HardwareRow) (data : Option Hardware) : Except String (List HardwareRow) :=
  match data with
  | none => .error "expected data not to be nil"
  | some hw =>
    if hw.id = "" then .error ("id must be set to a UUID, got id: " ++ hw.id)
    else do
      let hw := normalizeHardwareData toLower hw
      validateHardwareData env t hw
      insertIntoDB env.insertErr t hw

/-- `DBServer.Delete`. -/
def deleteHardware (failure : Option String) (t : List HardwareRow) (id : String) :
    Except String (List HardwareRow) :=
  if id = "" then .error "id must be set to a UUID" else deleteFromDB failure t id

/-- A call of the hardware service. -/
inductive HardwareCall where
  | push (env : PushEnv) (data : Option Hardware)
  | delete (failure : Option String) (id : String)

/-- The table after a call; one that fails leaves it as it is. -/
def hardwareStep (t : List HardwareRow) : HardwareCall → List HardwareRow
  | .push env data => (push toLower env t data).toOption.getD t
  | .delete failure id => (deleteHardware failure t id).toOption.getD t

end

variable {toLower : String → String} {env : PushEnv} {t t' : List HardwareRow} {hw : Hardware} {id : UUID}
    {mac : String}

/-! ### The rows with an address -/

/-- The other rows with an address, and the new one if it has it. -/
private theorem holders_upsert :
    holders (upsert t id hw) mac =
      ((holders t mac).filter fun row => row.id ≠ id) ++ (if hw.Has mac then [{ id := id, data := hw }] else []) := by
  rw [holders, upsert, List.filter_append, holders, List.filter_filter, List.filter_filter]
  refine congrArg₂ (· ++ ·) (List.filter_congr fun row _ => Bool.and_comm ..) ?_
  by_cases hm : hw.Has mac
  · simp [hm]
  · simp [hm]

private theorem holders_delete :
    (holders (t.map fun row => if row.id = id then { row with deleted := true } else row) mac) =
      (holders t mac).filter fun row => row.id ≠ id := by
  unfold holders
  induction t with
  | nil => rfl
  | cons row t ih =>
    rw [List.map_cons, List.filter_cons, List.filter_cons, ih]
    by_cases hid : row.id = id
    · by_cases hrow : row.deleted = false ∧ row.data.Has mac
      · simp [hid, hrow]
      · simp [hid, hrow]
    · by_cases hrow : row.deleted = false ∧ row.data.Has mac
      · simp [hid, hrow]
      · simp [hid, hrow]

/-- At most one live record has any given address. -/
def UniqueMacs (t : List HardwareRow) : Prop := ∀ mac, (holders t mac).length ≤ 1

/-- Another live record has one of the addresses of the record. -/
def Conflicts (t : List HardwareRow) (id : UUID) (hw : Hardware) : Prop :=
  ∃ mac, hw.Has mac ∧ ∃ row ∈ holders t mac, row.id ≠ id

/-- Storing a record keeps the addresses unique exactly if no other record has one of them. -/
private theorem uniqueMacs_upsert (h : UniqueMacs t) : UniqueMacs (upsert t id hw) ↔ ¬ Conflicts t id hw := by
  constructor
  · rintro hu ⟨mac, hm, row, hrow, hne⟩
    have hlen := hu mac
    rw [holders_upsert, if_pos hm, List.length_append] at hlen
    have hpos : 0 < ((holders t mac).filter fun row => row.id ≠ id).length :=
      List.length_pos_of_mem (List.mem_filter.2 ⟨hrow, by simpa using hne⟩)
    simp only [List.length_singleton] at hlen
    omega
  · intro hc mac
    rw [holders_upsert, List.length_append]
    by_cases hm : hw.Has mac
    · have hnone : (holders t mac).filter (fun row => row.id ≠ id) = [] := by
        rw [List.filter_eq_nil_iff]
        intro row hrow hne
        exact hc ⟨mac, hm, row, hrow, by simpa using hne⟩
      rw [hnone, if_pos hm]
      simp
    · rw [if_neg hm, List.length_nil]
      exact (List.length_filter_le ..).trans (h mac)

/-! ### The check -/

/-- The first interface whose lookup is answered and whose address a live record has is found with a record of another
id. -/
def FoundOther (env : PushEnv) (t : List HardwareRow) (id : String) (start : Nat) (macs : List String) : Prop :=
  ∃ k mac row, macs[k]? = some mac ∧ env.lookupErr (start + k) = none ∧ row ∈ holders t mac ∧ row.data.id ≠ id ∧
    ∀ j < k, ∀ mac', macs[j]? = some mac' → env.lookupErr (start + j) = none → holders t mac' = []

private theorem foundOther_cons {id : String} {start : Nat} {macs : List String} :
    FoundOther env t id start (mac :: macs) ↔
      (env.lookupErr start = none ∧ ∃ row ∈ holders t mac, row.data.id ≠ id) ∨
      ((env.lookupErr start = none → holders t mac = []) ∧ FoundOther env t id (start + 1) macs) := by
  have hshift : ∀ k, start + (k + 1) = start + 1 + k := by omega
  constructor
  · rintro ⟨k, mac', row, hget, hans, hrow, hne, hfirst⟩
    cases k with
    | zero =>
      cases hget
      exact .inl ⟨hans, row, hrow, hne⟩
    | succ k =>
      refine .inr ⟨hfirst 0 (by omega) mac rfl, k, mac', row, hget, by rw [← hshift]; exact hans, hrow, hne, ?_⟩
      intro j hj mac'' hj' hans'
      exact hfirst (j + 1) (by omega) mac'' hj' (by rw [hshift]; exact hans')
  · rintro (⟨hans, row, hrow, hne⟩ | ⟨hnone, k, mac', row, hget, hans, hrow, hne, hfirst⟩)
    · exact ⟨0, mac, row, rfl, hans, hrow, hne, fun j hj => by omega⟩
    · refine ⟨k + 1, mac', row, hget, by rw [hshift]; exact hans, hrow, hne, ?_⟩
      intro j hj mac'' hj' hans'
      cases j with
      | zero =>
        cases hj'
        exact hnone hans'
      | succ j => exact hfirst j (by omega) mac'' hj' (by rw [← hshift]; exact hans')

/-- With unique addresses, the check rejects a record exactly if the first record it finds has another id. -/
private theorem checkInterfaces_error (hu : UniqueMacs t) {id : String} {start : Nat} {macs : List String} :
    (∃ e, checkInterfaces env t id start macs = .error e) ↔ FoundOther env t id start macs := by
  induction macs generalizing start with
  | nil => simp [checkInterfaces, FoundOther]
  | cons mac macs ih =>
    rw [foundOther_cons, checkInterfaces]
    cases hans : env.lookupErr start with
    | some e => simp [getByMAC, hans, ih]
    | none =>
      by_cases hnone : holders t mac = []
      · simp [getByMAC, hans, hnone, ih]
      · -- the row that is returned is the only one
        obtain ⟨row, hrow⟩ : ∃ row, holders t mac = [row] := by
          have hpos := List.length_pos_of_ne_nil hnone
          have hle := hu mac
          exact List.length_eq_one_iff.1 (by omega)
        have hget : getByMAC env start t mac = .ok row.data := by
          have hmem : (env.select start (holders t mac) hnone).1 ∈ [row] := by
            rw [← hrow]
            exact (env.select start (holders t mac) hnone).2
          rw [getByMAC, hans]
          simp only
          rw [dif_neg hnone, List.mem_singleton.1 hmem]
        rw [hget]
        by_cases hid : row.data.id = id
        · simp [hid, hrow]
        · simp [hid, hrow]

/-! ### Runs -/

/-- A record that is pushed, stored if the check lets it pass. -/
theorem push_some {env : PushEnv} (hid : UUID.ofString? hw.id = some id) (hins : env.insertErr = none) :
    push toLower env t (some hw) =
      match validateHardwareData env t (normalizeHardwareData toLower hw) with
      | .error e => .error e
      | .ok () => .ok (upsert t id (normalizeHardwareData toLower hw)) := by
  have hne : hw.id ≠ "" := by
    intro hempty
    rw [hempty] at hid
    cases hid
  have hid' : uuidColumn (normalizeHardwareData toLower hw).id = .ok id := uuidColumn_eq_ok.2 hid
  rw [push]
  simp only [hne, if_false]
  cases validateHardwareData env t (normalizeHardwareData toLower hw) with
  | error e => rfl
  | ok u => simp [bind, Except.bind, insertIntoDB, hins, hid']

/-- A push that succeeds stores a record that has passed the check. -/
theorem push_eq_ok {data : Option Hardware} (h : push toLower env t data = .ok t') :
    ∃ hw id, data = some hw ∧ env.insertErr = none ∧ UUID.ofString? hw.id = some id := by
  unfold push at h
  split at h
  · cases h
  · rename_i hw
    split at h
    · cases h
    · refine ⟨hw, ?_⟩
      cases hv : validateHardwareData env t (normalizeHardwareData toLower hw) with
      | error e => simp [hv, bind, Except.bind] at h
      | ok u =>
        simp only [hv, bind, Except.bind, insertIntoDB] at h
        split at h
        · cases h
        · cases h
        · rename_i id hins hid
          exact ⟨id, rfl, hins, uuidColumn_eq_ok.1 hid⟩

/-- Where a push that the database stores has an address of another live record, the check finds another record
first. -/
def Checked (toLower : String → String) (t : List HardwareRow) : HardwareCall → Prop
  | .push env (some hw) => env.insertErr = none → ∀ id, UUID.ofString? hw.id = some id →
      Conflicts t id (normalizeHardwareData toLower hw) →
      FoundOther env t hw.id 0 (normalizeHardwareData toLower hw).macs
  | _ => True

private theorem uniqueMacs_delete (hu : UniqueMacs t) (failure : Option String) (id : String) :
    UniqueMacs (hardwareStep toLower t (.delete failure id)) := by
  cases h : deleteHardware failure t id with
  | error e =>
    rw [hardwareStep, h]
    exact hu
  | ok t' =>
    rw [hardwareStep, h]
    unfold deleteHardware deleteFromDB at h
    split at h
    · cases h
    · split at h
      · cases h
      · cases h
      · split at h
        · cases h
          intro mac
          refine (congrArg List.length holders_delete).le.trans ?_
          exact (List.length_filter_le ..).trans (hu mac)
        · cases h

/-- A call keeps the addresses unique exactly if it is checked. -/
private theorem uniqueMacs_step (hu : UniqueMacs t) (call : HardwareCall) :
    UniqueMacs (hardwareStep toLower t call) ↔ Checked toLower t call := by
  cases call with
  | delete failure id => exact iff_of_true (uniqueMacs_delete hu failure id) trivial
  | push env data =>
    rw [hardwareStep]
    cases data with
    | none => exact iff_of_true hu trivial
    | some hw =>
      by_cases hstored : env.insertErr = none ∧ ∃ id, UUID.ofString? hw.id = some id
      · obtain ⟨hins, id, hid⟩ := hstored
        have hcheck : (∃ e, checkInterfaces env t hw.id 0 (normalizeHardwareData toLower hw).macs = .error e) ↔
            FoundOther env t hw.id 0 (normalizeHardwareData toLower hw).macs := checkInterfaces_error hu
        have hiff : Checked toLower t (.push env (some hw)) ↔ (Conflicts t id (normalizeHardwareData toLower hw) →
            FoundOther env t hw.id 0 (normalizeHardwareData toLower hw).macs) := by
          constructor
          · intro h
            exact h hins id hid
          · intro h _ id' hid'
            rw [hid] at hid'
            cases hid'
            exact h
        rw [push_some hid hins, hiff, ← hcheck]
        cases hv : validateHardwareData env t (normalizeHardwareData toLower hw) with
        | error e => exact iff_of_true hu fun _ => ⟨e, hv⟩
        | ok u =>
          have hno : ¬ ∃ e, checkInterfaces env t hw.id 0 (normalizeHardwareData toLower hw).macs = .error e := by
            rintro ⟨e, he⟩
            rw [validateHardwareData] at hv
            exact absurd (hv.symm.trans he) (by simp)
          rw [imp_iff_not hno]
          exact uniqueMacs_upsert hu
      · have herr : (push toLower env t (some hw)).toOption = none := by
          cases h : push toLower env t (some hw) with
          | error e => rfl
          | ok t' =>
            obtain ⟨hw', id, hsome, hins, hid⟩ := push_eq_ok h
            cases hsome
            exact absurd ⟨hins, id, hid⟩ hstored
        rw [herr]
        exact iff_of_true hu fun hins id hid => absurd ⟨hins, id, hid⟩ hstored

/-- Along any sequence of calls from an empty table, at most one live record has any given address at any time,
exactly if every push is checked. -/
theorem macs_unique_iff (toLower : String → String) (calls : List HardwareCall) :
    Always (hardwareStep toLower) UniqueMacs [] calls ↔ Every (hardwareStep toLower) (Checked toLower) [] calls := by
  have h0 : UniqueMacs [] := fun mac => Nat.zero_le 1
  exact always_iff_every h0 (fun _ hu => hu) (fun t call hu => (uniqueMacs_step hu call).2)
    fun t call hu => (uniqueMacs_step hu call).1

/-- A record gets a second interface, with the address of another record. -/
theorem second_interface_shared :
    let push : String → List String → HardwareCall := fun id macs => .push {} (some ⟨id, macs.map some⟩)
    let a := "00000000-0000-0000-0000-00000000000a"
    let b := "00000000-0000-0000-0000-00000000000b"
    let t := run (hardwareStep String.toLower) [] [push a ["m1"], push b ["m2"]]
    let t' := hardwareStep String.toLower t (push a ["m1", "m2"])
    (Db.push String.toLower {} t (some ⟨a, [some "m1", some "m2"]⟩)).isOk = true ∧
      (holders t' "m2").map (fun row => row.data.id) = [b, a] := by
  decide +kernel

end Tink.Db
