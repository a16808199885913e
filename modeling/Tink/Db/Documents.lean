import Tink.Db.Lookup
import Tink.Lib.Jsonb

/-!
# The documents of hardware records

The table `hardware` keeps a record as a document (`data`, of type jsonb), and `GetByMAC` and `GetByIP`
(`db/hardware.go`) ask for the live rows whose document contains a pattern.  The text of the pattern is put together
around the address that is asked for, which is not escaped.

So a lookup returns a row with the address exactly as long as the address has no quote and no backslash, or the text
is no JSON text and the query fails (`lookups_exact_iff`).  For the addresses without quotes and backslashes the rows
that match are those that `Hardware.Has` describes (`live_eq_holders`).
-/

namespace Tink.Db.Documents

open Pg Json

/-- A row of `hardware`. -/
structure Row where
  id : UUID
  data : Jsonb
  deleted : Bool := false

/-- What the database answers to one query: a failure, or one of the rows that match. -/
structure Env where
  failure : Option String := none
  select : (rows : List Row) → rows ≠ [] → { row // row ∈ rows } := fun rows h => ⟨rows.head h, List.head_mem h⟩

/-- `get` of `db/db.go`, for a query that fails or has matching rows. -/
def get (env : Env) (rows : Except String (List Row)) : Except String Jsonb :=
  match env.failure, rows with
  | some e, _ => .error ("SELECT: " ++ e)
  | none, .error e => .error ("SELECT: " ++ e)
  | none, .ok rows => if h : rows = [] then .error errNoRows else .ok (env.select rows h).1.data

/-- A parameter of type jsonb. -/
def jsonbParam (text : String) : Except String Jsonb :=
  match Jsonb.ofText text with
  | some v => .ok v
  | none => .error "pq: invalid input syntax for type json"

/-- The live rows that satisfy a condition. -/
def live (t : List Row) (cond : Jsonb → Bool) : List Row :=
  t.filter fun row => row.deleted = false ∧ cond row.data = true

/-- `arg` of `GetByMAC`. -/
def macArg (mac : String) : String :=
  "\n\t\x7b\n\t\t\"network\": \x7b\n\t\t\t\"interfaces\": [\n"
    ++ "\t\t\t\t\x7b\n\t\t\t\t\t\"dhcp\": \x7b\n\t\t\t\t\t\t\"mac\": \""
    ++ mac ++ "\"\n\t\t\t\t\t\x7d\n\t\t\t\t\x7d\n\t\t\t]\n\t\t\x7d\n\t\x7d\n\t"

/-- `instance` of `GetByIP`. -/
def instanceArg (ip : String) : String :=
  "\n\t\x7b\n\t  \"instance\": \x7b\n\t    \"ip_addresses\": [\n\t      \x7b\n\t\t    \"address\": \""
    ++ ip ++ "\"\n\t      \x7d\n\t    ]\n\t  \x7d\n\t\x7d\n\t"

/-- `hardwareOrManagement` of `GetByIP`. -/
def hardwareOrManagementArg (ip : String) : String :=
  "\n\t\x7b\n\t\t\"network\": \x7b\n\t\t\t\"interfaces\": [\n"
    ++ "\t\t\t\t\x7b\n\t\t\t\t\t\"dhcp\": \x7b\n\t\t\t\t\t\t\"ip\": \x7b\n\t\t\t\t\t\t\t\"address\": \""
    ++ ip ++ "\"\n\t\t\t\t\t\t\x7d\n\t\t\t\t\t\x7d\n\t\t\t\t\x7d\n\t\t\t]\n\t\t\x7d\n\t\x7d\n\t"

def getByMAC (env : Env) (t : List Row) (mac : String) : Except String Jsonb :=
  get env do
    let arg ← jsonbParam (macArg mac)
    .ok (live t fun data => data.contains arg)

def getByIP (env : Env) (t : List Row) (ip : String) : Except String Jsonb :=
  get env do
    let inst ← jsonbParam (instanceArg ip)
    let hardwareOrManagement ← jsonbParam (hardwareOrManagementArg ip)
    .ok (live t fun data => data.contains inst || data.contains hardwareOrManagement)

/-! ### The patterns -/

def macPattern : Pattern where
  start := "\n\t"
  levels := [⟨.key "network", "\n\t\t", " ", "\n\t"⟩, ⟨.key "interfaces", "\n\t\t\t", " ", "\n\t\t"⟩,
    ⟨.any, "\n\t\t\t\t", "", "\n\t\t\t"⟩, ⟨.key "dhcp", "\n\t\t\t\t\t", " ", "\n\t\t\t\t"⟩,
    ⟨.key "mac", "\n\t\t\t\t\t\t", " ", "\n\t\t\t\t\t"⟩]
  stop := "\n\t"
  ok := by decide

def instancePattern : Pattern where
  start := "\n\t"
  levels := [⟨.key "instance", "\n\t  ", " ", "\n\t"⟩, ⟨.key "ip_addresses", "\n\t    ", " ", "\n\t  "⟩,
    ⟨.any, "\n\t      ", "", "\n\t    "⟩, ⟨.key "address", "\n\t\t    ", " ", "\n\t      "⟩]
  stop := "\n\t"
  ok := by decide

def hardwareOrManagementPattern : Pattern where
  start := "\n\t"
  levels := [⟨.key "network", "\n\t\t", " ", "\n\t"⟩, ⟨.key "interfaces", "\n\t\t\t", " ", "\n\t\t"⟩,
    ⟨.any, "\n\t\t\t\t", "", "\n\t\t\t"⟩, ⟨.key "dhcp", "\n\t\t\t\t\t", " ", "\n\t\t\t\t"⟩,
    ⟨.key "ip", "\n\t\t\t\t\t\t", " ", "\n\t\t\t\t\t"⟩, ⟨.key "address", "\n\t\t\t\t\t\t\t", " ", "\n\t\t\t\t\t\t"⟩]
  stop := "\n\t"
  ok := by decide

/-- A text that is put together from the two sides of a pattern. -/
private theorem eq_text {p : Pattern} {front back : String} (s : String)
    (hfront : front.toList = p.start.toList ++ opening p.levels ++ ['"'])
    (hback : back.toList = '"' :: (closing p.levels ++ p.stop.toList)) :
    front ++ s ++ back = String.ofList (p.text s) := by
  rw [← String.toList_inj, String.toList_ofList, String.toList_append, String.toList_append, hfront, hback,
    Pattern.text]
  simp

private theorem macArg_eq (mac : String) : macArg mac = String.ofList (macPattern.text mac) :=
  eq_text mac (by decide +kernel) (by decide +kernel)

private theorem instanceArg_eq (ip : String) : instanceArg ip = String.ofList (instancePattern.text ip) :=
  eq_text ip (by decide +kernel) (by decide +kernel)

private theorem hardwareOrManagementArg_eq (ip : String) :
    hardwareOrManagementArg ip = String.ofList (hardwareOrManagementPattern.text ip) :=
  eq_text ip (by decide +kernel) (by decide +kernel)

/-! ### What a lookup returns -/

/-- An interface with the address. -/
def HasMac (doc : Jsonb) (mac : String) : Prop :=
  At (.str mac) [.key "network", .key "interfaces", .any, .key "dhcp", .key "mac"] doc.value

/-- An address of the instance, or of an interface. -/
def HasIP (doc : Jsonb) (ip : String) : Prop :=
  At (.str ip) [.key "instance", .key "ip_addresses", .any, .key "address"] doc.value ∨
    At (.str ip) [.key "network", .key "interfaces", .any, .key "dhcp", .key "ip", .key "address"] doc.value

/-- Every document that a lookup returns is that of a live row, and satisfies the condition. -/
def ReturnsOnly (lookup : Env → List Row → Except String Jsonb) (P : Jsonb → Prop) : Prop :=
  ∀ env t data, lookup env t = .ok data → ∃ row ∈ t, row.deleted = false ∧ row.data = data ∧ P data

private theorem get_live {env : Env} {t : List Row} {cond : Jsonb → Bool} {data : Jsonb}
    (h : get env (.ok (live t cond)) = .ok data) :
    ∃ row ∈ t, row.deleted = false ∧ row.data = data ∧ cond data = true := by
  unfold get at h
  split at h
  · cases h
  · cases h
  · rename_i rows _ heq
    cases heq
    split at h
    · cases h
    · rename_i hne
      have hmem := (env.select (live t cond) hne).2
      have hrow := Except.ok.inj h
      generalize (env.select (live t cond) hne).1 = row at hmem hrow
      obtain ⟨hmem, hcond⟩ := List.mem_filter.1 hmem
      simp only [decide_eq_true_eq] at hcond
      exact ⟨row, hmem, hcond.1, hrow, hrow ▸ hcond.2⟩

private theorem get_error {env : Env} {e : String} {data : Jsonb} : get env (.error e) ≠ .ok data := by
  unfold get
  split
  · nofun
  · nofun
  · rename_i heq
    cases heq

/-- A table with one row. -/
private theorem get_single {doc : Jsonb} {cond : Jsonb → Bool} (id : UUID) (h : cond doc = true) :
    get {} (.ok (live [{ id := id, data := doc }] cond)) = .ok doc := by
  have hlive : live [{ id := id, data := doc }] cond = [{ id := id, data := doc }] := by simp [live, h]
  rw [hlive]
  rfl

private theorem jsonbParam_eq_ok {text : String} {v : Jsonb} :
    jsonbParam text = .ok v ↔ Jsonb.ofText text = some v := by
  unfold jsonbParam
  split
  · rename_i w hw
    rw [hw]
    exact ⟨fun h => congrArg some (Except.ok.inj h), fun h => congrArg Except.ok (Option.some.inj h)⟩
  · rename_i hnone
    rw [hnone]
    exact ⟨nofun, nofun⟩

private theorem getByMAC_eq {env : Env} {t : List Row} {mac : String} {arg : Jsonb}
    (harg : Jsonb.ofText (macArg mac) = some arg) :
    getByMAC env t mac = get env (.ok (live t fun data => data.contains arg)) := by
  rw [getByMAC, jsonbParam_eq_ok.2 harg]
  rfl

private theorem getByIP_eq {env : Env} {t : List Row} {ip : String} {inst hom : Jsonb}
    (hinst : Jsonb.ofText (instanceArg ip) = some inst)
    (hhom : Jsonb.ofText (hardwareOrManagementArg ip) = some hom) :
    getByIP env t ip = get env (.ok (live t fun data => data.contains inst || data.contains hom)) := by
  rw [getByIP, jsonbParam_eq_ok.2 hinst, jsonbParam_eq_ok.2 hhom]
  rfl

/-- A query that returns a row has a pattern that is a JSON text. -/
private theorem getByMAC_eq_ok {env : Env} {t : List Row} {mac : String} {data : Jsonb}
    (h : getByMAC env t mac = .ok data) :
    ∃ arg, Jsonb.ofText (macArg mac) = some arg ∧
      ∃ row ∈ t, row.deleted = false ∧ row.data = data ∧ data.contains arg = true := by
  cases harg : jsonbParam (macArg mac) with
  | error e =>
    rw [getByMAC, harg] at h
    exact absurd h get_error
  | ok arg =>
    have hsome := jsonbParam_eq_ok.1 harg
    rw [getByMAC_eq hsome] at h
    exact ⟨arg, hsome, get_live h⟩

private theorem getByIP_eq_ok {env : Env} {t : List Row} {ip : String} {data : Jsonb}
    (h : getByIP env t ip = .ok data) :
    ∃ inst hom, Jsonb.ofText (instanceArg ip) = some inst ∧ Jsonb.ofText (hardwareOrManagementArg ip) = some hom ∧
      ∃ row ∈ t, row.deleted = false ∧ row.data = data ∧ (data.contains inst || data.contains hom) = true := by
  cases hinst : jsonbParam (instanceArg ip) with
  | error e =>
    rw [getByIP, hinst] at h
    exact absurd h get_error
  | ok inst =>
    cases hhom : jsonbParam (hardwareOrManagementArg ip) with
    | error e =>
      rw [getByIP, hinst, hhom] at h
      exact absurd h get_error
    | ok hom =>
      have hsome := jsonbParam_eq_ok.1 hinst
      have hsome' := jsonbParam_eq_ok.1 hhom
      rw [getByIP_eq hsome hsome'] at h
      exact ⟨inst, hom, hsome, hsome', get_live h⟩

/-- A document contains the pattern of an address without quotes and backslashes exactly if it has it at the path. -/
private theorem contains_iff_at {p : Pattern} {s : String} {arg doc : Jsonb} (hs : Plain s.toList)
    (harg : Jsonb.ofText (String.ofList (p.text s)) = some arg) :
    doc.contains arg = true ↔ At (.str s) p.path doc.value := by
  rw [Jsonb.contains, p.eq_nest_of_plain hs harg]
  exact containedIn_nest

private theorem not_at_of_not_plain {p : Pattern} {s : String} {arg : Jsonb} (hs : ¬ Plain s.toList)
    (harg : Jsonb.ofText (String.ofList (p.text s)) = some arg) (path : List Step) : ¬ At (.str s) path arg.value :=
  fun hat => p.not_mem_strings hs harg (mem_strings_of_at hat)

private theorem returnsOnly_mac_of_plain {mac : String} (hmac : Plain mac.toList) :
    ReturnsOnly (fun env t => getByMAC env t mac) (HasMac · mac) := by
  intro env t data h
  obtain ⟨arg, harg, row, hrow, hlive, hdata, hcond⟩ := getByMAC_eq_ok h
  rw [macArg_eq] at harg
  exact ⟨row, hrow, hlive, hdata, (contains_iff_at hmac harg).1 hcond⟩

private theorem returnsOnly_ip_of_plain {ip : String} (hip : Plain ip.toList) :
    ReturnsOnly (fun env t => getByIP env t ip) (HasIP · ip) := by
  intro env t data h
  obtain ⟨inst, hom, hinst, hhom, row, hrow, hlive, hdata, hcond⟩ := getByIP_eq_ok h
  rw [instanceArg_eq] at hinst
  rw [hardwareOrManagementArg_eq] at hhom
  rw [Bool.or_eq_true] at hcond
  exact ⟨row, hrow, hlive, hdata, hcond.imp (contains_iff_at hip hinst).1 (contains_iff_at hip hhom).1⟩

/-- A lookup by an address returns only rows with it exactly if the address has no quote and no backslash, or a
pattern that is made of it is no JSON text. -/
theorem lookups_exact_iff (mac ip : String) :
    (ReturnsOnly (fun env t => getByMAC env t mac) (HasMac · mac) ↔
      Plain mac.toList ∨ Jsonb.ofText (macArg mac) = none) ∧
    (ReturnsOnly (fun env t => getByIP env t ip) (HasIP · ip) ↔
      Plain ip.toList ∨ Jsonb.ofText (instanceArg ip) = none ∨ Jsonb.ofText (hardwareOrManagementArg ip) = none) := by
  refine ⟨⟨?_, ?_⟩, ⟨?_, ?_⟩⟩
  · intro h
    by_contra hnot
    obtain ⟨hmac, hsome⟩ := not_or.1 hnot
    obtain ⟨arg, harg⟩ := Option.ne_none_iff_exists'.1 hsome
    -- the row whose document is the pattern itself
    have hget : getByMAC {} [{ id := UUID.zero, data := arg }] mac = .ok arg := by
      rw [getByMAC_eq harg]
      exact get_single UUID.zero arg.contains_self
    obtain ⟨-, -, -, -, hat⟩ := h _ _ _ hget
    rw [macArg_eq] at harg
    exact not_at_of_not_plain hmac harg _ hat
  · rintro (hmac | hnone)
    · exact returnsOnly_mac_of_plain hmac
    · intro env t data h
      obtain ⟨arg, harg, -⟩ := getByMAC_eq_ok h
      rw [hnone] at harg
      cases harg
  · intro h
    by_contra hnot
    simp only [not_or] at hnot
    obtain ⟨hip, hinst, hhom⟩ := hnot
    obtain ⟨inst, hinst⟩ := Option.ne_none_iff_exists'.1 hinst
    obtain ⟨hom, hhom⟩ := Option.ne_none_iff_exists'.1 hhom
    have hget : getByIP {} [{ id := UUID.zero, data := inst }] ip = .ok inst := by
      rw [getByIP_eq hinst hhom]
      exact get_single UUID.zero (by rw [inst.contains_self, Bool.true_or])
    obtain ⟨-, -, -, -, hat⟩ := h _ _ _ hget
    rw [instanceArg_eq] at hinst
    rcases hat with hat | hat
    · exact not_at_of_not_plain hip hinst _ hat
    · exact not_at_of_not_plain hip hinst _ hat
  · rintro (hip | hnone | hnone)
    · exact returnsOnly_ip_of_plain hip
    · intro env t data h
      obtain ⟨inst, hom, hinst, -⟩ := getByIP_eq_ok h
      rw [hnone] at hinst
      cases hinst
    · intro env t data h
      obtain ⟨inst, hom, -, hhom, -⟩ := getByIP_eq_ok h
      rw [hnone] at hhom
      cases hhom

/-- The document of a record with one interface. -/
def documentOf (mac ip : String) : Jsonb :=
  Jsonb.ofValue (.obj [("id", .str UUID.zero.toString), ("network", .obj [("interfaces", .arr [.obj [("dhcp",
    .obj [("mac", .str mac), ("ip", .obj [("address", .str ip)])])]])])])

/-- An address with quotes finds a row with another address. -/
theorem other_address_found :
    let row : Row := { id := UUID.zero, data := documentOf "00:00:00:00:00:01" "10.0.0.1" }
    let mac := "x\", \"mac\": \"00:00:00:00:00:01"
    let ip := "x\", \"address\": \"10.0.0.1"
    (getByMAC {} [row] mac).toOption.isSome = true ∧ ¬ HasMac row.data mac ∧
      (getByIP {} [row] ip).toOption.isSome = true ∧ ¬ HasIP row.data ip := by
  intro row mac ip
  have hmac : mac ∉ row.data.value.strings := by decide +kernel
  have hip : ip ∉ row.data.value.strings := by decide +kernel
  refine ⟨by decide +kernel, fun hat => hmac (mem_strings_of_at hat), by decide +kernel, ?_⟩
  rintro (hat | hat)
  · exact hip (mem_strings_of_at hat)
  · exact hip (mem_strings_of_at hat)

/-! ### The documents of records -/

/-- The document of an interface: an empty address is left out. -/
def interfaceDocument : Option String → Value ℚ
  | none => .obj []
  | some mac => .obj [("dhcp", .obj (if mac = "" then [] else [("mac", .str mac)]))]

/-- The part of the document of a record that a lookup by MAC address reads. -/
def document (hw : Hardware) : Value ℚ :=
  .obj [("id", .str hw.id), ("network", .obj [("interfaces", .arr (hw.interfaces.map interfaceDocument))])]

private theorem canon_interfaceDocument (dhcp : Option String) :
    (interfaceDocument dhcp).canon = interfaceDocument dhcp := by
  cases dhcp with
  | none => rfl
  | some mac =>
    by_cases hmac : mac = ""
    · simp [interfaceDocument, hmac, Value.canon, canonFields, last, Json.insert]
    · simp [interfaceDocument, hmac, Value.canon, canonFields, last, Json.insert]

private theorem canon_document (hw : Hardware) : (document hw).canon = document hw := by
  have hitems : canonItems (hw.interfaces.map interfaceDocument) = hw.interfaces.map interfaceDocument := by
    rw [canonItems_eq_map, List.map_map]
    exact List.map_congr_left fun dhcp _ => canon_interfaceDocument dhcp
  have hlt : "id" < "network" := by decide +kernel
  simp only [document, Value.canon, canonFields, last, Json.insert, hitems]
  simp [Json.insert, hlt]

def rowOf (row : HardwareRow) : Row := ⟨row.id, ⟨document row.data, canon_document row.data⟩, row.deleted⟩

private theorem at_interface {mac : String} {dhcp : Option String} :
    At (.str mac) [.key "dhcp", .key "mac"] (interfaceDocument dhcp) ↔ mac ≠ "" ∧ dhcp = some mac := by
  cases dhcp with
  | none => simp [interfaceDocument, At]
  | some mac' =>
    by_cases hmac : mac' = ""
    · subst hmac
      refine iff_of_false (by simp [interfaceDocument, At]) ?_
      rintro ⟨hne, heq⟩
      exact hne (Option.some.inj heq).symm
    · simp only [interfaceDocument, At, List.lookup_cons, hmac, if_false, beq_self_eq_true, Option.some.injEq,
        exists_eq_left', Value.str.injEq]
      constructor
      · rintro rfl
        exact ⟨hmac, rfl⟩
      · exact fun h => h.2

/-- A document has an address exactly if the record has it. -/
private theorem hasMac_rowOf {row : HardwareRow} {mac : String} : HasMac (rowOf row).data mac ↔ row.data.Has mac := by
  have hnetwork : HasMac (rowOf row).data mac ↔
      ∃ v ∈ row.data.interfaces.map interfaceDocument, At (.str mac) [.key "dhcp", .key "mac"] v := by
    simp [HasMac, rowOf, document, At, List.lookup_cons]
  rw [hnetwork, Hardware.Has, Hardware.macs, List.mem_map]
  constructor
  · rintro ⟨v, hv, hat⟩
    obtain ⟨dhcp, hdhcp, rfl⟩ := List.mem_map.1 hv
    obtain ⟨hne, rfl⟩ := at_interface.1 hat
    exact ⟨hne, some mac, hdhcp, rfl⟩
  · rintro ⟨hne, dhcp, hdhcp, heq⟩
    refine ⟨interfaceDocument dhcp, List.mem_map_of_mem hdhcp, at_interface.2 ⟨hne, ?_⟩⟩
    cases dhcp with
    | none => exact absurd heq.symm hne
    | some mac' => exact congrArg some heq

/-- For an address without quotes and backslashes, the rows that match are those with the address. -/
theorem live_eq_holders {t : List HardwareRow} {mac : String} (hmac : Plain mac.toList) {arg : Jsonb}
    (harg : Jsonb.ofText (macArg mac) = some arg) :
    live (t.map rowOf) (fun data => data.contains arg) = (holders t mac).map rowOf := by
  rw [live, holders, List.filter_map]
  refine congrArg (List.map rowOf) (List.filter_congr ?_)
  intro row _
  rw [macArg_eq] at harg
  have hiff : (rowOf row).data.contains arg = true ↔ row.data.Has mac :=
    (contains_iff_at hmac harg).trans hasMac_rowOf
  simp only [Function.comp_apply, hiff]
  rfl

end Tink.Db.Documents
