import Tink.Lib.GoJson

/-!
# The hardware wrapper

`MarshalJSON` and `UnmarshalJSON` of `HardwareWrapper` (`pkg/hardware_wrapper.go`), which keep the metadata of a
record as a text in the program and as a JSON value outside.  Both read the whole record into a map, where numbers are
doubles.

So a record comes back exactly if it is not empty, its integers and the numbers of its metadata survive being doubles,
and a document comes back exactly if it has a field of a record and its metadata is an object or null with such
numbers (`wrapper_round_trip_iff`).
-/

namespace Tink.Pkg

open Json

/-! ### The messages of `protos/hardware` -/

/-- `Hardware_DHCP_IP`. -/
structure IP where
  address : String := ""
  netmask : String := ""
  gateway : String := ""
  family : Int64 := 0
deriving DecidableEq

/-- `Hardware_DHCP`. -/
structure DHCP where
  mac : String := ""
  hostname : String := ""
  leaseTime : Int64 := 0
  nameServers : List String := []
  timeServers : List String := []
  arch : String := ""
  uefi : Bool := false
  ifaceName : String := ""
  ip : Option IP := none
deriving DecidableEq

/-- `Hardware_Netboot_IPXE`. -/
structure IPXE where
  url : String := ""
  contents : String := ""
deriving DecidableEq

/-- `Hardware_Netboot_Osie`. -/
structure Osie where
  baseUrl : String := ""
  kernel : String := ""
  initrd : String := ""
deriving DecidableEq

/-- `Hardware_Netboot`. -/
structure Netboot where
  allowPxe : Bool := false
  allowWorkflow : Bool := false
  ipxe : Option IPXE := none
  osie : Option Osie := none
deriving DecidableEq

/-- `Hardware_Network_Interface`. -/
structure Interface where
  dhcp : Option DHCP := none
  netboot : Option Netboot := none
deriving DecidableEq

/-- `Hardware_Network`. -/
structure Network where
  interfaces : List (Option Interface) := []
deriving DecidableEq

structure Hardware where
  network : Option Network := none
  id : String := ""
  version : Int64 := 0
  metadata : String := ""
deriving DecidableEq

def IP.schema : Schema IP where
  fields := [⟨"address", .string, IP.address, fun b x => { x with address := b }⟩,
    ⟨"netmask", .string, IP.netmask, fun b x => { x with netmask := b }⟩,
    ⟨"gateway", .string, IP.gateway, fun b x => { x with gateway := b }⟩,
    ⟨"family", .int64, IP.family, fun b x => { x with family := b }⟩]
  zero := {}
  nodup := by decide
  get_zero := by simp [Codec.string, Codec.int64]
  get_set := by simp
  get_set_of_ne := by simp
  ext := by
    rintro ⟨⟩ ⟨⟩ h
    simpa using h

def DHCP.schema : Schema DHCP where
  fields := [⟨"mac", .string, DHCP.mac, fun b x => { x with mac := b }⟩,
    ⟨"hostname", .string, DHCP.hostname, fun b x => { x with hostname := b }⟩,
    ⟨"lease_time", .int64, DHCP.leaseTime, fun b x => { x with leaseTime := b }⟩,
    ⟨"name_servers", .repeated .string, DHCP.nameServers, fun b x => { x with nameServers := b }⟩,
    ⟨"time_servers", .repeated .string, DHCP.timeServers, fun b x => { x with timeServers := b }⟩,
    ⟨"arch", .string, DHCP.arch, fun b x => { x with arch := b }⟩,
    ⟨"uefi", .bool, DHCP.uefi, fun b x => { x with uefi := b }⟩,
    ⟨"iface_name", .string, DHCP.ifaceName, fun b x => { x with ifaceName := b }⟩,
    ⟨"ip", .message IP.schema, DHCP.ip, fun b x => { x with ip := b }⟩]
  zero := {}
  nodup := by decide
  get_zero := by simp [Codec.string, Codec.int64, Codec.bool, Codec.repeated, Codec.message]
  get_set := by simp
  get_set_of_ne := by simp
  ext := by
    rintro ⟨⟩ ⟨⟩ h
    simpa using h

def IPXE.schema : Schema IPXE where
  fields := [⟨"url", .string, IPXE.url, fun b x => { x with url := b }⟩,
    ⟨"contents", .string, IPXE.contents, fun b x => { x with contents := b }⟩]
  zero := {}
  nodup := by decide
  get_zero := by simp [Codec.string]
  get_set := by simp
  get_set_of_ne := by simp
  ext := by
    rintro ⟨⟩ ⟨⟩ h
    simpa using h

def Osie.schema : Schema Osie where
  fields := [⟨"base_url", .string, Osie.baseUrl, fun b x => { x with baseUrl := b }⟩,
    ⟨"kernel", .string, Osie.kernel, fun b x => { x with kernel := b }⟩,
    ⟨"initrd", .string, Osie.initrd, fun b x => { x with initrd := b }⟩]
  zero := {}
  nodup := by decide
  get_zero := by simp [Codec.string]
  get_set := by simp
  get_set_of_ne := by simp
  ext := by
    rintro ⟨⟩ ⟨⟩ h
    simpa using h

def Netboot.schema : Schema Netboot where
  fields := [⟨"allow_pxe", .bool, Netboot.allowPxe, fun b x => { x with allowPxe := b }⟩,
    ⟨"allow_workflow", .bool, Netboot.allowWorkflow, fun b x => { x with allowWorkflow := b }⟩,
    ⟨"ipxe", .message IPXE.schema, Netboot.ipxe, fun b x => { x with ipxe := b }⟩,
    ⟨"osie", .message Osie.schema, Netboot.osie, fun b x => { x with osie := b }⟩]
  zero := {}
  nodup := by decide
  get_zero := by simp [Codec.bool, Codec.message]
  get_set := by simp
  get_set_of_ne := by simp
  ext := by
    rintro ⟨⟩ ⟨⟩ h
    simpa using h

def Interface.schema : Schema Interface where
  fields := [⟨"dhcp", .message DHCP.schema, Interface.dhcp, fun b x => { x with dhcp := b }⟩,
    ⟨"netboot", .message Netboot.schema, Interface.netboot, fun b x => { x with netboot := b }⟩]
  zero := {}
  nodup := by decide
  get_zero := by simp [Codec.message]
  get_set := by simp
  get_set_of_ne := by simp
  ext := by
    rintro ⟨⟩ ⟨⟩ h
    simpa using h

def Network.schema : Schema Network where
  fields :=
    [⟨"interfaces", .repeated (.message Interface.schema), Network.interfaces, fun b x => { x with interfaces := b }⟩]
  zero := {}
  nodup := by decide
  get_zero := by simp [Codec.repeated]
  get_set := by simp
  get_set_of_ne := by simp
  ext := by
    rintro ⟨⟩ ⟨⟩ h
    simpa using h

def Hardware.metadataField : StructField Hardware :=
  ⟨"metadata", .string, Hardware.metadata, fun b x => { x with metadata := b }⟩

def Hardware.schema : Schema Hardware where
  fields := [⟨"network", .message Network.schema, Hardware.network, fun b x => { x with network := b }⟩,
    ⟨"id", .string, Hardware.id, fun b x => { x with id := b }⟩,
    ⟨"version", .int64, Hardware.version, fun b x => { x with version := b }⟩,
    Hardware.metadataField]
  zero := {}
  nodup := by decide
  get_zero := by simp [Codec.string, Codec.int64, Codec.message, Hardware.metadataField]
  get_set := by simp [Hardware.metadataField]
  get_set_of_ne := by simp [Hardware.metadataField]
  ext := by
    rintro ⟨⟩ ⟨⟩ h
    simpa [Hardware.metadataField] using h

/-! ### The wrapper -/

/-- `HardwareWrapper.MarshalJSON`, for the pointer in the wrapper. -/
def marshalJSON (h : Option Hardware) : Outcome JsonError String := do
  let hwByte := marshal ((Codec.message Hardware.schema).encode h)
  let tmp ← unmarshalMap hwByte
  match h with
  -- `h.Metadata` of a nil pointer
  | none => .panic
  | some hw => do
    let tmp ←
      if hw.metadata ≠ "" then do
        let metadata ← unmarshalMap hw.metadata
        tmp.assign "metadata" metadata
      else .ok tmp
    .ok (marshalAny tmp)

/-- `Unmarshal` into a variable of type `hwWrapper`. -/
def unmarshalWrapper (text : String) : Outcome JsonError (Option Hardware) :=
  match parse go text.toList with
  | none => .error .syntaxError
  | some .null => .ok none
  | some (.obj entries) =>
    match Hardware.schema.decodeEmbedded entries none with
    | some hw => .ok hw
    | none => .error .unmarshalTypeError
  | some _ => .error .unmarshalTypeError

/-- `HardwareWrapper.UnmarshalJSON`. -/
def unmarshalJSON (b : String) : Outcome JsonError (Option Hardware) := do
  let tmp ← unmarshalMap b
  let tmp ←
    match tmp.lookup "metadata" with
    | some metadata => tmp.assign "metadata" (.str (marshalAny metadata))
    | none => .ok tmp
  unmarshalWrapper (marshalAny tmp)

/-- The integer fields: `lease_time` and `family` of every interface, and `version`. -/
def Hardware.integers (h : Hardware) : List Int64 :=
  (h.network.elim [] fun network => network.interfaces.flatMap fun iface => iface.elim [] fun iface =>
    iface.dhcp.elim [] fun dhcp => dhcp.leaseTime :: dhcp.ip.elim [] fun ip => [ip.family]) ++ [h.version]

/-- What a text means: numbers by their value, the last field of every key. -/
def meaning (text : String) : Option (Value ℚ) := (parse go text.toList).map fun v => (v.map Number.value).canon

/-- Both texts are empty, or they mean the same. -/
def SameText (a b : String) : Prop := (a = "" ∧ b = "") ∨ ∃ m, meaning a = some m ∧ meaning b = some m

/-- The record comes back, with another text for its metadata. -/
def RoundTrips (h : Hardware) : Prop :=
  ∃ out, marshalJSON (some h) = .ok out ∧
    ∃ m, unmarshalJSON out = .ok (some { h with metadata := m }) ∧ SameText h.metadata m

/-- The numbers of a value are the same after they have been doubles. -/
def Kept (v : Value Number) : Prop := ∀ n ∈ v.canon.numbers, (reprint n).value = n.value

instance (v : Value Number) : Decidable (Kept v) := inferInstanceAs (Decidable (∀ n ∈ v.canon.numbers, _ = _))

/-! ### Reading and writing maps -/

private theorem integers_ip (ip : IP) : IP.schema.integers ip = [ip.family] := rfl

private theorem integers_strings (l : List String) : (Codec.repeated .string).integers l = [] := by
  show l.flatMap (fun _ => []) = []
  simp

private theorem integers_dhcp (dhcp : DHCP) :
    DHCP.schema.integers dhcp = dhcp.leaseTime :: dhcp.ip.elim [] fun ip => [ip.family] := by
  show [] ++ ([] ++ ([dhcp.leaseTime] ++ ((Codec.repeated .string).integers dhcp.nameServers ++
    ((Codec.repeated .string).integers dhcp.timeServers ++
      ([] ++ ([] ++ ([] ++ (dhcp.ip.elim [] IP.schema.integers ++ [])))))))) = _
  rw [integers_strings, integers_strings, funext integers_ip]
  simp

private theorem integers_netboot (netboot : Netboot) : Netboot.schema.integers netboot = [] := by
  show [] ++ ([] ++ (netboot.ipxe.elim [] (fun _ => []) ++ (netboot.osie.elim [] (fun _ => []) ++ []))) = []
  cases netboot.ipxe <;> cases netboot.osie <;> rfl

private theorem integers_interface (iface : Interface) :
    Interface.schema.integers iface =
      iface.dhcp.elim [] fun dhcp => dhcp.leaseTime :: dhcp.ip.elim [] fun ip => [ip.family] := by
  show iface.dhcp.elim [] DHCP.schema.integers ++ (iface.netboot.elim [] Netboot.schema.integers ++ []) = _
  rw [funext integers_dhcp, funext integers_netboot]
  cases iface.netboot <;> simp

private theorem integers_eq (h : Hardware) : Hardware.schema.integers h = h.integers := by
  show h.network.elim [] (fun network =>
      (network.interfaces.flatMap fun iface => iface.elim [] Interface.schema.integers) ++ []) ++
    ([] ++ ([h.version] ++ ([] ++ []))) = _
  rw [funext integers_interface]
  simp [Hardware.integers]

private theorem unmarshalMap_marshalAny {fields : List (String × Any)} (h : (Value.obj fields).canon = .obj fields) :
    unmarshalMap (marshalAny (.obj fields)) = .ok (.obj fields) :=
  unmarshalMap_eq_ok.2 ⟨unmarshalAny_marshalAny h, Or.inr ⟨_, rfl⟩⟩

private theorem unmarshalWrapper_obj {fields : List (String × Any)} {hw : Option Hardware} :
    unmarshalWrapper (marshalAny (.obj fields)) = .ok hw ↔
      Hardware.schema.decodeEmbedded (mapFields Double.format fields) none = some hw := by
  have hparse : parse go (marshalAny (.obj fields)).toList = some (.obj (mapFields Double.format fields)) :=
    parse_marshal _
  rw [unmarshalWrapper, hparse]
  simp only
  split
  · rename_i hw' heq
    rw [heq]
    exact ⟨fun h => congrArg some (Outcome.ok.inj h), fun h => congrArg Outcome.ok (Option.some.inj h)⟩
  · rename_i heq
    rw [heq]
    exact iff_of_false nofun nofun

private theorem ne_empty_of_parse {text : String} {v : Value Number} (h : parse go text.toList = some v) :
    text ≠ "" := by
  rintro rfl
  cases h

/-- The map with the text of its metadata. -/
def stringified (fields : List (String × Any)) : List (String × Any) :=
  match fields.lookup "metadata" with
  | some metadata => Json.insert "metadata" (.str (marshalAny metadata)) fields
  | none => fields

private theorem unmarshalJSON_of_map {b : String} {fields : List (String × Any)}
    (h : unmarshalMap b = .ok (.obj fields)) :
    unmarshalJSON b = unmarshalWrapper (marshalAny (.obj (stringified fields))) := by
  rw [unmarshalJSON, h, Outcome.ok_bind, stringified]
  have hlookup : Any.lookup (.obj fields) "metadata" = fields.lookup "metadata" := rfl
  rw [hlookup]
  cases fields.lookup "metadata" with
  | some metadata => simp only [Any.assign, Outcome.ok_bind]
  | none => simp only [Outcome.ok_bind]

/-- What is written of a record. -/
private theorem marshalJSON_eq_ok {h : Hardware} {out : String} :
    marshalJSON (some h) = .ok out ↔
      (h.metadata = "" ∧ out = marshalAny (.obj (Hardware.schema.anyFields h))) ∨
      (h.metadata ≠ "" ∧ ∃ m, unmarshalMap h.metadata = .ok m ∧
        out = marshalAny (.obj (Json.insert "metadata" m (Hardware.schema.anyFields h)))) := by
  have hwByte : unmarshalMap (marshal ((Codec.message Hardware.schema).encode (some h))) =
      .ok (.obj (Hardware.schema.anyFields h)) := Schema.unmarshalMap_encodeFields h
  rw [marshalJSON, hwByte, Outcome.ok_bind]
  by_cases hm : h.metadata = ""
  · simp only [hm, ne_eq, not_true_eq_false, if_false, Outcome.ok_bind, Outcome.ok.injEq, true_and,
      false_and, or_false]
    exact eq_comm
  · simp only [hm, ne_eq, not_false_eq_true, if_true, false_and, false_or, true_and]
    cases hmap : unmarshalMap h.metadata with
    | ok m =>
      simp only [Outcome.ok_bind, Any.assign, Outcome.ok.injEq, exists_eq_left']
      exact eq_comm
    | error e => simp
    | panic => simp

/-! ### Records -/

private theorem metadataField_mem : Hardware.metadataField ∈ Hardware.schema.fields := by simp [Hardware.schema]

private theorem fieldFor_metadata : Hardware.schema.fieldFor "metadata" = some Hardware.metadataField :=
  Schema.fieldFor_name metadataField_mem

private theorem exists_field_iff (entries : List (String × Value Number)) :
    (∃ e ∈ entries, (Hardware.schema.fieldFor e.1).isSome = true) ↔
      ∃ k ∈ entries.map Prod.fst, (Hardware.schema.fieldFor k).isSome = true := by
  simp only [List.mem_map, exists_exists_and_eq_and]

private theorem exists_field_of_metadata {entries : List (String × Value Number)}
    (h : "metadata" ∈ entries.map Prod.fst) :
    ∃ e ∈ entries, (Hardware.schema.fieldFor e.1).isSome = true := by
  refine (exists_field_iff entries).2 ⟨_, h, ?_⟩
  rw [fieldFor_metadata]
  rfl

private theorem lookup_anyFields_of_empty {h : Hardware} (hm : h.metadata = "") :
    (Hardware.schema.anyFields h).lookup "metadata" = none := by
  have hempty := Schema.lookup_mapped (x := h) metadataField_mem
  have hisEmpty : Hardware.metadataField.codec.isEmpty (Hardware.metadataField.get h) = true :=
    (Hardware.metadataField.codec.isEmpty_iff _).2 hm
  rw [if_pos hisEmpty, ← Schema.mapFields_anyFields, lookup_mapFields, Option.map_eq_none_iff] at hempty
  exact hempty

/-- A record is read from its fields and another text for the metadata. -/
private theorem decodeFields_metadata {h : Hardware} {entries : List (String × Value Number)} {text m : String}
    (hnodup : (entries.map Prod.fst).Nodup) (hnames : ∀ e ∈ entries, ∃ f ∈ Hardware.schema.fields, f.name = e.1)
    (hmetadata : entries.lookup "metadata" = some (.str text))
    (hother : ∀ k, k ≠ "metadata" → entries.lookup k = (Hardware.schema.mapped h).lookup k) :
    Hardware.schema.decodeFields entries {} = some { h with metadata := m } ↔
      m = text ∧ ∀ n ∈ h.integers, Survives n := by
  have hself : Schema.Reads entries {} { h with metadata := m } Hardware.metadataField ↔ m = text := by
    rw [Schema.Reads]
    have hlookup : entries.lookup Hardware.metadataField.name = some (.str text) := hmetadata
    rw [hlookup]
    show some text = some m ↔ m = text
    rw [Option.some.injEq]
    exact eq_comm
  have hfield : ∀ f ∈ Hardware.schema.fields, f.name ≠ "metadata" →
      (Schema.Reads entries {} { h with metadata := m } f ↔ ∀ n ∈ f.codec.integers (f.get h), Survives n) := by
    intro f hf hne
    have hget : f.get { h with metadata := m } = f.get h :=
      Hardware.schema.get_set_of_ne Hardware.metadataField metadataField_mem f hf (Ne.symm hne) m h
    rw [← Schema.reads_mapped hf, Schema.Reads, Schema.Reads, hother f.name hne, hget]
    rfl
  rw [Schema.decodeFields_eq_some hnodup hnames, ← integers_eq]
  constructor
  · intro hall
    refine ⟨hself.1 (hall _ metadataField_mem), ?_⟩
    intro n hn
    obtain ⟨f, hf, hn⟩ := List.mem_flatMap.1 hn
    by_cases hne : f.name = "metadata"
    · rw [Schema.eq_of_name_eq hf metadataField_mem hne] at hn
      cases hn
    · exact (hfield f hf hne).1 (hall f hf) n hn
  · rintro ⟨hm, hints⟩ f hf
    by_cases hne : f.name = "metadata"
    · rw [Schema.eq_of_name_eq hf metadataField_mem hne]
      exact hself.2 hm
    · exact (hfield f hf hne).2 fun n hn => hints n (List.mem_flatMap.2 ⟨f, hf, hn⟩)

private theorem meaning_of_parse {text : String} {v : Value Number} (h : parse go text.toList = some v) :
    meaning text = some (v.canon.map Number.value) := by
  rw [meaning, h, Option.map_some, Value.canon_map]

private theorem meaning_marshalAny (v : Value Number) :
    meaning (marshalAny (v.map toDouble).canon) = some (v.canon.map fun n => (reprint n).value) := by
  have hparse : parse go (marshalAny (v.map toDouble).canon).toList =
    some ((v.map toDouble).canon.map Double.format) :=
    parse_marshal _
  rw [meaning_of_parse hparse]
  simp only [Value.canon_map, Value.canon_canon, Value.map_map]
  rfl

/-- A text means the same after it has been in a map exactly if its numbers are kept. -/
private theorem sameText_iff {text : String} {v : Value Number} (h : parse go text.toList = some v) :
    SameText text (marshalAny (v.map toDouble).canon) ↔ Kept v := by
  have hne := ne_empty_of_parse h
  rw [SameText, meaning_of_parse h, meaning_marshalAny, Kept, ← Value.map_eq_map]
  constructor
  · rintro (⟨hempty, -⟩ | ⟨m, hm, hm'⟩)
    · exact absurd hempty hne
    · exact Option.some.inj (hm'.trans hm.symm)
  · intro heq
    exact Or.inr ⟨_, rfl, congrArg some heq⟩

private theorem not_meaning_empty : meaning "" = none := rfl

/-- A record without metadata. -/
private theorem roundTrips_of_empty {h : Hardware} (hm : h.metadata = "") :
    RoundTrips h ↔ h ≠ {} ∧ ∀ n ∈ h.integers, Survives n := by
  have hsame : { h with metadata := "" } = h := by rw [← hm]
  have hread : ∀ hw, unmarshalJSON (marshalAny (.obj (Hardware.schema.anyFields h))) = .ok hw ↔
      Hardware.schema.decodeEmbedded (Hardware.schema.mapped h) none = some hw := by
    intro hw
    rw [unmarshalJSON_of_map (unmarshalMap_marshalAny (Schema.canon_anyFields h)), stringified,
      lookup_anyFields_of_empty hm, unmarshalWrapper_obj, Schema.mapFields_anyFields]
  have hround : RoundTrips h ↔ Hardware.schema.decodeEmbedded (Hardware.schema.mapped h) none = some (some h) := by
    rw [← hread]
    constructor
    · rintro ⟨out, hout, m, hunmarshal, hsameText⟩
      have hempty : m = "" := by
        rcases hsameText with ⟨-, hempty⟩ | ⟨v, hv, -⟩
        · exact hempty
        · rw [hm, not_meaning_empty] at hv
          cases hv
      rcases marshalJSON_eq_ok.1 hout with ⟨-, rfl⟩ | ⟨hne, -⟩
      · rwa [hempty, hsame] at hunmarshal
      · exact absurd hm hne
    · intro hunmarshal
      exact ⟨_, marshalJSON_eq_ok.2 (Or.inl ⟨hm, rfl⟩), "", by rwa [hsame], Or.inl ⟨hm, rfl⟩⟩
  rw [hround, Schema.decodeEmbedded_none, ← integers_eq, ← Schema.restore]
  by_cases hzero : h = {}
  · have hnil : Hardware.schema.mapped h = [] := Schema.mapped_eq_nil.2 hzero
    have hno : ¬ ∃ e ∈ Hardware.schema.mapped h, (Hardware.schema.fieldFor e.1).isSome = true := by
      rw [hnil]
      simp
    rw [if_neg hno]
    exact iff_of_false nofun fun hne => hne.1 hzero
  · have hex : ∃ e ∈ Hardware.schema.mapped h, (Hardware.schema.fieldFor e.1).isSome = true := by
      have hne : Hardware.schema.mapped h ≠ [] := fun hnil => hzero (Schema.mapped_eq_nil.1 hnil)
      obtain ⟨e, he⟩ := List.exists_mem_of_ne_nil _ hne
      obtain ⟨f, hf, hname⟩ := Schema.mem_mapped he
      refine ⟨e, he, ?_⟩
      rw [← hname, Schema.fieldFor_name hf]
      rfl
    rw [if_pos hex]
    simp only [Option.map_eq_some_iff, Option.some.injEq, exists_eq_right, hzero, ne_eq, not_false_eq_true, true_and]

/-- A record is read from its map with a value for the metadata, which becomes a text. -/
private theorem unmarshalJSON_insert {h : Hardware} {M : Any} (hM : M.canon = M) {m : String} :
    unmarshalJSON (marshalAny (.obj (Json.insert "metadata" M (Hardware.schema.anyFields h)))) =
      .ok (some { h with metadata := m }) ↔ m = marshalAny M ∧ ∀ n ∈ h.integers, Survives n := by
  have hsorted := (canon_obj.1 (Schema.canon_anyFields (S := Hardware.schema) h)).1
  have hcanon := canon_insert (k := "metadata") (Schema.canon_anyFields (S := Hardware.schema) h) hM
  rw [unmarshalJSON_of_map (unmarshalMap_marshalAny hcanon), stringified, lookup_insert_self, unmarshalWrapper_obj]
  set entries := mapFields Double.format (Json.insert "metadata" (.str (marshalAny M))
    (Json.insert "metadata" M (Hardware.schema.anyFields h))) with hentries
  have hkeys : ∀ k, k ∈ entries.map Prod.fst ↔ k = "metadata" ∨ k ∈ (Hardware.schema.mapped h).map Prod.fst := by
    intro k
    rw [hentries, keys_mapFields, mem_keys_insert, mem_keys_insert, ← or_assoc, or_self, ← Schema.mapFields_anyFields,
      keys_mapFields]
  have hnodup : (entries.map Prod.fst).Nodup := by
    rw [hentries, keys_mapFields]
    exact Schema.nodup_of_sorted (sorted_insert (sorted_insert hsorted))
  have hmetadata : entries.lookup "metadata" = some (.str (marshalAny M)) := by
    rw [hentries, lookup_mapFields, lookup_insert_self]
    rfl
  have hother : ∀ k, k ≠ "metadata" → entries.lookup k = (Hardware.schema.mapped h).lookup k := by
    intro k hk
    rw [hentries, lookup_mapFields, lookup_insert_of_ne _ _ hk, lookup_insert_of_ne _ _ hk, ← lookup_mapFields,
      Schema.mapFields_anyFields]
  have hnames : ∀ e ∈ entries, ∃ f ∈ Hardware.schema.fields, f.name = e.1 := by
    intro e he
    rcases (hkeys e.1).1 (List.mem_map_of_mem he) with hk | hk
    · exact ⟨_, metadataField_mem, hk.symm⟩
    · obtain ⟨e', he', heq⟩ := List.mem_map.1 hk
      rw [← heq]
      exact Schema.mem_mapped he'
  rw [Schema.decodeEmbedded_none, if_pos (exists_field_of_metadata ((hkeys "metadata").2 (Or.inl rfl)))]
  simp only [Option.map_eq_some_iff, Option.some.injEq, exists_eq_right]
  exact decodeFields_metadata hnodup hnames hmetadata hother

/-- A record with an object for its metadata. -/
private theorem roundTrips_of_object {h : Hardware} {fields : List (String × Value Number)}
    (hparse : parse go h.metadata.toList = some (.obj fields)) :
    RoundTrips h ↔ (∀ n ∈ h.integers, Survives n) ∧ (∀ n ∈ (Value.obj fields).numbers, Finite n) ∧
      Kept (.obj fields) := by
  have hne := ne_empty_of_parse hparse
  have hmap : ∀ m, unmarshalMap h.metadata = .ok m ↔
      (∀ n ∈ (Value.obj fields).numbers, Finite n) ∧ m = ((Value.obj fields).map toDouble).canon := by
    intro m
    rw [unmarshalMap_eq_ok, unmarshalAny_eq_ok]
    constructor
    · rintro ⟨⟨w, hw, hfinite, rfl⟩, -⟩
      rw [hparse] at hw
      cases hw
      exact ⟨hfinite, rfl⟩
    · rintro ⟨hfinite, rfl⟩
      exact ⟨⟨_, hparse, hfinite, rfl⟩, Or.inr ⟨_, rfl⟩⟩
  generalize hM : ((Value.obj fields).map toDouble).canon = M at hmap
  have hcanonM : M.canon = M := by rw [← hM, Value.canon_canon]
  constructor
  · rintro ⟨out, hout, m, hunmarshal, hsame⟩
    rcases marshalJSON_eq_ok.1 hout with ⟨hempty, -⟩ | ⟨-, m', hm', rfl⟩
    · exact absurd hempty hne
    · obtain ⟨hfinite, rfl⟩ := (hmap m').1 hm'
      obtain ⟨rfl, hints⟩ := (unmarshalJSON_insert hcanonM).1 hunmarshal
      rw [← hM] at hsame
      exact ⟨hints, hfinite, (sameText_iff hparse).1 hsame⟩
  · rintro ⟨hints, hfinite, hkept⟩
    refine ⟨_, marshalJSON_eq_ok.2 (Or.inr ⟨hne, M, (hmap M).2 ⟨hfinite, rfl⟩, rfl⟩), marshalAny M,
      (unmarshalJSON_insert hcanonM).2 ⟨rfl, hints⟩, ?_⟩
    rw [← hM]
    exact (sameText_iff hparse).2 hkept

private theorem roundTrips_iff {h : Hardware}
    (hmeta : h.metadata = "" ∨ ∃ fields, parse go h.metadata.toList = some (.obj fields)) :
    RoundTrips h ↔ h ≠ {} ∧ (∀ n ∈ h.integers, Survives n) ∧
      ∀ v, parse go h.metadata.toList = some v → (∀ n ∈ v.numbers, Finite n) ∧ Kept v := by
  rcases hmeta with hempty | ⟨fields, hparse⟩
  · rw [roundTrips_of_empty hempty]
    constructor
    · rintro ⟨hne, hints⟩
      exact ⟨hne, hints, fun v hv => absurd hempty (ne_empty_of_parse hv)⟩
    · rintro ⟨hne, hints, -⟩
      exact ⟨hne, hints⟩
  · rw [roundTrips_of_object hparse]
    constructor
    · rintro ⟨hints, hfinite, hkept⟩
      refine ⟨?_, hints, ?_⟩
      · rintro rfl
        exact ne_empty_of_parse hparse rfl
      · intro v hv
        rw [hparse] at hv
        cases hv
        exact ⟨hfinite, hkept⟩
    · rintro ⟨-, hints, hnumbers⟩
      exact ⟨hints, hnumbers _ hparse⟩

/-- Records with integers below `2 ^ 53` and no metadata come back. -/
theorem roundTrips_of_small {h : Hardware} (hm : h.metadata = "") (hne : h ≠ {})
    (hints : ∀ n ∈ h.integers, n.toInt.natAbs < 9007199254740992) : RoundTrips h :=
  (roundTrips_of_empty hm).2 ⟨hne, fun n hn => survives_of_natAbs_lt (hints n hn)⟩

/-! ### Documents -/

/-- The metadata of a document. -/
def documentMetadata (text : String) : Option (Value ℚ) :=
  match parse go text.toList with
  | some (.obj fields) => (last "metadata" fields).map fun v => (v.map Number.value).canon
  | _ => none

/-- The record is written, with the metadata of the document. -/
def Preserves (hw : Option Hardware) (b : String) : Prop :=
  ∃ out, marshalJSON hw = .ok out ∧ documentMetadata out = documentMetadata b

/-- The text that the fields leave in `Metadata`: keys that differ from `metadata` in case only are for it, too. -/
def spelledMetadata {ν : Type} (entries : List (String × Value ν)) (old : String) : String :=
  entries.foldl (fun s e => if equalFold "metadata".toList e.1.toList then
    (match e.2 with | .str t => t | _ => s) else s) old

/-- A document whose metadata comes back: an object or null, the numbers of which survive being doubles; or none at
all, but some other field of a record. -/
def Restorable (fields : List (String × Value Number)) : Prop :=
  match last "metadata" fields with
  | some m => (m = .null ∨ ∃ f, m = .obj f) ∧ Kept m
  | none =>
    (∃ f ∈ fields, (Hardware.schema.fieldFor f.1).isSome = true) ∧ spelledMetadata (canonFields fields) "" = ""

/-- The keys for the metadata. -/
private theorem fieldFor_eq_metadata {k : String} {f : StructField Hardware}
    (h : Hardware.schema.fieldFor k = some f) :
    f.name = "metadata" ↔ equalFold "metadata".toList k.toList = true := by
  unfold Schema.fieldFor at h
  rcases Option.or_eq_some_iff.1 h with hexact | ⟨hnone, hfold⟩
  · have hname : f.name = k := by simpa using List.find?_some hexact
    have hf := List.mem_of_find?_eq_some hexact
    rw [← hname]
    simp only [Hardware.schema, List.mem_cons, List.not_mem_nil, or_false] at hf
    rcases hf with rfl | rfl | rfl | rfl <;> decide
  · have hname : equalFold f.name.toList k.toList = true := by simpa using List.find?_some hfold
    have hf := List.mem_of_find?_eq_some hfold
    constructor
    · intro heq
      rwa [heq] at hname
    · intro hmetadata
      have hlen : f.name.toList.length = "metadata".toList.length :=
        (equalFold_length hname).trans (equalFold_length hmetadata).symm
      simp only [Hardware.schema, List.mem_cons, List.not_mem_nil, or_false] at hf
      rcases hf with rfl | rfl | rfl | rfl
      · exact absurd hlen (by decide)
      · exact absurd hlen (by decide)
      · exact absurd hlen (by decide)
      · rfl

private theorem not_equalFold_of_fieldFor {k : String} (h : Hardware.schema.fieldFor k = none) :
    equalFold "metadata".toList k.toList = false := by
  unfold Schema.fieldFor at h
  have hnone := List.find?_eq_none.1 (Option.or_eq_none_iff.1 h).2 Hardware.metadataField metadataField_mem
  simpa [Hardware.metadataField] using hnone

/-- The text that reading the fields leaves in `Metadata`. -/
private theorem metadata_of_decodeFields {entries : List (String × Value Number)} {x y : Hardware}
    (h : Hardware.schema.decodeFields entries x = some y) : y.metadata = spelledMetadata entries x.metadata := by
  induction entries generalizing x with
  | nil =>
    cases h
    rfl
  | cons e entries ih =>
    obtain ⟨k, v⟩ := e
    rw [Schema.decodeFields] at h
    rw [spelledMetadata, List.foldl_cons, ← spelledMetadata]
    cases hk : Hardware.schema.fieldFor k with
    | none =>
      rw [hk] at h
      rw [ih h]
      simp only [not_equalFold_of_fieldFor hk, Bool.false_eq_true, if_false]
    | some f =>
      rw [hk] at h
      simp only [Option.bind_eq_bind, Option.bind_eq_some_iff] at h
      obtain ⟨b, hb, h⟩ := h
      rw [ih h]
      have hf := Schema.mem_of_fieldFor hk
      by_cases hname : f.name = "metadata"
      · have hfold := (fieldFor_eq_metadata hk).1 hname
        obtain rfl := Schema.eq_of_name_eq hf metadataField_mem hname
        simp only [hfold, if_true]
        congr 1
        -- a string is taken, null leaves the text
        cases v with
        | str s =>
          cases hb
          rfl
        | null =>
          cases hb
          rfl
        | bool b => cases hb
        | num n => cases hb
        | arr items => cases hb
        | obj fields => cases hb
      · have hfold : equalFold "metadata".toList k.toList = false := by
          rw [← Bool.not_eq_true, ← fieldFor_eq_metadata hk]
          exact hname
        have hget : (f.set b x).metadata = x.metadata :=
          Hardware.schema.get_set_of_ne f hf Hardware.metadataField metadataField_mem hname b x
        simp only [hfold, Bool.false_eq_true, if_false, hget]

private theorem not_lt_of_metadata {k : String} (h : equalFold "metadata".toList k.toList = true) :
    ¬ "metadata" < k := by
  rw [String.lt_iff_toList_lt]
  exact not_lt_of_equalFold (by decide) h

/-- Of several keys for the metadata, the one in lower case is the last. -/
private theorem spelledMetadata_of_lookup {ν : Type} {entries : List (String × Value ν)} (hsorted : Sorted entries)
    {s : String}
    (h : entries.lookup "metadata" = some (.str s)) (old : String) : spelledMetadata entries old = s := by
  induction entries generalizing old with
  | nil => cases h
  | cons e entries ih =>
    obtain ⟨k, v⟩ := e
    obtain ⟨hhead, htail⟩ := List.pairwise_cons.1 hsorted
    rw [spelledMetadata, List.foldl_cons, ← spelledMetadata]
    by_cases hk : "metadata" = k
    · subst hk
      rw [List.lookup_cons_self] at h
      cases h
      have hfold : equalFold "metadata".toList "metadata".toList = true := by decide
      simp only [hfold, if_true]
      -- the keys that follow are greater
      have hrest : ∀ e ∈ entries, equalFold "metadata".toList e.1.toList = false := by
        intro e he
        rw [← Bool.not_eq_true]
        exact fun hfold => not_lt_of_metadata hfold (hhead e he)
      clear ih hhead htail hsorted
      induction entries generalizing s with
      | nil => rfl
      | cons e entries ih =>
        rw [spelledMetadata, List.foldl_cons, ← spelledMetadata]
        simp only [hrest e List.mem_cons_self, Bool.false_eq_true, if_false]
        exact ih fun e' he' => hrest e' (List.mem_cons_of_mem e he')
    · rw [lookup_cons_of_ne hk] at h
      exact ih htail h _

private theorem spelledMetadata_mapFields {ν μ : Type} (f : ν → μ) (entries : List (String × Value ν))
    (old : String) :
    spelledMetadata (mapFields f entries) old = spelledMetadata entries old := by
  induction entries generalizing old with
  | nil => rfl
  | cons e entries ih =>
    obtain ⟨k, v⟩ := e
    rw [mapFields, spelledMetadata, List.foldl_cons, ← spelledMetadata, ih, spelledMetadata, spelledMetadata,
      List.foldl_cons]
    congr 1
    cases v <;> rfl

private theorem documentMetadata_of_parse {b : String} {fields : List (String × Value Number)}
    (h : parse go b.toList = some (.obj fields)) :
    documentMetadata b = (last "metadata" fields).map fun v => v.canon.map Number.value := by
  rw [documentMetadata, h]
  simp only [Value.canon_map]

private theorem documentMetadata_marshalAny {fields : List (String × Any)}
    (h : (Value.obj fields).canon = .obj fields) :
    documentMetadata (marshalAny (.obj fields)) =
      (fields.lookup "metadata").map fun v => v.map fun x => x.format.value := by
  have hparse : parse go (marshalAny (.obj fields)).toList = some (.obj (mapFields Double.format fields)) :=
    parse_marshal _
  have hcanon : canonFields fields = fields := Value.obj.inj h
  have hlookup := lookup_canonFields "metadata" fields
  rw [hcanon] at hlookup
  rw [documentMetadata_of_parse hparse, last_mapFields, hlookup, Option.map_map, Option.map_map]
  congr 1
  funext v
  simp only [Function.comp_apply, Value.canon_map, Value.map_map]

private theorem marshalJSON_none : marshalJSON none = .panic := by
  have hnull : unmarshalMap (marshal ((Codec.message Hardware.schema).encode none)) = .ok .null := by
    refine unmarshalMap_eq_ok.2 ⟨unmarshalAny_marshal ?_, Or.inl rfl⟩
    exact fun n hn => absurd hn (by simp [Codec.message, Value.numbers])
  rw [marshalJSON, hnull]
  rfl

private theorem not_preserves_none (b : String) : ¬ Preserves none b := by
  rintro ⟨out, hout, -⟩
  rw [marshalJSON_none] at hout
  cases hout

private theorem unmarshalJSON_of_parse {b : String} {fields : List (String × Value Number)} {hw : Option Hardware}
    (hparse : parse go b.toList = some (.obj fields)) (hfinite : ∀ n ∈ (Value.obj fields).numbers, Finite n) :
    unmarshalJSON b = .ok hw ↔ Hardware.schema.decodeEmbedded
      (mapFields Double.format (stringified (canonFields (mapFields toDouble fields)))) none = some hw := by
  have hmap : unmarshalMap b = .ok (.obj (canonFields (mapFields toDouble fields))) :=
    unmarshalMap_eq_ok.2 ⟨unmarshalAny_eq_ok.2 ⟨_, hparse, hfinite, rfl⟩, Or.inr ⟨_, rfl⟩⟩
  rw [unmarshalJSON_of_map hmap, unmarshalWrapper_obj]

/-- A map with metadata is read as a record with the text of it. -/
private theorem exists_of_lookup {fields : List (String × Any)} {M : Any} {hw : Option Hardware}
    (hsorted : Sorted fields) (hlookup : fields.lookup "metadata" = some M)
    (hread : Hardware.schema.decodeEmbedded (mapFields Double.format (stringified fields)) none = some hw) :
    ∃ h, hw = some h ∧ h.metadata = marshalAny M := by
  have hstring : stringified fields = Json.insert "metadata" (.str (marshalAny M)) fields := by
    rw [stringified, hlookup]
  rw [hstring, Schema.decodeEmbedded_none] at hread
  have hkey : "metadata" ∈
      (mapFields Double.format (Json.insert "metadata" (.str (marshalAny M)) fields)).map Prod.fst := by
    rw [keys_mapFields, mem_keys_insert]
    exact Or.inl rfl
  rw [if_pos (exists_field_of_metadata hkey), Option.map_eq_some_iff] at hread
  obtain ⟨h, hdecode, rfl⟩ := hread
  refine ⟨h, rfl, ?_⟩
  rw [metadata_of_decodeFields hdecode, spelledMetadata_mapFields]
  exact spelledMetadata_of_lookup (sorted_insert hsorted) (lookup_insert_self _ _ _) _

/-- A document with metadata. -/
private theorem preserves_of_metadata {b : String} {fields : List (String × Value Number)} {hw : Option Hardware}
    {m : Value Number}
    (hparse : parse go b.toList = some (.obj fields)) (hfinite : ∀ n ∈ (Value.obj fields).numbers, Finite n)
    (hb : unmarshalJSON b = .ok hw) (hm : last "metadata" fields = some m) :
    Preserves hw b ↔ (m = .null ∨ ∃ f, m = .obj f) ∧ Kept m := by
  have hread := (unmarshalJSON_of_parse hparse hfinite).1 hb
  have hlookup : (canonFields (mapFields toDouble fields)).lookup "metadata" = some (m.map toDouble).canon := by
    rw [lookup_canonFields, last_mapFields, hm]
    rfl
  obtain ⟨h, rfl, htext⟩ := exists_of_lookup (sorted_canonFields _) hlookup hread
  have hcanon : (m.map toDouble).canon.canon = (m.map toDouble).canon := Value.canon_canon _
  have hne : h.metadata ≠ "" := by
    rw [htext]
    exact ne_empty_of_parse (parse_marshal _)
  have hmap : ∀ m', unmarshalMap h.metadata = .ok m' ↔
      m' = (m.map toDouble).canon ∧ (m = .null ∨ ∃ f, m = .obj f) := by
    intro m'
    rw [htext, unmarshalMap_eq_ok, unmarshalAny_marshalAny hcanon, Outcome.ok.injEq, eq_comm]
    refine and_congr_right ?_
    rintro rfl
    cases m <;> simp [Value.map, Value.canon]
  have hmetadata : documentMetadata (marshalAny (.obj
      (Json.insert "metadata" (m.map toDouble).canon (Hardware.schema.anyFields h)))) =
      some (m.canon.map fun n => (reprint n).value) := by
    rw [documentMetadata_marshalAny (canon_insert (Schema.canon_anyFields h) hcanon), lookup_insert_self]
    simp only [Option.map_some, Value.canon_map, Value.map_map]
    rfl
  have hdocument : documentMetadata b = some (m.canon.map Number.value) := by
    rw [documentMetadata_of_parse hparse, hm, Option.map_some]
  have hkept : some (m.canon.map fun n => (reprint n).value) = some (m.canon.map Number.value) ↔ Kept m := by
    rw [Option.some.injEq, Value.map_eq_map, Kept]
  constructor
  · rintro ⟨out, hout, hsame⟩
    rcases marshalJSON_eq_ok.1 hout with ⟨hempty, -⟩ | ⟨-, m', hm', rfl⟩
    · exact absurd hempty hne
    · obtain ⟨rfl, hkind⟩ := (hmap m').1 hm'
      rw [hmetadata, hdocument] at hsame
      exact ⟨hkind, hkept.1 hsame⟩
  · rintro ⟨hkind, hnumbers⟩
    refine ⟨_, marshalJSON_eq_ok.2 (Or.inr ⟨hne, _, (hmap _).2 ⟨rfl, hkind⟩, rfl⟩), ?_⟩
    rw [hmetadata, hdocument]
    exact hkept.2 hnumbers

/-- A document without metadata. -/
private theorem preserves_of_none {b : String} {fields : List (String × Value Number)} {hw : Option Hardware}
    (hparse : parse go b.toList = some (.obj fields)) (hfinite : ∀ n ∈ (Value.obj fields).numbers, Finite n)
    (hb : unmarshalJSON b = .ok hw) (hm : last "metadata" fields = none) :
    Preserves hw b ↔
      (∃ f ∈ fields, (Hardware.schema.fieldFor f.1).isSome = true) ∧
        spelledMetadata (canonFields fields) "" = "" := by
  have hread := (unmarshalJSON_of_parse hparse hfinite).1 hb
  have hstring : stringified (canonFields (mapFields toDouble fields)) = mapFields toDouble (canonFields fields) := by
    rw [stringified, lookup_canonFields, last_mapFields, hm]
    exact Value.obj.inj (Value.canon_map toDouble (.obj fields))
  have hkeys : (∃ e ∈ mapFields Double.format (mapFields toDouble (canonFields fields)),
      (Hardware.schema.fieldFor e.1).isSome = true) ↔ ∃ f ∈ fields, (Hardware.schema.fieldFor f.1).isSome = true := by
    rw [exists_field_iff, exists_field_iff, keys_mapFields, keys_mapFields]
    simp only [mem_keys_canonFields]
  rw [hstring, Schema.decodeEmbedded_none] at hread
  simp only [hkeys] at hread
  have hdocument : documentMetadata b = none := by
    rw [documentMetadata_of_parse hparse, hm, Option.map_none]
  split at hread
  · rename_i hex
    obtain ⟨h, hdecode, rfl⟩ := Option.map_eq_some_iff.1 hread
    have htext : h.metadata = spelledMetadata (canonFields fields) "" := by
      rw [metadata_of_decodeFields hdecode, spelledMetadata_mapFields, spelledMetadata_mapFields]
      rfl
    rw [← htext]
    constructor
    · rintro ⟨out, hout, hsame⟩
      refine ⟨hex, ?_⟩
      rcases marshalJSON_eq_ok.1 hout with ⟨hempty, -⟩ | ⟨-, m, hmap, rfl⟩
      · exact hempty
      · have hcanon := unmarshalMap_canon hmap
        rw [hdocument, documentMetadata_marshalAny (canon_insert (Schema.canon_anyFields h) hcanon),
          lookup_insert_self] at hsame
        cases hsame
    · rintro ⟨-, hempty⟩
      refine ⟨_, marshalJSON_eq_ok.2 (Or.inl ⟨hempty, rfl⟩), ?_⟩
      rw [hdocument, documentMetadata_marshalAny (Schema.canon_anyFields h), lookup_anyFields_of_empty hempty,
        Option.map_none]
  · rename_i hex
    cases hread
    exact iff_of_false (not_preserves_none b) fun hrest => hex hrest.1

private theorem preserves_iff {b : String} {hw : Option Hardware} (hb : unmarshalJSON b = .ok hw) :
    Preserves hw b ↔ ∃ fields, parse go b.toList = some (.obj fields) ∧ Restorable fields := by
  obtain ⟨tmp, hmap, hrest⟩ := Outcome.bind_eq_ok.1 hb
  obtain ⟨hany, hkind⟩ := unmarshalMap_eq_ok.1 hmap
  obtain ⟨v, hparse, hfinite, rfl⟩ := unmarshalAny_eq_ok.1 hany
  cases v with
  | obj fields =>
    have hiff : Preserves hw b ↔ Restorable fields := by
      unfold Restorable
      split
      · rename_i m hm
        exact preserves_of_metadata hparse hfinite hb hm
      · rename_i hm
        exact preserves_of_none hparse hfinite hb hm
    rw [hiff]
    constructor
    · intro h
      exact ⟨fields, hparse, h⟩
    · rintro ⟨fields', hparse', h⟩
      rw [hparse] at hparse'
      cases hparse'
      exact h
  | null =>
    -- a nil map is written as null, and nothing is read from it
    have hnil : hw = none := by
      have hread : unmarshalWrapper (marshalAny .null) = .ok hw := hrest
      have hnull : parse go (marshalAny .null).toList = some .null := parse_marshal _
      rw [unmarshalWrapper, hnull] at hread
      exact (Outcome.ok.inj hread).symm
    subst hnil
    refine iff_of_false (not_preserves_none b) ?_
    rintro ⟨fields, hparse', -⟩
    rw [hparse] at hparse'
    cases hparse'
  | bool c => simp [Value.map, Value.canon] at hkind
  | num n => simp [Value.map, Value.canon] at hkind
  | str s => simp [Value.map, Value.canon] at hkind
  | arr items => simp [Value.map, Value.canon] at hkind

/-- A record comes back exactly if it is not empty and its integers and the numbers of its metadata survive being
doubles; the metadata of a document comes back exactly if the document is restorable. -/
theorem wrapper_round_trip_iff (h : Hardware)
    (hmeta : h.metadata = "" ∨ ∃ fields, parse go h.metadata.toList = some (.obj fields))
    (b : String) (hw : Option Hardware) (hb : unmarshalJSON b = .ok hw) :
    (RoundTrips h ↔ h ≠ {} ∧ (∀ n ∈ h.integers, Survives n) ∧
      ∀ v, parse go h.metadata.toList = some v → (∀ n ∈ v.numbers, Finite n) ∧ Kept v) ∧
    (Preserves hw b ↔ ∃ fields, parse go b.toList = some (.obj fields) ∧ Restorable fields) :=
  ⟨roundTrips_iff hmeta, preserves_iff hb⟩

theorem wrapper_round_trip_small :
    let h : Hardware := { id := "a", version := 7, metadata := "\x7b\"n\":0.5\x7d" }
    let b := "\x7b\"id\":\"a\",\"metadata\":\x7b\"n\":1e2\x7d\x7d"
    let hw : Hardware := { id := "a", metadata := "\x7b\"n\":100\x7d" }
    RoundTrips h ∧ unmarshalJSON b = .ok (some hw) ∧ Preserves (some hw) b := by
  intro h b hw
  have hb : unmarshalJSON b = .ok (some hw) := by decide +kernel
  have hmeta : parse go h.metadata.toList = some (.obj [("n", .num ⟨['0', '.', '5'], by decide⟩)]) := by
    have htext : h.metadata = marshal (.obj [("n", .num ⟨['0', '.', '5'], by decide⟩)]) := by decide +kernel
    rw [htext, parse_marshal]
  have hdocument : parse go b.toList =
      some (.obj [("id", .str "a"), ("metadata", .obj [("n", .num ⟨['1', 'e', '2'], by decide⟩)])]) := by
    have htext : b = marshal (.obj
        [("id", .str "a"), ("metadata", .obj [("n", .num ⟨['1', 'e', '2'], by decide⟩)])]) := by
      decide +kernel
    rw [htext, parse_marshal]
  have hints : ∀ n ∈ h.integers, Survives n := by
    intro n hn
    cases List.mem_singleton.1 hn
    decide +kernel
  obtain ⟨hround, hpreserves⟩ := wrapper_round_trip_iff h (Or.inr ⟨_, hmeta⟩) b (some hw) hb
  refine ⟨hround.2 ⟨by decide, hints, ?_⟩, hb, hpreserves.2 ⟨_, hdocument, ?_⟩⟩
  · intro v hv
    rw [hmeta] at hv
    cases hv
    exact ⟨by decide +kernel, by decide +kernel⟩
  · exact ⟨Or.inr ⟨_, rfl⟩, by decide +kernel⟩

/-- A version above `2 ^ 53` is rounded; the empty record comes back as a nil pointer, which cannot be written. -/
theorem version_rounded :
    marshalJSON (some { version := 9007199254740993 }) = .ok "\x7b\"version\":9007199254740992\x7d" ∧
    unmarshalJSON "\x7b\"version\":9007199254740992\x7d" = .ok (some { version := 9007199254740992 }) ∧
    ¬ RoundTrips { version := 9007199254740993 } ∧
    unmarshalJSON "\x7b\x7d" = .ok none ∧ marshalJSON none = .panic ∧ ¬ Preserves none "\x7b\x7d" := by
  have hout : marshalJSON (some { version := 9007199254740993 }) = .ok "\x7b\"version\":9007199254740992\x7d" := by
    decide +kernel
  have hback : unmarshalJSON "\x7b\"version\":9007199254740992\x7d" = .ok (some { version := 9007199254740992 }) := by
    decide +kernel
  refine ⟨hout, hback, ?_, by decide +kernel, marshalJSON_none, not_preserves_none _⟩
  rintro ⟨out, hout', m, hread, -⟩
  rw [hout] at hout'
  cases hout'
  rw [hback] at hread
  injection hread with hread
  injection hread with hread
  injection hread with _ _ hversion
  exact absurd hversion (by decide)

end Tink.Pkg
