import Tink.Lib.Binary64
import Tink.Lib.JsonPrint
import Tink.Lib.Outcome

/-!
# JSON in Go

`Marshal` and `Unmarshal` of `encoding/json`, for variables of type `interface{}` and `map[string]interface{}`, where
numbers are doubles and a nil map is null, and for structs (`Schema`): a field that is empty is left out, a key stands
for the field with its name, or else for the first one whose name differs from it in case only, and other keys are
skipped.

A struct whose text has been read into a map and written again is read as the same struct exactly if its integers
survive being doubles (`Schema.restore`).
-/

namespace Json

/-- The errors of `Unmarshal`, without their texts. -/
inductive JsonError where
  | syntaxError
  | unmarshalTypeError
deriving DecidableEq

/-- A value of type `interface{}`; the fields of a map are in the order in which it is written. -/
abbrev Any := Value Double

/-- Reads a text into a variable of type `interface{}`. -/
def unmarshalAny (text : String) : Outcome JsonError Any :=
  match parse go text.toList with
  | none => .error .syntaxError
  | some v => if ∀ n ∈ v.numbers, Finite n then .ok (v.map toDouble).canon else .error .unmarshalTypeError

/-- Reads a text into a variable of type `map[string]interface{}`. -/
def unmarshalMap (text : String) : Outcome JsonError Any := do
  match ← unmarshalAny text with
  | .obj fields => .ok (.obj fields)
  | .null => .ok .null
  | _ => .error .unmarshalTypeError

def marshal (v : Value Number) : String := String.ofList (print v)

def marshalAny (v : Any) : String := marshal (v.map Double.format)

/-- `m[k]`, if there is such a key. -/
def Any.lookup (m : Any) (k : String) : Option Any :=
  match m with
  | .obj fields => fields.lookup k
  | _ => none

/-- `m[k] = v`; a nil map has no place for it. -/
def Any.assign (m : Any) (k : String) (v : Any) : Outcome JsonError Any :=
  match m with
  | .obj fields => .ok (.obj (insert k v fields))
  | _ => .panic

/-! ### Reading what has been written -/

@[simp] theorem toDouble_format (x : Double) : toDouble x.format = x := by
  rw [toDouble, Double.ofNumber_format, Option.getD_some]

private theorem finite_format (x : Double) : Finite x.format := by
  rw [Finite, Double.ofNumber_format]
  rfl

theorem parse_marshal (v : Value Number) : parse go (marshal v).toList = some v := by
  rw [marshal, String.toList_ofList, parse_print]

theorem unmarshalAny_marshal {v : Value Number} (h : ∀ n ∈ v.numbers, Finite n) :
    unmarshalAny (marshal v) = .ok (v.map toDouble).canon := by
  rw [unmarshalAny, parse_marshal]
  simp only
  rw [if_pos h]

theorem unmarshalAny_marshalAny {v : Any} (h : v.canon = v) : unmarshalAny (marshalAny v) = .ok v := by
  have hfinite : ∀ n ∈ (v.map Double.format).numbers, Finite n := by
    intro n hn
    obtain ⟨x, -, rfl⟩ := numbers_map _ v n hn
    exact finite_format x
  have hsame : v.map (fun x => toDouble x.format) = v.map fun x => x :=
    Value.map_eq_map.2 fun x _ => toDouble_format x
  rw [marshalAny, unmarshalAny_marshal hfinite, Value.map_map, hsame, Value.map_id, h]

theorem unmarshalAny_eq_ok {text : String} {v : Any} :
    unmarshalAny text = .ok v ↔
      ∃ w, parse go text.toList = some w ∧ (∀ n ∈ w.numbers, Finite n) ∧ v = (w.map toDouble).canon := by
  unfold unmarshalAny
  split
  · rename_i hnone
    simp [hnone]
  · rename_i w hw
    rw [hw]
    split
    · rename_i hfinite
      constructor
      · intro h
        cases h
        exact ⟨w, rfl, hfinite, rfl⟩
      · rintro ⟨w', heq, -, rfl⟩
        cases heq
        rfl
    · rename_i hfinite
      refine iff_of_false nofun ?_
      rintro ⟨w', heq, hfinite', -⟩
      cases heq
      exact hfinite hfinite'

theorem unmarshalMap_eq_ok {text : String} {m : Any} :
    unmarshalMap text = .ok m ↔ unmarshalAny text = .ok m ∧ (m = .null ∨ ∃ fields, m = .obj fields) := by
  rw [unmarshalMap, Outcome.bind_eq_ok]
  constructor
  · rintro ⟨v, hv, h⟩
    split at h
    · cases h
      exact ⟨hv, Or.inr ⟨_, rfl⟩⟩
    · cases h
      exact ⟨hv, Or.inl rfl⟩
    · cases h
  · rintro ⟨hv, rfl | ⟨fields, rfl⟩⟩
    · exact ⟨_, hv, rfl⟩
    · exact ⟨_, hv, rfl⟩

theorem unmarshalMap_canon {text : String} {m : Any} (h : unmarshalMap text = .ok m) : m.canon = m := by
  obtain ⟨w, -, -, rfl⟩ := unmarshalAny_eq_ok.1 (unmarshalMap_eq_ok.1 h).1
  exact Value.canon_canon _

/-! ### Integers -/

/-- An integer field is read with `strconv.ParseInt`. -/
def toInt64? (n : Number) : Option Int64 :=
  (readInt n.text).bind fun i =>
    if -9223372036854775808 ≤ i ∧ i ≤ 9223372036854775807 then some (Int64.ofInt i) else none

/-- The integer is the same after it has been a double. -/
def Survives (n : Int64) : Prop := toInt64? (reprint (Number.ofInt n.toInt)) = some n

instance (n : Int64) : Decidable (Survives n) := inferInstanceAs (Decidable (_ = _))

private theorem finite_ofInt (n : Int64) : Finite (Number.ofInt n.toInt) := by
  have hle : ((n.toInt.natAbs : ℕ) : ℚ) ≤ (2 : ℚ) ^ (63 : ℤ) := by
    have hlow := n.le_toInt
    have hhigh := n.toInt_lt
    have hnat : n.toInt.natAbs ≤ 9223372036854775808 := by omega
    have hpow : (2 : ℚ) ^ (63 : ℤ) = ((9223372036854775808 : ℕ) : ℚ) := by norm_num
    rw [hpow]
    exact Nat.cast_le.2 hnat
  have hround := roundDouble_le_zpow (Nat.cast_nonneg _) (by norm_num) hle
  have hlt : roundDouble (Number.ofInt n.toInt).parts.abs < tooLarge := by
    rw [Number.abs_ofInt]
    exact hround.trans_lt (zpow_lt_zpow_right₀ (by norm_num) (by norm_num))
  rw [Finite, Double.ofNumber, dif_pos hlt]
  rfl

/-- Integers below `2 ^ 53` survive. -/
theorem survives_of_natAbs_lt {n : Int64} (h : n.toInt.natAbs < 9007199254740992) : Survives n := by
  obtain ⟨x, hx⟩ := Option.isSome_iff_exists.1 (finite_ofInt n)
  obtain ⟨hneg, habs⟩ := Double.ofNumber_eq_some.1 hx
  rw [Number.abs_ofInt, roundDouble_natCast h] at habs
  have hsign : x.neg = decide (n.toInt < 0) := by
    rw [← hneg, Number.ofInt, parts_literal]
  have hread : readInt (reprint (Number.ofInt n.toInt)).text = some n.toInt := by
    rw [reprint, toDouble, hx, Option.getD_some, readInt_format habs.symm h, hsign]
    congr 1
    by_cases hlt : n.toInt < 0
    · simp only [hlt, decide_true, if_true]
      omega
    · simp only [hlt, decide_false, Bool.false_eq_true, if_false]
      omega
  have hrange : -9223372036854775808 ≤ n.toInt ∧ n.toInt ≤ 9223372036854775807 := by omega
  rw [Survives, toInt64?, hread, Option.bind_some, if_pos hrange, Int64.ofInt_toInt]

/-! ### Codecs -/

/-- What a value is after it has been read into a map and written again. -/
def Value.reprinted (v : Value Number) : Value Number := (v.map reprint).canon

/-- How values of a type are written and read.  Reading has the value that the variable had before; null leaves it,
unless the type has a nil value. -/
structure Codec (β : Type) where
  zero : β
  isEmpty : β → Bool
  encode : β → Value Number
  decode : Value Number → β → Option β
  integers : β → List Int64
  isEmpty_iff : ∀ b, isEmpty b = true ↔ b = zero
  survives_zero : ∀ n ∈ integers zero, Survives n
  finite : ∀ b, ∀ n ∈ (encode b).numbers, Finite n
  restore : ∀ b, decode (encode b).reprinted zero = some b ↔ ∀ n ∈ integers b, Survives n

def Codec.string : Codec String where
  zero := ""
  isEmpty s := s == ""
  encode := .str
  decode
    | .str s, _ => some s
    | .null, old => some old
    | _, _ => none
  integers _ := []
  isEmpty_iff _ := by simp
  survives_zero := by simp
  finite _ := by simp [Value.numbers]
  restore _ := by simp [Value.reprinted, Value.map, Value.canon]

def Codec.bool : Codec Bool where
  zero := false
  isEmpty b := !b
  encode := .bool
  decode
    | .bool b, _ => some b
    | .null, old => some old
    | _, _ => none
  integers _ := []
  isEmpty_iff _ := by simp
  survives_zero := by simp
  finite _ := by simp [Value.numbers]
  restore _ := by simp [Value.reprinted, Value.map, Value.canon]

def Codec.int64 : Codec Int64 where
  zero := 0
  isEmpty n := n == 0
  encode n := .num (Number.ofInt n.toInt)
  decode
    | .num n, _ => toInt64? n
    | .null, old => some old
    | _, _ => none
  integers n := [n]
  isEmpty_iff _ := by simp
  survives_zero := by
    intro n hn
    cases List.mem_singleton.1 hn
    decide +kernel
  finite n := by
    intro m hm
    cases List.mem_singleton.1 hm
    exact finite_ofInt n
  restore n := by simp [Value.reprinted, Value.map, Value.canon, Survives]

/-- The items of a slice, each one read into the one that was there before. -/
def decodeItems {β : Type} (decode : Value Number → β → Option β) (zero : β) :
    List (Value Number) → List β → Option (List β)
  | [], _ => some []
  | v :: items, old => do
    let b ← decode v (old.head?.getD zero)
    let bs ← decodeItems decode zero items old.tail
    some (b :: bs)

private theorem decodeItems_eq_some {β : Type} {decode : Value Number → β → Option β} {zero : β}
    {enc : β → Value Number}
    {bs : List β} : decodeItems decode zero (bs.map enc) [] = some bs ↔ ∀ b ∈ bs, decode (enc b) zero = some b := by
  induction bs with
  | nil => simp [decodeItems]
  | cons b bs ih =>
    rw [List.map_cons, decodeItems, List.forall_mem_cons, ← ih]
    simp only [List.head?_nil, Option.getD_none, List.tail_nil, Option.bind_eq_bind, Option.bind_eq_some_iff,
      Option.some.injEq, List.cons.injEq]
    constructor
    · rintro ⟨b', hb, bs', hbs, rfl, rfl⟩
      exact ⟨hb, hbs⟩
    · rintro ⟨hb, hbs⟩
      exact ⟨b, hb, bs, hbs, rfl, rfl⟩

/-- A slice. -/
def Codec.repeated {β : Type} (c : Codec β) : Codec (List β) where
  zero := []
  isEmpty := List.isEmpty
  encode bs := .arr (bs.map c.encode)
  decode
    | .arr items, old => decodeItems c.decode c.zero items old
    | .null, _ => some []
    | _, _ => none
  integers bs := bs.flatMap c.integers
  isEmpty_iff _ := by simp
  survives_zero := by simp
  finite bs := by
    intro n hn
    obtain ⟨v, hv, hn⟩ := mem_itemNumbers.1 hn
    obtain ⟨b, -, rfl⟩ := List.mem_map.1 hv
    exact c.finite b n hn
  restore bs := by
    have harr : (Value.arr (bs.map c.encode)).reprinted = .arr (bs.map fun b => (c.encode b).reprinted) := by
      simp [Value.reprinted, Value.map, Value.canon, mapItems_eq_map, canonItems_eq_map, Function.comp_def]
    rw [harr]
    simp only [decodeItems_eq_some, c.restore, List.mem_flatMap]
    constructor
    · rintro h n ⟨b, hb, hn⟩
      exact h b hb n hn
    · intro h b hb n hn
      exact h n ⟨b, hb, hn⟩

/-! ### Structs -/

/-- A field of a struct, with the name of its tag. -/
structure StructField (α : Type) where
  name : String
  {β : Type}
  codec : Codec β
  get : α → β
  set : β → α → α

/-- The fields of a struct. -/
structure Schema (α : Type) where
  fields : List (StructField α)
  zero : α
  nodup : (fields.map StructField.name).Nodup
  get_zero : ∀ f ∈ fields, f.get zero = f.codec.zero
  get_set : ∀ f ∈ fields, ∀ b x, f.get (f.set b x) = b
  get_set_of_ne : ∀ f ∈ fields, ∀ g ∈ fields, f.name ≠ g.name → ∀ b x, g.get (f.set b x) = g.get x
  ext : ∀ x y, (∀ f ∈ fields, f.get x = f.get y) → x = y

/-- The same letter in upper or lower case, or the sign for it outside ASCII. -/
def sameLetter (s t : Char) : Bool :=
  s.toLower == t.toLower || (s.toLower == 's' && t.toNat == 0x17f) || (s.toLower == 'k' && t.toNat == 0x212a)

def equalFold : List Char → List Char → Bool
  | [], [] => true
  | s :: ss, t :: ts => sameLetter s t && equalFold ss ts
  | _, _ => false

theorem equalFold_length {s t : List Char} (h : equalFold s t = true) : s.length = t.length := by
  induction s generalizing t with
  | nil =>
    cases t with
    | nil => rfl
    | cons c t => cases h
  | cons c s ih =>
    cases t with
    | nil => cases h
    | cons c' t =>
      rw [equalFold, Bool.and_eq_true] at h
      rw [List.length_cons, List.length_cons, ih h.2]

/-- A key with letters in upper case stands in front of the name in lower case. -/
theorem not_lt_of_equalFold {s t : List Char} (hs : s.all (fun c => c.toLower == c && c != 's' && c != 'k') = true)
    (h : equalFold s t = true) : ¬ s < t := by
  induction s generalizing t with
  | nil =>
    cases t with
    | nil => exact List.not_lt_nil []
    | cons c t => cases h
  | cons c s ih =>
    cases t with
    | nil => cases h
    | cons c' t =>
      rw [equalFold, Bool.and_eq_true] at h
      rw [List.all_cons, Bool.and_eq_true] at hs
      obtain ⟨⟨hlower, hess⟩, hkay⟩ : (c.toLower = c ∧ c ≠ 's') ∧ c ≠ 'k' := by simpa using hs.1
      have hsame : c = c'.toLower := by simpa [sameLetter, hlower, hess, hkay] using h.1
      have hle : c' ≤ c := hsame ▸ Pg.le_toLower c'
      rw [List.cons_lt_cons_iff, not_or]
      refine ⟨Char.not_lt.2 hle, ?_⟩
      rintro ⟨-, hlt⟩
      exact ih hs.2 h.2 hlt

namespace Schema

variable {α : Type} (S : Schema α)

/-- The field that a key stands for. -/
def fieldFor (k : String) : Option (StructField α) :=
  (S.fields.find? fun f => f.name == k).or (S.fields.find? fun f => equalFold f.name.toList k.toList)

/-- The fields that are written. -/
def encodeFields (x : α) : List (String × Value Number) :=
  S.fields.filterMap fun f => if f.codec.isEmpty (f.get x) then none else some (f.name, f.codec.encode (f.get x))

/-- Reads the fields of an object into a struct. -/
def decodeFields : List (String × Value Number) → α → Option α
  | [], x => some x
  | (k, v) :: entries, x =>
    match S.fieldFor k with
    | none => decodeFields entries x
    | some f => do
      let b ← f.codec.decode v (f.get x)
      decodeFields entries (f.set b x)

/-- Reads the fields of an object into the struct that a pointer embedded in another struct points to; it is made with
the first key that stands for one of its fields. -/
def decodeEmbedded : List (String × Value Number) → Option α → Option (Option α)
  | [], old => some old
  | (k, v) :: entries, old =>
    match S.fieldFor k with
    | none => decodeEmbedded entries old
    | some f => do
      let x := old.getD S.zero
      let b ← f.codec.decode v (f.get x)
      decodeEmbedded entries (some (f.set b x))

def integers (x : α) : List Int64 := S.fields.flatMap fun f => f.codec.integers (f.get x)

variable {S}

theorem eq_of_name_eq {f g : StructField α} (hf : f ∈ S.fields) (hg : g ∈ S.fields) (h : f.name = g.name) : f = g :=
  List.inj_on_of_nodup_map S.nodup hf hg h

theorem mem_of_fieldFor {k : String} {f : StructField α} (h : S.fieldFor k = some f) : f ∈ S.fields := by
  unfold fieldFor at h
  rcases Option.or_eq_some_iff.1 h with h | ⟨-, h⟩
  · exact List.mem_of_find?_eq_some h
  · exact List.mem_of_find?_eq_some h

theorem fieldFor_name {f : StructField α} (hf : f ∈ S.fields) : S.fieldFor f.name = some f := by
  cases hfind : S.fields.find? fun g => g.name == f.name with
  | none =>
    have hnone := List.find?_eq_none.1 hfind f hf
    simp at hnone
  | some g =>
    have hname : g.name = f.name := by simpa using List.find?_some hfind
    have hg := List.mem_of_find?_eq_some hfind
    rw [fieldFor, hfind, eq_of_name_eq hg hf hname]
    rfl

/-- What reading the entries makes of a field. -/
def Reads (entries : List (String × Value Number)) (x y : α) (f : StructField α) : Prop :=
  match entries.lookup f.name with
  | none => f.get y = f.get x
  | some v => f.codec.decode v (f.get x) = some (f.get y)

/-- Entries with different keys, each of them the name of a field, are read field by field. -/
theorem decodeFields_eq_some {entries : List (String × Value Number)} {x y : α}
    (hnodup : (entries.map Prod.fst).Nodup) (hnames : ∀ e ∈ entries, ∃ f ∈ S.fields, f.name = e.1) :
    S.decodeFields entries x = some y ↔ ∀ f ∈ S.fields, Reads entries x y f := by
  induction entries generalizing x with
  | nil =>
    rw [decodeFields, Option.some.injEq]
    constructor
    · rintro rfl f -
      exact rfl
    · intro h
      exact S.ext x y fun f hf => (h f hf).symm
  | cons e entries ih =>
    obtain ⟨k, v⟩ := e
    obtain ⟨g, hg, rfl⟩ := hnames (k, v) List.mem_cons_self
    rw [List.map_cons, List.nodup_cons] at hnodup
    have ih := fun x => @ih x hnodup.2 fun e he => hnames e (List.mem_cons_of_mem _ he)
    have hlast : entries.lookup g.name = none := by
      rw [List.lookup_eq_none_iff]
      intro e he
      have hmem : e.1 ∈ entries.map Prod.fst := List.mem_map_of_mem he
      have hne : g.name ≠ e.1 := fun heq => hnodup.1 (heq ▸ hmem)
      simpa using hne
    -- the first entry is for one field, and leaves the other ones alone
    have hself : Reads ((g.name, v) :: entries) x y g ↔ g.codec.decode v (g.get x) = some (g.get y) := by
      rw [Reads, List.lookup_cons_self]
    have hother : ∀ f ∈ S.fields, f.name ≠ g.name → ∀ b,
        (Reads ((g.name, v) :: entries) x y f ↔ Reads entries (g.set b x) y f) := by
      intro f hf hne b
      rw [Reads, Reads, lookup_cons_of_ne hne, S.get_set_of_ne g hg f hf hne.symm]
    have hset : ∀ b, Reads entries (g.set b x) y g ↔ g.get y = b := by
      intro b
      rw [Reads, hlast, S.get_set g hg]
    rw [decodeFields, fieldFor_name hg]
    simp only [Option.bind_eq_bind, Option.bind_eq_some_iff, ih]
    constructor
    · rintro ⟨b, hb, hrest⟩ f hf
      by_cases hne : f.name = g.name
      · rw [eq_of_name_eq hf hg hne, hself, hb, (hset b).1 (hrest g hg)]
      · exact (hother f hf hne b).2 (hrest f hf)
    · intro h
      refine ⟨g.get y, hself.1 (h g hg), ?_⟩
      intro f hf
      by_cases hne : f.name = g.name
      · rw [eq_of_name_eq hf hg hne]
        exact (hset _).2 rfl
      · exact (hother f hf hne _).1 (h f hf)

private theorem mem_encodeFields {x : α} {e : String × Value Number} (h : e ∈ S.encodeFields x) :
    ∃ f ∈ S.fields, e = (f.name, f.codec.encode (f.get x)) := by
  obtain ⟨f, hf, heq⟩ := List.mem_filterMap.1 h
  split at heq
  · cases heq
  · exact ⟨f, hf, (Option.some.inj heq).symm⟩

private theorem last_filterMap {fs : List (StructField α)} (hnodup : (fs.map StructField.name).Nodup) {x : α}
    {f : StructField α} (hf : f ∈ fs) :
    last f.name (fs.filterMap fun f =>
      if f.codec.isEmpty (f.get x) then none else some (f.name, f.codec.encode (f.get x))) =
      if f.codec.isEmpty (f.get x) then none else some (f.codec.encode (f.get x)) := by
  induction fs with
  | nil => cases hf
  | cons g fs ih =>
    rw [List.map_cons, List.nodup_cons] at hnodup
    rcases List.mem_cons.1 hf with rfl | hf
    · have hnone : last f.name (fs.filterMap fun f =>
          if f.codec.isEmpty (f.get x) then none else some (f.name, f.codec.encode (f.get x))) = none := by
        rw [last_eq_none]
        intro e he heq
        obtain ⟨g, hg, hge⟩ := List.mem_filterMap.1 he
        split at hge
        · cases hge
        · cases hge
          exact hnodup.1 (heq ▸ List.mem_map_of_mem hg)
      rw [List.filterMap_cons]
      split
      · rename_i hempty
        split at hempty
        · rename_i he
          rw [hnone, if_pos he]
        · cases hempty
      · rename_i e hsome
        split at hsome
        · cases hsome
        · rename_i he
          cases hsome
          rw [last, hnone, if_pos rfl, if_neg he]
          rfl
    · have hne : f.name ≠ g.name := fun heq => hnodup.1 (heq ▸ List.mem_map_of_mem hf)
      rw [List.filterMap_cons]
      split
      · exact ih hnodup.2 hf
      · rename_i e hsome
        split at hsome
        · cases hsome
        · cases hsome
          rw [last, if_neg hne, Option.or_none]
          exact ih hnodup.2 hf

/-- The fields of a struct after they have been in a map. -/
def mapped (S : Schema α) (x : α) : List (String × Value Number) := canonFields (mapFields reprint (S.encodeFields x))

theorem lookup_mapped {x : α} {f : StructField α} (hf : f ∈ S.fields) :
    (S.mapped x).lookup f.name =
      if f.codec.isEmpty (f.get x) then none else some (f.codec.encode (f.get x)).reprinted := by
  rw [mapped, lookup_canonFields, last_mapFields, encodeFields, last_filterMap S.nodup hf]
  split <;> rfl

/-- The map that the text of a struct is read into. -/
def anyFields (S : Schema α) (x : α) : List (String × Any) := canonFields (mapFields toDouble (S.encodeFields x))

theorem mapFields_anyFields (x : α) : mapFields Double.format (S.anyFields x) = S.mapped x := by
  have hmap := Value.canon_map reprint (.obj (S.encodeFields x))
  have hany := Value.canon_map toDouble (.obj (S.encodeFields x))
  simp only [Value.map, Value.canon, Value.obj.injEq] at hmap hany
  rw [anyFields, mapped, hany, hmap]
  have hmm := Value.map_map toDouble Double.format (.obj (canonFields (S.encodeFields x)))
  simp only [Value.map, Value.obj.injEq] at hmm
  exact hmm

theorem canon_anyFields (x : α) : (Value.obj (S.anyFields x)).canon = .obj (S.anyFields x) :=
  Value.canon_canon (.obj (mapFields toDouble (S.encodeFields x)))

theorem nodup_of_sorted {β : Type} {fields : List (String × β)} (h : Sorted fields) :
    (fields.map Prod.fst).Nodup := by
  rw [List.nodup_iff_pairwise_ne, List.pairwise_map]
  exact h.imp fun hlt => hlt.ne

private theorem nodup_mapped (x : α) : ((S.mapped x).map Prod.fst).Nodup := nodup_of_sorted (sorted_canonFields _)

theorem mem_mapped {x : α} {e : String × Value Number} (h : e ∈ S.mapped x) : ∃ f ∈ S.fields, f.name = e.1 := by
  obtain ⟨v, hv, -⟩ := mem_canonFields h
  rw [mapFields_eq_map] at hv
  obtain ⟨e', he', heq⟩ := List.mem_map.1 hv
  obtain ⟨f, hf, rfl⟩ := mem_encodeFields he'
  exact ⟨f, hf, congrArg Prod.fst heq⟩

/-- A field comes back from a map exactly if its integers survive. -/
theorem reads_mapped {x : α} {f : StructField α} (hf : f ∈ S.fields) :
    Reads (S.mapped x) S.zero x f ↔ ∀ n ∈ f.codec.integers (f.get x), Survives n := by
  rw [Reads, lookup_mapped hf]
  split
  · rename_i hlookup
    split at hlookup
    · rename_i hempty
      rw [(f.codec.isEmpty_iff _).1 hempty, S.get_zero f hf]
      exact iff_of_true rfl f.codec.survives_zero
    · cases hlookup
  · rename_i v hlookup
    split at hlookup
    · cases hlookup
    · cases hlookup
      rw [S.get_zero f hf]
      exact f.codec.restore (f.get x)

/-- A struct comes back from a map exactly if its integers survive. -/
theorem restore (x : α) : S.decodeFields (S.mapped x) S.zero = some x ↔ ∀ n ∈ S.integers x, Survives n := by
  rw [decodeFields_eq_some (nodup_mapped x) fun e he => mem_mapped he]
  simp only [integers, List.mem_flatMap]
  constructor
  · rintro h n ⟨f, hf, hn⟩
    exact (reads_mapped hf).1 (h f hf) n hn
  · intro h f hf
    exact (reads_mapped hf).2 fun n hn => h n ⟨f, hf, hn⟩

/-- Nothing is written exactly of the empty struct. -/
theorem mapped_eq_nil {x : α} : S.mapped x = [] ↔ x = S.zero := by
  constructor
  · intro h
    refine S.ext x S.zero fun f hf => ?_
    have hlookup := lookup_mapped (x := x) hf
    rw [h] at hlookup
    by_cases hempty : f.codec.isEmpty (f.get x) = true
    · rw [(f.codec.isEmpty_iff _).1 hempty, S.get_zero f hf]
    · rw [if_neg hempty] at hlookup
      cases hlookup
  · rintro rfl
    refine List.eq_nil_iff_forall_not_mem.2 fun e he => ?_
    obtain ⟨f, hf, hname⟩ := mem_mapped he
    have hlookup := lookup_of_mem (sorted_canonFields _) he
    have hempty : f.codec.isEmpty (f.get S.zero) = true := by
      rw [S.get_zero f hf]
      exact (f.codec.isEmpty_iff _).2 rfl
    have hnone := lookup_mapped (x := S.zero) hf
    rw [if_pos hempty, hname] at hnone
    have hsome : (S.mapped S.zero).lookup e.1 = some e.2 := hlookup
    rw [hnone] at hsome
    cases hsome

private theorem finite_encodeFields (x : α) : ∀ n ∈ fieldNumbers (S.encodeFields x), Finite n := by
  intro n hn
  obtain ⟨e, he, hn⟩ := mem_fieldNumbers.1 hn
  obtain ⟨f, -, rfl⟩ := mem_encodeFields he
  exact f.codec.finite (f.get x) n hn

/-- The text of a struct, read into a map. -/
theorem unmarshalMap_encodeFields (x : α) :
    unmarshalMap (marshal (.obj (S.encodeFields x))) = .ok (.obj (S.anyFields x)) :=
  unmarshalMap_eq_ok.2 ⟨unmarshalAny_marshal (finite_encodeFields x), Or.inr ⟨_, rfl⟩⟩

end Schema

/-- A pointer to a struct. -/
def Codec.message {α : Type} (S : Schema α) : Codec (Option α) where
  zero := none
  isEmpty := Option.isNone
  encode
    | none => .null
    | some x => .obj (S.encodeFields x)
  decode
    | .null, _ => some none
    | .obj entries, old => (S.decodeFields entries (old.getD S.zero)).map some
    | _, _ => none
  integers x := x.elim [] S.integers
  isEmpty_iff _ := by simp
  survives_zero := by simp
  finite x := by
    cases x with
    | none => simp [Value.numbers]
    | some x => exact Schema.finite_encodeFields x
  restore x := by
    cases x with
    | none => simp [Value.reprinted, Value.map, Value.canon]
    | some x =>
      have hobj : (Value.obj (S.encodeFields x)).reprinted = .obj (S.mapped x) := rfl
      simp only [hobj, Option.getD_none, Option.map_eq_some_iff, Option.some.injEq, exists_eq_right]
      exact Schema.restore x

namespace Schema

variable {α : Type} {S : Schema α}

/-! ### Embedded pointers -/

private theorem decodeEmbedded_some (entries : List (String × Value Number)) (x : α) :
    S.decodeEmbedded entries (some x) = (S.decodeFields entries x).map some := by
  induction entries generalizing x with
  | nil => rfl
  | cons e entries ih =>
    obtain ⟨k, v⟩ := e
    rw [decodeEmbedded, decodeFields]
    cases S.fieldFor k with
    | none => exact ih x
    | some f =>
      simp only [Option.getD_some, Option.bind_eq_bind]
      cases f.codec.decode v (f.get x) with
      | none => rfl
      | some b => exact ih (f.set b x)

/-- Without a key for one of the fields, the pointer stays nil. -/
theorem decodeEmbedded_none (entries : List (String × Value Number)) :
    S.decodeEmbedded entries none =
      if ∃ e ∈ entries, (S.fieldFor e.1).isSome = true then (S.decodeFields entries S.zero).map some
      else some none := by
  induction entries with
  | nil => simp [decodeEmbedded]
  | cons e entries ih =>
    obtain ⟨k, v⟩ := e
    rw [decodeEmbedded, decodeFields]
    cases hk : S.fieldFor k with
    | none =>
      simp only [ih, List.exists_mem_cons_iff, hk, Option.isSome_none, Bool.false_eq_true, false_or]
    | some f =>
      have hex : ∃ e ∈ (k, v) :: entries, (S.fieldFor e.1).isSome = true := ⟨_, List.mem_cons_self, by rw [hk]; rfl⟩
      rw [if_pos hex]
      simp only [Option.getD_none, Option.bind_eq_bind]
      cases f.codec.decode v (f.get S.zero) with
      | none => rfl
      | some b => exact decodeEmbedded_some entries (f.set b S.zero)

end Schema

end Json
