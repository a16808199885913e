import Mathlib.Data.List.Basic
import Mathlib.Data.String.Basic

/-!
# JSON values

A value, over any type of numbers: literals when a text is read, doubles in a program, rational numbers for what it
means.  An object is a list of fields; of several fields with one key the last one counts, and the order of the fields
does not matter.  `canon` keeps the last field of every key and sorts them, at every level, so that two values mean
the same object exactly if they have the same canonical form.
-/

namespace Json

inductive Value (ν : Type) where
  | null
  | bool (b : Bool)
  | num (n : ν)
  | str (s : String)
  | arr (items : List (Value ν))
  | obj (fields : List (String × Value ν))

variable {ν μ ρ α β : Type}

/-- Induction with the hypothesis for the items of an array and the fields of an object. -/
theorem Value.induct {P : Value ν → Prop} (null : P .null) (bool : ∀ b, P (.bool b)) (num : ∀ n, P (.num n))
    (str : ∀ s, P (.str s)) (arr : ∀ items, (∀ v ∈ items, P v) → P (.arr items))
    (obj : ∀ fields, (∀ f ∈ fields, P f.2) → P (.obj fields)) (v : Value ν) : P v := by
  refine @Value.rec ν P (fun items => ∀ v ∈ items, P v) (fun fields => ∀ f ∈ fields, P f.2) (fun f => P f.2)
    null bool num str arr obj ?_ ?_ ?_ ?_ ?_ v
  · simp
  · simp +contextual
  · simp
  · simp +contextual
  · simp

/-! ### Functions of a value -/

mutual

/-- The strings of a value, keys aside. -/
def Value.strings : Value ν → List String
  | .null => []
  | .bool _ => []
  | .num _ => []
  | .str s => [s]
  | .arr items => itemStrings items
  | .obj fields => fieldStrings fields

def itemStrings : List (Value ν) → List String
  | [] => []
  | v :: items => v.strings ++ itemStrings items

def fieldStrings : List (String × Value ν) → List String
  | [] => []
  | (_, v) :: fields => v.strings ++ fieldStrings fields

end

mutual

/-- The numbers of a value. -/
def Value.numbers : Value ν → List ν
  | .null => []
  | .bool _ => []
  | .num n => [n]
  | .str _ => []
  | .arr items => itemNumbers items
  | .obj fields => fieldNumbers fields

def itemNumbers : List (Value ν) → List ν
  | [] => []
  | v :: items => v.numbers ++ itemNumbers items

def fieldNumbers : List (String × Value ν) → List ν
  | [] => []
  | (_, v) :: fields => v.numbers ++ fieldNumbers fields

end

mutual

/-- The value with other numbers. -/
def Value.map (f : ν → μ) : Value ν → Value μ
  | .null => .null
  | .bool b => .bool b
  | .num n => .num (f n)
  | .str s => .str s
  | .arr items => .arr (mapItems f items)
  | .obj fields => .obj (mapFields f fields)

def mapItems (f : ν → μ) : List (Value ν) → List (Value μ)
  | [] => []
  | v :: items => v.map f :: mapItems f items

def mapFields (f : ν → μ) : List (String × Value ν) → List (String × Value μ)
  | [] => []
  | (k, v) :: fields => (k, v.map f) :: mapFields f fields

end

/-! ### Fields -/

/-- The last field with the key. -/
def last (k : String) : List (String × α) → Option α
  | [] => none
  | (k', a) :: fields => (last k fields).or (if k = k' then some a else none)

/-- Sets a field of a sorted list. -/
def insert (k : String) (a : α) : List (String × α) → List (String × α)
  | [] => [(k, a)]
  | (k', b) :: fields =>
    if k < k' then (k, a) :: (k', b) :: fields
    else if k = k' then (k, a) :: fields
    else (k', b) :: insert k a fields

/-- The keys are in order and different. -/
def Sorted (fields : List (String × α)) : Prop := fields.Pairwise fun f g => f.1 < g.1

mutual

/-- The canonical form. -/
def Value.canon : Value ν → Value ν
  | .null => .null
  | .bool b => .bool b
  | .num n => .num n
  | .str s => .str s
  | .arr items => .arr (canonItems items)
  | .obj fields => .obj (canonFields fields)

def canonItems : List (Value ν) → List (Value ν)
  | [] => []
  | v :: items => v.canon :: canonItems items

def canonFields : List (String × Value ν) → List (String × Value ν)
  | [] => []
  | (k, v) :: fields => if (last k fields).isSome then canonFields fields else insert k v.canon (canonFields fields)

end

theorem mem_keys_insert {k : String} {a : α} {fields : List (String × α)} {k' : String} :
    k' ∈ (insert k a fields).map Prod.fst ↔ k' = k ∨ k' ∈ fields.map Prod.fst := by
  induction fields with
  | nil => simp [insert]
  | cons f fields ih =>
    obtain ⟨k₁, b⟩ := f
    rw [insert]
    split
    · simp
    · split
      · rename_i heq
        simp [heq]
      · simp only [List.map_cons, List.mem_cons, ih]
        tauto

theorem sorted_insert {k : String} {a : α} {fields : List (String × α)} (h : Sorted fields) :
    Sorted (insert k a fields) := by
  induction fields with
  | nil => simp [insert, Sorted]
  | cons f fields ih =>
    obtain ⟨k', b⟩ := f
    obtain ⟨hhead, htail⟩ := List.pairwise_cons.1 h
    rw [insert]
    split
    · rename_i hlt
      refine List.pairwise_cons.2 ⟨?_, h⟩
      intro g hg
      rcases List.mem_cons.1 hg with rfl | hg
      · exact hlt
      · exact hlt.trans (hhead g hg)
    · split
      · rename_i heq
        subst heq
        exact List.pairwise_cons.2 ⟨hhead, htail⟩
      · rename_i hnlt hne
        refine List.pairwise_cons.2 ⟨?_, ih htail⟩
        intro g hg
        have hkey : g.1 ∈ (insert k a fields).map Prod.fst := List.mem_map_of_mem hg
        rcases mem_keys_insert.1 hkey with heq | hmem
        · rw [heq]
          exact lt_of_le_of_ne (not_lt.1 hnlt) (Ne.symm hne)
        · obtain ⟨g', hg', hgk⟩ := List.mem_map.1 hmem
          rw [← hgk]
          exact hhead g' hg'

theorem lookup_cons_of_ne {k k' : String} {a : α} {fields : List (String × α)} (h : k ≠ k') :
    ((k', a) :: fields).lookup k = fields.lookup k := by
  rw [List.lookup_cons, beq_eq_false_iff_ne.2 h]

theorem lookup_insert_self (k : String) (a : α) (fields : List (String × α)) :
    (insert k a fields).lookup k = some a := by
  induction fields with
  | nil => simp [insert]
  | cons f fields ih =>
    obtain ⟨k', b⟩ := f
    rw [insert]
    split
    · exact List.lookup_cons_self
    · split
      · exact List.lookup_cons_self
      · rename_i hne
        rw [lookup_cons_of_ne hne, ih]

theorem lookup_insert_of_ne {k k' : String} (a : α) (fields : List (String × α)) (h : k ≠ k') :
    (insert k' a fields).lookup k = fields.lookup k := by
  induction fields with
  | nil => exact lookup_cons_of_ne h
  | cons f fields ih =>
    obtain ⟨k₁, b⟩ := f
    rw [insert]
    split
    · exact lookup_cons_of_ne h
    · split
      · rename_i heq
        subst heq
        rw [lookup_cons_of_ne h, lookup_cons_of_ne h]
      · rw [List.lookup_cons, List.lookup_cons, ih]

/-- Inserting in front of everything. -/
theorem insert_of_lt {k : String} {a : α} {fields : List (String × α)} (h : ∀ f ∈ fields, k < f.1) :
    insert k a fields = (k, a) :: fields := by
  cases fields with
  | nil => rfl
  | cons f fields => rw [insert, if_pos (h f List.mem_cons_self)]

theorem last_eq_none {k : String} {fields : List (String × α)} : last k fields = none ↔ ∀ f ∈ fields, f.1 ≠ k := by
  induction fields with
  | nil => simp [last]
  | cons f fields ih =>
    obtain ⟨k', a⟩ := f
    rw [last, Option.or_eq_none_iff, ih]
    by_cases h : k = k'
    · simp [h]
    · simp [h, Ne.symm h]

/-- In a sorted list a key is found where it stands. -/
theorem lookup_of_mem {fields : List (String × α)} (h : Sorted fields) {f : String × α} (hf : f ∈ fields) :
    fields.lookup f.1 = some f.2 := by
  induction fields with
  | nil => cases hf
  | cons g fields ih =>
    obtain ⟨hhead, htail⟩ := List.pairwise_cons.1 h
    rcases List.mem_cons.1 hf with rfl | hmem
    · exact List.lookup_cons_self
    · obtain ⟨k, a⟩ := g
      rw [lookup_cons_of_ne (hhead f hmem).ne', ih htail hmem]

/-! ### The canonical form -/

theorem canonItems_eq_map (items : List (Value ν)) : canonItems items = items.map Value.canon := by
  induction items with
  | nil => rfl
  | cons v items ih => rw [canonItems, ih, List.map_cons]

theorem sorted_canonFields (fields : List (String × Value ν)) : Sorted (canonFields fields) := by
  induction fields with
  | nil => exact List.Pairwise.nil
  | cons f fields ih =>
    obtain ⟨k, v⟩ := f
    rw [canonFields]
    split
    · exact ih
    · exact sorted_insert ih

/-- Looking up a key in the canonical form finds the last field with the key. -/
theorem lookup_canonFields (k : String) (fields : List (String × Value ν)) :
    (canonFields fields).lookup k = (last k fields).map Value.canon := by
  induction fields with
  | nil => rfl
  | cons f fields ih =>
    obtain ⟨k', v⟩ := f
    rw [canonFields, last]
    by_cases hk : k = k'
    · subst hk
      cases hlast : last k fields with
      | none => simp [lookup_insert_self]
      | some w => simp [ih, hlast]
    · rw [if_neg hk, Option.or_none]
      split
      · exact ih
      · rw [lookup_insert_of_ne _ _ hk, ih]

theorem mem_insert {k : String} {a : α} {fields : List (String × α)} {f : String × α} (h : f ∈ insert k a fields) :
    f = (k, a) ∨ f ∈ fields := by
  induction fields with
  | nil => exact Or.inl (List.mem_singleton.1 h)
  | cons g fields ih =>
    obtain ⟨k', b⟩ := g
    rw [insert] at h
    split at h
    · exact List.mem_cons.1 h
    · split at h
      · exact (List.mem_cons.1 h).imp id (List.mem_cons_of_mem _)
      · rcases List.mem_cons.1 h with rfl | h
        · exact Or.inr List.mem_cons_self
        · exact (ih h).imp id (List.mem_cons_of_mem _)

theorem mem_canonFields {fields : List (String × Value ν)} {f : String × Value ν} (h : f ∈ canonFields fields) :
    ∃ v, (f.1, v) ∈ fields ∧ f.2 = v.canon := by
  induction fields with
  | nil => cases h
  | cons g fields ih =>
    obtain ⟨k, v⟩ := g
    rw [canonFields] at h
    split at h
    · obtain ⟨w, hw, heq⟩ := ih h
      exact ⟨w, List.mem_cons_of_mem _ hw, heq⟩
    · rcases mem_insert h with rfl | h
      · exact ⟨v, List.mem_cons_self, rfl⟩
      · obtain ⟨w, hw, heq⟩ := ih h
        exact ⟨w, List.mem_cons_of_mem _ hw, heq⟩

theorem mem_keys_canonFields {fields : List (String × Value ν)} {k : String} :
    k ∈ (canonFields fields).map Prod.fst ↔ k ∈ fields.map Prod.fst := by
  induction fields with
  | nil => exact Iff.rfl
  | cons f fields ih =>
    obtain ⟨k', v⟩ := f
    rw [canonFields, List.map_cons, List.mem_cons]
    split
    · rename_i hlast
      have hmem : k' ∈ fields.map Prod.fst := by
        by_contra hnot
        have hnone : last k' fields = none := last_eq_none.2 fun f hf heq => hnot (heq ▸ List.mem_map_of_mem hf)
        simp [hnone] at hlast
      rw [ih]
      exact ⟨Or.inr, fun h => h.elim (fun heq => heq ▸ hmem) id⟩
    · rw [mem_keys_insert, ih]

/-- Sorted fields with canonical values are canonical. -/
theorem canonFields_of_sorted {fields : List (String × Value ν)} (h : Sorted fields)
    (hvalues : ∀ f ∈ fields, f.2.canon = f.2) : canonFields fields = fields := by
  induction fields with
  | nil => rfl
  | cons f fields ih =>
    obtain ⟨k, v⟩ := f
    obtain ⟨hhead, htail⟩ := List.pairwise_cons.1 h
    have hrest := ih htail fun g hg => hvalues g (List.mem_cons_of_mem _ hg)
    have hlast : last k fields = none := last_eq_none.2 fun g hg => (hhead g hg).ne'
    rw [canonFields, hlast, hrest, hvalues (k, v) List.mem_cons_self]
    exact insert_of_lt hhead

@[simp] theorem Value.canon_canon (v : Value ν) : v.canon.canon = v.canon := by
  induction v using Value.induct with
  | null => rfl
  | bool b => rfl
  | num n => rfl
  | str s => rfl
  | arr items ih =>
    simp only [Value.canon, canonItems_eq_map, List.map_map, Value.arr.injEq]
    exact List.map_congr_left ih
  | obj fields ih =>
    rw [Value.canon, Value.canon, canonFields_of_sorted (sorted_canonFields fields)]
    intro f hf
    obtain ⟨w, hw, heq⟩ := mem_canonFields hf
    rw [heq]
    exact ih _ hw

/-- An object is canonical if its fields are in order and their values canonical. -/
theorem canon_obj {fields : List (String × Value ν)} :
    (Value.obj fields).canon = .obj fields ↔ Sorted fields ∧ ∀ f ∈ fields, f.2.canon = f.2 := by
  rw [Value.canon, Value.obj.injEq]
  constructor
  · intro h
    refine ⟨h ▸ sorted_canonFields fields, ?_⟩
    intro f hf
    rw [← h] at hf
    obtain ⟨v, -, heq⟩ := mem_canonFields hf
    rw [heq, Value.canon_canon]
  · rintro ⟨hsorted, hvalues⟩
    exact canonFields_of_sorted hsorted hvalues

theorem canon_insert {fields : List (String × Value ν)} {k : String} {v : Value ν}
    (h : (Value.obj fields).canon = .obj fields) (hv : v.canon = v) :
    (Value.obj (insert k v fields)).canon = .obj (insert k v fields) := by
  obtain ⟨hsorted, hvalues⟩ := canon_obj.1 h
  refine canon_obj.2 ⟨sorted_insert hsorted, ?_⟩
  intro f hf
  rcases mem_insert hf with rfl | hf
  · exact hv
  · exact hvalues f hf

/-! ### Other numbers -/

theorem mapItems_eq_map (f : ν → μ) (items : List (Value ν)) : mapItems f items = items.map fun v => v.map f := by
  induction items with
  | nil => rfl
  | cons v items ih => rw [mapItems, ih, List.map_cons]

theorem mapFields_eq_map (f : ν → μ) (fields : List (String × Value ν)) :
    mapFields f fields = fields.map fun field => (field.1, field.2.map f) := by
  induction fields with
  | nil => rfl
  | cons field fields ih => rw [mapFields, ih, List.map_cons]

theorem mem_itemNumbers {items : List (Value ν)} {n : ν} : n ∈ itemNumbers items ↔ ∃ v ∈ items, n ∈ v.numbers := by
  induction items with
  | nil => simp [itemNumbers]
  | cons v items ih => simp [itemNumbers, ih]

theorem mem_fieldNumbers {fields : List (String × Value ν)} {n : ν} :
    n ∈ fieldNumbers fields ↔ ∃ f ∈ fields, n ∈ f.2.numbers := by
  induction fields with
  | nil => simp [fieldNumbers]
  | cons f fields ih =>
    obtain ⟨k, v⟩ := f
    simp only [fieldNumbers, List.mem_append, ih, List.exists_mem_cons_iff]

@[simp] theorem Value.map_map (f : ν → μ) (g : μ → ρ) (v : Value ν) : (v.map f).map g = v.map fun n => g (f n) := by
  induction v using Value.induct with
  | null => rfl
  | bool b => rfl
  | num n => rfl
  | str s => rfl
  | arr items ih =>
    simp only [Value.map, mapItems_eq_map, List.map_map, Value.arr.injEq]
    exact List.map_congr_left ih
  | obj fields ih =>
    simp only [Value.map, mapFields_eq_map, List.map_map, Value.obj.injEq]
    refine List.map_congr_left fun field hfield => ?_
    exact congrArg (Prod.mk field.1) (ih field hfield)

theorem Value.map_id (v : Value ν) : v.map (fun n => n) = v := by
  induction v using Value.induct with
  | null => rfl
  | bool b => rfl
  | num n => rfl
  | str s => rfl
  | arr items ih =>
    rw [Value.map, mapItems_eq_map, Value.arr.injEq]
    exact List.map_congr_left ih |>.trans (List.map_id _)
  | obj fields ih =>
    rw [Value.map, mapFields_eq_map, Value.obj.injEq]
    refine (List.map_congr_left fun field hfield => ?_).trans (List.map_id _)
    exact congrArg (Prod.mk field.1) (ih field hfield)

/-- Two maps agree on a value exactly if they agree on its numbers. -/
theorem Value.map_eq_map {f g : ν → μ} {v : Value ν} : v.map f = v.map g ↔ ∀ n ∈ v.numbers, f n = g n := by
  induction v using Value.induct with
  | null => simp [Value.map, Value.numbers]
  | bool b => simp [Value.map, Value.numbers]
  | num n => simp [Value.map, Value.numbers]
  | str s => simp [Value.map, Value.numbers]
  | arr items ih =>
    rw [Value.map, Value.map, Value.arr.injEq, mapItems_eq_map, mapItems_eq_map, List.map_inj_left, Value.numbers]
    constructor
    · intro h n hn
      obtain ⟨v, hv, hn⟩ := mem_itemNumbers.1 hn
      exact (ih v hv).1 (h v hv) n hn
    · intro h v hv
      exact (ih v hv).2 fun n hn => h n (mem_itemNumbers.2 ⟨v, hv, hn⟩)
  | obj fields ih =>
    rw [Value.map, Value.map, Value.obj.injEq, mapFields_eq_map, mapFields_eq_map, List.map_inj_left, Value.numbers]
    constructor
    · intro h n hn
      obtain ⟨field, hfield, hn⟩ := mem_fieldNumbers.1 hn
      exact (ih field hfield).1 (congrArg Prod.snd (h field hfield)) n hn
    · intro h field hfield
      refine congrArg (Prod.mk field.1) ((ih field hfield).2 ?_)
      exact fun n hn => h n (mem_fieldNumbers.2 ⟨field, hfield, hn⟩)

theorem last_mapFields (f : ν → μ) (k : String) (fields : List (String × Value ν)) :
    last k (mapFields f fields) = (last k fields).map fun v => v.map f := by
  induction fields with
  | nil => rfl
  | cons field fields ih =>
    obtain ⟨k', v⟩ := field
    rw [mapFields, last, last, ih]
    cases last k fields with
    | some w => rfl
    | none =>
      by_cases hk : k = k'
      · simp [hk]
      · simp [hk]

theorem lookup_mapFields (f : ν → μ) (k : String) (fields : List (String × Value ν)) :
    (mapFields f fields).lookup k = (fields.lookup k).map fun v => v.map f := by
  induction fields with
  | nil => rfl
  | cons field fields ih =>
    obtain ⟨k', v⟩ := field
    rw [mapFields]
    by_cases hk : k = k'
    · subst hk
      rw [List.lookup_cons_self, List.lookup_cons_self]
      rfl
    · rw [lookup_cons_of_ne hk, lookup_cons_of_ne hk, ih]

theorem keys_mapFields (f : ν → μ) (fields : List (String × Value ν)) :
    (mapFields f fields).map Prod.fst = fields.map Prod.fst := by
  rw [mapFields_eq_map, List.map_map]
  rfl

theorem mapFields_insert (f : ν → μ) (k : String) (v : Value ν) (fields : List (String × Value ν)) :
    mapFields f (insert k v fields) = insert k (v.map f) (mapFields f fields) := by
  induction fields with
  | nil => rfl
  | cons field fields ih =>
    obtain ⟨k', w⟩ := field
    rw [insert, mapFields, insert]
    split
    · rfl
    · split
      · rfl
      · rw [mapFields, ih]

@[simp] theorem Value.canon_map (f : ν → μ) (v : Value ν) : (v.map f).canon = v.canon.map f := by
  induction v using Value.induct with
  | null => rfl
  | bool b => rfl
  | num n => rfl
  | str s => rfl
  | arr items ih =>
    simp only [Value.map, Value.canon, mapItems_eq_map, canonItems_eq_map, List.map_map, Value.arr.injEq]
    exact List.map_congr_left ih
  | obj fields ih =>
    rw [Value.map, Value.canon, Value.canon, Value.map, Value.obj.injEq]
    induction fields with
    | nil => rfl
    | cons field fields ih' =>
      obtain ⟨k, v⟩ := field
      have hrest := ih' fun g hg => ih g (List.mem_cons_of_mem _ hg)
      have hv := ih (k, v) List.mem_cons_self
      rw [mapFields, canonFields, canonFields, last_mapFields, Option.isSome_map, hrest, hv]
      split
      · rfl
      · rw [mapFields_insert]

theorem numbers_map (f : ν → μ) (v : Value ν) : ∀ m ∈ (v.map f).numbers, ∃ n ∈ v.numbers, m = f n := by
  induction v using Value.induct with
  | null => exact fun m hm => absurd hm (by simp [Value.map, Value.numbers])
  | bool b => exact fun m hm => absurd hm (by simp [Value.map, Value.numbers])
  | num n => exact fun m hm => ⟨n, List.mem_singleton_self n, List.mem_singleton.1 hm⟩
  | str s => exact fun m hm => absurd hm (by simp [Value.map, Value.numbers])
  | arr items ih =>
    intro m hm
    rw [Value.map, Value.numbers, mapItems_eq_map] at hm
    obtain ⟨u, hu, hm⟩ := mem_itemNumbers.1 hm
    obtain ⟨v, hv, rfl⟩ := List.mem_map.1 hu
    obtain ⟨n, hn, rfl⟩ := ih v hv m hm
    exact ⟨n, mem_itemNumbers.2 ⟨v, hv, hn⟩, rfl⟩
  | obj fields ih =>
    intro m hm
    rw [Value.map, Value.numbers, mapFields_eq_map] at hm
    obtain ⟨u, hu, hm⟩ := mem_fieldNumbers.1 hm
    obtain ⟨field, hfield, rfl⟩ := List.mem_map.1 hu
    obtain ⟨n, hn, rfl⟩ := ih field hfield m hm
    exact ⟨n, mem_fieldNumbers.2 ⟨field, hfield, hn⟩, rfl⟩

end Json
