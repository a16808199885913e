import Tink.Lib.JsonNumber
import Tink.Lib.JsonSplice

/-!
# jsonb

A column of type jsonb keeps what a JSON text means: the last field of every key, and numbers by their value.  A text
with an escape for half a surrogate pair or for the character 0 is rejected.

`pattern @> document` asks whether a pattern is part of a document: every field of an object in the field with its
key, every item of an array in some item.  The patterns that go down one path to a string (`nest`) are part of exactly
the documents with the string at the path (`containedIn_nest`).
-/

namespace Json

/-- A value of type jsonb. -/
structure Jsonb where
  value : Value ℚ
  canonical : value.canon = value

def postgres : Dialect := { lone := none, nul := false }

def Jsonb.ofValue (v : Value Number) : Jsonb := ⟨(v.map Number.value).canon, Value.canon_canon _⟩

/-- `text::jsonb`. -/
def Jsonb.ofText (t : String) : Option Jsonb := (parse postgres t.toList).map Jsonb.ofValue

variable {ν μ : Type}

mutual

def Value.containedIn [DecidableEq ν] : Value ν → Value ν → Bool
  | .null, .null => true
  | .bool a, .bool b => a == b
  | .num a, .num b => a == b
  | .str a, .str b => a == b
  | .arr items, .arr docs => itemsIn items docs
  | .obj fields, .obj docs => fieldsIn fields docs
  | _, _ => false

def itemsIn [DecidableEq ν] : List (Value ν) → List (Value ν) → Bool
  | [], _ => true
  | v :: items, docs => docs.any (fun doc => v.containedIn doc) && itemsIn items docs

def fieldsIn [DecidableEq ν] : List (String × Value ν) → List (String × Value ν) → Bool
  | [], _ => true
  | (k, v) :: fields, docs => (docs.lookup k).any (fun doc => v.containedIn doc) && fieldsIn fields docs

end

/-- `document @> pattern`. -/
def Jsonb.contains (doc pattern : Jsonb) : Bool := pattern.value.containedIn doc.value

/-! ### A value is part of itself -/

private theorem itemsIn_eq_true [DecidableEq ν] {items docs : List (Value ν)} :
    itemsIn items docs = true ↔ ∀ v ∈ items, ∃ doc ∈ docs, v.containedIn doc = true := by
  induction items with
  | nil => simp [itemsIn]
  | cons v items ih => simp [itemsIn, ih]

private theorem fieldsIn_eq_true [DecidableEq ν] {fields docs : List (String × Value ν)} :
    fieldsIn fields docs = true ↔ ∀ f ∈ fields, ∃ doc, docs.lookup f.1 = some doc ∧ f.2.containedIn doc = true := by
  induction fields with
  | nil => simp [fieldsIn]
  | cons f fields ih =>
    obtain ⟨k, v⟩ := f
    simp [fieldsIn, ih, Option.any_eq_true]

private theorem canon_containedIn_self [DecidableEq ν] (v : Value ν) : v.canon.containedIn v.canon = true := by
  induction v using Value.induct with
  | null => rfl
  | bool b => simp [Value.canon, Value.containedIn]
  | num n => simp [Value.canon, Value.containedIn]
  | str s => simp [Value.canon, Value.containedIn]
  | arr items ih =>
    rw [Value.canon, Value.containedIn, itemsIn_eq_true, canonItems_eq_map]
    intro u hu
    obtain ⟨v, hv, rfl⟩ := List.mem_map.1 hu
    exact ⟨v.canon, hu, ih v hv⟩
  | obj fields ih =>
    rw [Value.canon, Value.containedIn, fieldsIn_eq_true]
    intro f hf
    obtain ⟨v, hv, heq⟩ := mem_canonFields hf
    refine ⟨f.2, lookup_of_mem (sorted_canonFields fields) hf, ?_⟩
    rw [heq]
    exact ih _ hv

theorem Jsonb.contains_self (doc : Jsonb) : doc.contains doc = true := by
  rw [Jsonb.contains, ← doc.canonical]
  exact canon_containedIn_self doc.value

/-! ### Paths -/

/-- A field of an object, or some item of an array. -/
inductive Step where
  | key (k : String)
  | any
deriving DecidableEq

/-- The value with only what stands at the path. -/
def nest (leaf : Value ν) : List Step → Value ν
  | [] => leaf
  | .key k :: path => .obj [(k, nest leaf path)]
  | .any :: path => .arr [nest leaf path]

/-- The value has the leaf at the path. -/
def At (leaf : Value ν) : List Step → Value ν → Prop
  | [], v => v = leaf
  | .key k :: path, .obj fields => ∃ v, fields.lookup k = some v ∧ At leaf path v
  | .any :: path, .arr items => ∃ v ∈ items, At leaf path v
  | _, _ => False

private theorem str_containedIn [DecidableEq ν] {s : String} {doc : Value ν} :
    (Value.str s).containedIn doc = true ↔ doc = .str s := by
  cases doc with
  | str s' =>
    rw [Value.containedIn, beq_iff_eq, Value.str.injEq]
    exact eq_comm
  | _ => exact iff_of_false nofun nofun

/-- A document contains what is nested in a path exactly if it has it at the path. -/
theorem containedIn_nest [DecidableEq ν] {s : String} {path : List Step} {doc : Value ν} :
    (nest (.str s) path).containedIn doc = true ↔ At (.str s) path doc := by
  induction path generalizing doc with
  | nil => exact str_containedIn
  | cons step path ih =>
    cases step with
    | key k =>
      cases doc with
      | obj docs =>
        rw [nest, Value.containedIn, fieldsIn_eq_true, List.forall_mem_singleton]
        simp only [ih]
        rfl
      | _ => exact iff_of_false nofun nofun
    | any =>
      cases doc with
      | arr docs =>
        rw [nest, Value.containedIn, itemsIn_eq_true, List.forall_mem_singleton]
        simp only [ih]
        rfl
      | _ => exact iff_of_false nofun nofun

private theorem mem_itemStrings {items : List (Value ν)} {s : String} :
    s ∈ itemStrings items ↔ ∃ v ∈ items, s ∈ v.strings := by
  induction items with
  | nil => simp [itemStrings]
  | cons v items ih => simp [itemStrings, ih]

private theorem mem_fieldStrings {fields : List (String × Value ν)} {s : String} :
    s ∈ fieldStrings fields ↔ ∃ f ∈ fields, s ∈ f.2.strings := by
  induction fields with
  | nil => simp [fieldStrings]
  | cons f fields ih =>
    obtain ⟨k, v⟩ := f
    simp only [fieldStrings, List.mem_append, ih, List.exists_mem_cons_iff]

private theorem mem_of_lookup {k : String} {fields : List (String × Value ν)} {v : Value ν}
    (h : fields.lookup k = some v) :
    ∃ f ∈ fields, f.2 = v := by
  induction fields with
  | nil => cases h
  | cons g fields ih =>
    obtain ⟨k', u⟩ := g
    by_cases hk : k = k'
    · subst hk
      rw [List.lookup_cons_self] at h
      exact ⟨(k, u), List.mem_cons_self, Option.some.inj h⟩
    · rw [lookup_cons_of_ne hk] at h
      obtain ⟨f, hf, heq⟩ := ih h
      exact ⟨f, List.mem_cons_of_mem _ hf, heq⟩

/-- What stands at a path is a string of the value. -/
theorem mem_strings_of_at {s : String} {path : List Step} {v : Value ν} (h : At (.str s) path v) : s ∈ v.strings := by
  induction path generalizing v with
  | nil =>
    cases h
    exact List.mem_singleton_self s
  | cons step path ih =>
    cases step with
    | key k =>
      cases v with
      | obj fields =>
        obtain ⟨v, hlookup, hat⟩ := h
        obtain ⟨f, hf, rfl⟩ := mem_of_lookup hlookup
        exact mem_fieldStrings.2 ⟨f, hf, ih hat⟩
      | _ => cases h
    | any =>
      cases v with
      | arr items =>
        obtain ⟨v, hv, hat⟩ := h
        exact mem_itemStrings.2 ⟨v, hv, ih hat⟩
      | _ => cases h

/-! ### The strings of a jsonb value -/

private theorem strings_canon (v : Value ν) : ∀ s ∈ v.canon.strings, s ∈ v.strings := by
  induction v using Value.induct with
  | null => exact fun s hs => hs
  | bool b => exact fun s hs => hs
  | num n => exact fun s hs => hs
  | str s => exact fun s hs => hs
  | arr items ih =>
    intro s hs
    rw [Value.canon, Value.strings, canonItems_eq_map] at hs
    obtain ⟨u, hu, hs⟩ := mem_itemStrings.1 hs
    obtain ⟨v, hv, rfl⟩ := List.mem_map.1 hu
    exact mem_itemStrings.2 ⟨v, hv, ih v hv s hs⟩
  | obj fields ih =>
    intro s hs
    rw [Value.canon, Value.strings] at hs
    obtain ⟨f, hf, hs⟩ := mem_fieldStrings.1 hs
    obtain ⟨v, hv, heq⟩ := mem_canonFields hf
    rw [heq] at hs
    exact mem_fieldStrings.2 ⟨_, hv, ih _ hv s hs⟩

private theorem strings_map (f : ν → μ) (v : Value ν) : ∀ s ∈ (v.map f).strings, s ∈ v.strings := by
  induction v using Value.induct with
  | null => exact fun s hs => hs
  | bool b => exact fun s hs => hs
  | num n => exact fun s hs => hs
  | str s => exact fun s hs => hs
  | arr items ih =>
    intro s hs
    rw [Value.map, Value.strings, mapItems_eq_map] at hs
    obtain ⟨u, hu, hs⟩ := mem_itemStrings.1 hs
    obtain ⟨v, hv, rfl⟩ := List.mem_map.1 hu
    exact mem_itemStrings.2 ⟨v, hv, ih v hv s hs⟩
  | obj fields ih =>
    intro s hs
    rw [Value.map, Value.strings, mapFields_eq_map] at hs
    obtain ⟨u, hu, hs⟩ := mem_fieldStrings.1 hs
    obtain ⟨field, hfield, rfl⟩ := List.mem_map.1 hu
    exact mem_fieldStrings.2 ⟨field, hfield, ih field hfield s hs⟩

private theorem Jsonb.strings_ofValue (v : Value Number) : ∀ s ∈ (Jsonb.ofValue v).value.strings, s ∈ v.strings :=
  fun s hs => strings_map _ v s (strings_canon _ s hs)

/-! ### Texts of patterns -/

private theorem Jsonb.ofValue_nest (s : String) (path : List Step) :
    (Jsonb.ofValue (nest (.str s) path)).value = nest (.str s) path := by
  rw [Jsonb.ofValue]
  induction path with
  | nil => rfl
  | cons step path ih =>
    cases step with
    | key k =>
      simp only [nest, Value.map, mapFields, Value.canon, canonFields, last, Option.isSome_none,
        Bool.false_eq_true, if_false, insert] at ih ⊢
      rw [ih]
    | any =>
      simp only [nest, Value.map, mapItems, Value.canon, canonItems] at ih ⊢
      rw [ih]

/-- A level of the text of a pattern: the step, and the white space behind the opening bracket, behind the colon and
in front of the closing bracket. -/
structure Level where
  step : Step
  before : String
  between : String
  after : String

def Level.opening : Level → List Char
  | ⟨.key k, w, w', _⟩ => '\x7b' :: (w.toList ++ '"' :: (k.toList ++ '"' :: ':' :: w'.toList))
  | ⟨.any, w, _, _⟩ => '[' :: w.toList

def Level.closing : Level → List Char
  | ⟨.key _, _, _, w⟩ => w.toList ++ ['\x7d']
  | ⟨.any, _, _, w⟩ => w.toList ++ [']']

/-- White space, and a key that stands for itself. -/
def Level.ok : Level → Bool
  | ⟨.key k, w, w', w''⟩ => w.toList.all isSpace && w'.toList.all isSpace && w''.toList.all isSpace &&
      k.toList.all fun c => c != '"' && c != '\\' && decide (32 ≤ c.toNat)
  | ⟨.any, w, _, w''⟩ => w.toList.all isSpace && w''.toList.all isSpace

def opening (levels : List Level) : List Char := levels.flatMap Level.opening

def closing : List Level → List Char
  | [] => []
  | level :: levels => closing levels ++ level.closing

/-- The text of a pattern, around a string: its levels, and the white space on both sides. -/
structure Pattern where
  start : String
  levels : List Level
  stop : String
  ok : (start.toList.all isSpace && levels.all Level.ok && stop.toList.all isSpace) = true

def Pattern.path (p : Pattern) : List Step := p.levels.map Level.step

def Pattern.text (p : Pattern) (s : String) : List Char :=
  (p.start.toList ++ opening p.levels) ++ '"' :: (s.toList ++ '"' :: (closing p.levels ++ p.stop.toList))

variable {d : Dialect}

private theorem plain_of_ws {w : List Char} (h : Ws w) : Plain w := by
  refine ⟨?_, ?_⟩
  · intro hmem
    cases h _ hmem
  · intro hmem
    cases h _ hmem

private theorem plain_skip {x : List Char} (h : Plain x) (inside : Bool) (y : List Char) :
    plain inside (x ++ y) = plain inside y := by
  induction x with
  | nil => rfl
  | cons c x ih =>
    have hq : c ≠ '"' := fun heq => h.1 (heq ▸ List.mem_cons_self)
    have hb : c ≠ '\\' := fun heq => h.2 (heq ▸ List.mem_cons_self)
    rw [List.cons_append, plain, if_neg hq, if_neg hb]
    exact ih ⟨fun hmem => h.1 (List.mem_cons_of_mem c hmem), fun hmem => h.2 (List.mem_cons_of_mem c hmem)⟩

/-- What a level is made of. -/
private theorem Level.ok_key {k w w' w'' : String} (h : Level.ok ⟨.key k, w, w', w''⟩ = true) :
    Ws w.toList ∧ Ws w'.toList ∧ Ws w''.toList ∧ Plain k.toList ∧ ∀ c ∈ k.toList, 32 ≤ c.toNat := by
  simp only [Level.ok, Bool.and_eq_true, List.all_eq_true, bne_iff_ne, decide_eq_true_eq] at h
  obtain ⟨⟨⟨hw, hw'⟩, hw''⟩, hk⟩ := h
  exact ⟨hw, hw', hw'', ⟨fun hmem => (hk _ hmem).1.1 rfl, fun hmem => (hk _ hmem).1.2 rfl⟩, fun c hc => (hk c hc).2⟩

private theorem Level.ok_any {w w' w'' : String} (h : Level.ok ⟨.any, w, w', w''⟩ = true) :
    Ws w.toList ∧ Ws w''.toList := by
  simp only [Level.ok, Bool.and_eq_true, List.all_eq_true] at h
  exact h

private theorem plain_opening {levels : List Level} (hok : levels.all Level.ok = true) :
    plain false (opening levels) = true := by
  induction levels with
  | nil => rfl
  | cons level levels ih =>
    rw [List.all_cons, Bool.and_eq_true] at hok
    have hinner := ih hok.2
    rw [opening, List.flatMap_cons, ← opening]
    obtain ⟨step, w, w', w''⟩ := level
    cases step with
    | key k =>
      obtain ⟨hw, hw', -, hk, -⟩ := Level.ok_key hok.1
      rw [Level.opening, List.cons_append, List.append_assoc, plain, if_neg (by decide), if_neg (by decide),
        plain_skip (plain_of_ws hw), List.cons_append, plain, if_pos rfl, List.append_assoc, plain_skip hk,
        List.cons_append, plain, if_pos rfl, List.cons_append, plain, if_neg (by decide), if_neg (by decide),
        plain_skip (plain_of_ws hw')]
      exact hinner
    | any =>
      obtain ⟨hw, -⟩ := Level.ok_any hok.1
      rw [Level.opening, List.cons_append, plain, if_neg (by decide), if_neg (by decide), plain_skip (plain_of_ws hw)]
      exact hinner

private theorem no_quote_closing {levels : List Level} (hok : levels.all Level.ok = true) : '"' ∉ closing levels := by
  induction levels with
  | nil => simp [closing]
  | cons level levels ih =>
    rw [List.all_cons, Bool.and_eq_true] at hok
    rw [closing, List.mem_append, not_or]
    refine ⟨ih hok.2, ?_⟩
    obtain ⟨step, w, w', w''⟩ := level
    cases step with
    | key k =>
      obtain ⟨-, -, hw'', -⟩ := Level.ok_key hok.1
      simp [Level.closing, (plain_of_ws hw'').1]
    | any =>
      obtain ⟨-, hw''⟩ := Level.ok_any hok.1
      simp [Level.closing, (plain_of_ws hw'').1]

private theorem spells_levels {leaf : Value Number} {x : List Char} (hx : Spells d leaf x) {levels : List Level}
    (hok : levels.all Level.ok = true) :
    Spells d (nest leaf (levels.map Level.step)) (opening levels ++ (x ++ closing levels)) := by
  induction levels with
  | nil =>
    simp only [opening, closing, List.flatMap_nil, List.nil_append, List.append_nil]
    exact hx
  | cons level levels ih =>
    rw [List.all_cons, Bool.and_eq_true] at hok
    have hinner := ih hok.2
    rw [opening, List.flatMap_cons, ← opening, closing]
    generalize hy : opening levels ++ (x ++ closing levels) = y at hinner
    have htext : level.opening ++ opening levels ++ (x ++ (closing levels ++ level.closing)) =
        level.opening ++ (y ++ level.closing) := by
      rw [← hy]
      simp
    rw [htext]
    obtain ⟨step, w, w', w''⟩ := level
    cases step with
    | key k =>
      obtain ⟨hw, hw', hw'', hplain, hctl⟩ := Level.ok_key hok.1
      have hkey : Quoted d k ('"' :: (k.toList ++ ['"'])) := by
        have := quoted_of_plain (d := d) hplain hctl
        rwa [String.ofList_toList] at this
      refine ⟨w.toList ++ ('"' :: (k.toList ++ ['"']) ++ ([] ++ ':' :: (w'.toList ++ (y ++ w''.toList)))),
        by simp [Level.opening, Level.closing], Or.inr ⟨by simp, ?_⟩⟩
      exact ⟨w.toList, _, [], w'.toList, y, w''.toList, [], by simp, hw, hkey, by simp [Ws], hw', hinner, hw'', rfl⟩
    | any =>
      obtain ⟨hw, hw''⟩ := Level.ok_any hok.1
      refine ⟨w.toList ++ (y ++ w''.toList), by simp [Level.opening, Level.closing], Or.inr ⟨by simp, ?_⟩⟩
      exact ⟨w.toList, y, w''.toList, [], by simp, hw, hinner, hw'', rfl⟩

namespace Pattern

private theorem parts (p : Pattern) : Ws p.start.toList ∧ p.levels.all Level.ok = true ∧ Ws p.stop.toList := by
  have hok := p.ok
  rw [Bool.and_eq_true, Bool.and_eq_true] at hok
  exact ⟨List.all_eq_true.1 hok.1.1, hok.1.2, List.all_eq_true.1 hok.2⟩

private theorem plain_start (p : Pattern) : plain false (p.start.toList ++ opening p.levels) = true := by
  obtain ⟨hstart, hlevels, -⟩ := p.parts
  rw [plain_skip (plain_of_ws hstart)]
  exact plain_opening hlevels

/-- With a string without quotes and backslashes, the pattern is the one for the string. -/
theorem eq_nest_of_plain (p : Pattern) {s : String} (hs : Plain s.toList) {doc : Jsonb}
    (h : Jsonb.ofText (String.ofList (p.text s)) = some doc) : doc.value = nest (.str s) p.path := by
  obtain ⟨hstart, hlevels, hstop⟩ := p.parts
  obtain ⟨v, hv, rfl⟩ := Option.map_eq_some_iff.1 h
  rw [String.toList_ofList] at hv
  have hctl := chars_of_parse_splice p.plain_start hs hv
  have hquoted : Quoted postgres s ('"' :: (s.toList ++ ['"'])) := by
    have := quoted_of_plain (d := postgres) hs hctl
    rwa [String.ofList_toList] at this
  have hleaf : Spells postgres (.str s) ('"' :: (s.toList ++ ['"'])) := hquoted
  have hspells := spells_levels hleaf hlevels
  have hparse : parse postgres (p.text s) = some (nest (.str s) p.path) :=
    parse_eq_some.2 ⟨_, _, _, by simp [text], hstart, hspells, hstop⟩
  rw [hparse] at hv
  cases hv
  exact Jsonb.ofValue_nest s p.path

/-- With any other string, the pattern does not have it. -/
theorem not_mem_strings (p : Pattern) {s : String} (hs : ¬ Plain s.toList) {doc : Jsonb}
    (h : Jsonb.ofText (String.ofList (p.text s)) = some doc) : s ∉ doc.value.strings := by
  obtain ⟨-, hlevels, hstop⟩ := p.parts
  obtain ⟨v, hv, rfl⟩ := Option.map_eq_some_iff.1 h
  rw [String.toList_ofList] at hv
  have hend : '"' ∉ closing p.levels ++ p.stop.toList := by
    rw [List.mem_append, not_or]
    exact ⟨no_quote_closing hlevels, (plain_of_ws hstop).1⟩
  have hnot := not_mem_strings_splice p.plain_start hend hs hv
  rw [String.ofList_toList] at hnot
  exact fun hmem => hnot (Jsonb.strings_ofValue v s hmem)

end Pattern

end Json
