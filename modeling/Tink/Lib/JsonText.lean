import Mathlib.Data.List.TakeWhile
import Tink.Lib.Columns
import Tink.Lib.Json

/-!
# JSON texts

Reading a value from a text (`parse`), and the grammar of texts (`Spells`): a text is read as a value exactly if it
spells it, with white space around it (`parse_eq_some`).

Readers differ in what they make of the escape of half a surrogate pair and of the character 0; that is a `Dialect`.
The limits of a reader on the size and the depth of a text are left out.
-/

namespace Json

open Pg

/-! ### Numbers -/

def digitsValue (ds : List Char) : Nat := ds.foldl (fun n c => 10 * n + (c.toNat - 48)) 0

/-- The parts of a literal: its sign, the digits in front of the point and behind it, and the exponent. -/
structure Parts where
  neg : Bool
  int : List Char
  frac : List Char
  exp : Int
deriving DecidableEq

def natural (t : List Char) : Option Nat := if t ≠ [] ∧ t.all Char.isDigit then some (digitsValue t) else none

def readExp : List Char → Option Int
  | [] => some 0
  | c :: t =>
    if c = 'e' ∨ c = 'E' then
      match t with
      | '+' :: t => (natural t).map Int.ofNat
      | '-' :: t => (natural t).map Int.negOfNat
      | t => (natural t).map Int.ofNat
    else none

def readFrac : List Char → Option (List Char × List Char)
  | '.' :: t => if t.takeWhile Char.isDigit = [] then none
    else some (t.takeWhile Char.isDigit, t.dropWhile Char.isDigit)
  | t => some ([], t)

def readUnsigned (neg : Bool) (t : List Char) : Option Parts :=
  let int := t.takeWhile Char.isDigit
  if int = ['0'] ∨ (int ≠ [] ∧ int.head? ≠ some '0') then do
    let (frac, t) ← readFrac (t.dropWhile Char.isDigit)
    let exp ← readExp t
    some ⟨neg, int, frac, exp⟩
  else none

def readParts : List Char → Option Parts
  | '-' :: t => readUnsigned true t
  | t => readUnsigned false t

/-- The literal of a number. -/
structure Number where
  text : List Char
  valid : (readParts text).isSome = true
deriving DecidableEq

/-- The characters of literals. -/
def isNumberChar (c : Char) : Bool := c.isDigit || c == '-' || c == '+' || c == '.' || c == 'e' || c == 'E'

def readNumber (t : List Char) : Option (Number × List Char) :=
  if h : (readParts (t.takeWhile isNumberChar)).isSome = true then
    some (⟨t.takeWhile isNumberChar, h⟩, t.dropWhile isNumberChar)
  else none

/-! ### Strings -/

/-- What a reader makes of an escape for half a surrogate pair, and whether it accepts the one for the character 0. -/
structure Dialect where
  lone : Option Char
  nul : Bool

/-- The text of a string up to the closing quote, and what follows. -/
def rawString : List Char → Option (List Char × List Char)
  | [] => none
  | c :: t =>
    if c = '"' then some ([], t)
    else if c = '\\' then
      match t with
      | [] => none
      | e :: t => (rawString t).map fun p => (c :: e :: p.1, p.2)
    else (rawString t).map fun p => (c :: p.1, p.2)

/-- A character, or the code of an escape. -/
inductive CodeUnit where
  | char (c : Char)
  | code (n : Nat)

def hex4 (a b c d : Char) : Option Nat := do
  let a ← hexValue a
  let b ← hexValue b
  let c ← hexValue c
  let d ← hexValue d
  some (4096 * a.val + 256 * b.val + 16 * c.val + d.val)

/-- The escapes of one character. -/
def escape? (c : Char) : Option Char :=
  if c = '"' ∨ c = '\\' ∨ c = '/' then some c
  else if c = 'b' then some '\x08'
  else if c = 'f' then some '\x0c'
  else if c = 'n' then some '\n'
  else if c = 'r' then some '\r'
  else if c = 't' then some '\t'
  else none

/-- Control characters may not stand in a string. -/
def codeUnits : List Char → Option (List CodeUnit)
  | [] => some []
  | c :: t =>
    if c = '\\' then
      match t with
      | [] => none
      | e :: t =>
        if e = 'u' then
          match t with
          | w :: x :: y :: z :: t => do
            let n ← hex4 w x y z
            let units ← codeUnits t
            some (.code n :: units)
          | _ => none
        else do
          let x ← escape? e
          let units ← codeUnits t
          some (.char x :: units)
    else if c.toNat < 32 then none
    else (codeUnits t).map fun units => .char c :: units

def isHigh (n : Nat) : Bool := 0xd800 ≤ n ∧ n < 0xdc00

def isLow (n : Nat) : Bool := 0xdc00 ≤ n ∧ n < 0xe000

/-- What a code stands for that is not the first half of a pair. -/
def codePoint (d : Dialect) (n : Nat) : Option Char :=
  if isHigh n ∨ isLow n then d.lone
  else if n = 0 ∧ d.nul = false then none
  else some (Char.ofNat n)

def decodeUnits (d : Dialect) : List CodeUnit → Option (List Char)
  | [] => some []
  | .char c :: units => (decodeUnits d units).map fun cs => c :: cs
  | .code n :: .code m :: units =>
    if isHigh n ∧ isLow m then
      (decodeUnits d units).map fun cs => Char.ofNat (0x10000 + (n - 0xd800) * 0x400 + (m - 0xdc00)) :: cs
    else do
      let c ← codePoint d n
      let cs ← decodeUnits d (.code m :: units)
      some (c :: cs)
  | .code n :: units => do
    let c ← codePoint d n
    let cs ← decodeUnits d units
    some (c :: cs)

def unescape (d : Dialect) (raw : List Char) : Option (List Char) := do
  let units ← codeUnits raw
  decodeUnits d units

def readString (d : Dialect) (t : List Char) : Option (String × List Char) := do
  let (raw, rest) ← rawString t
  let s ← unescape d raw
  some (String.ofList s, rest)

/-! ### Values -/

def isSpace (c : Char) : Bool := c == ' ' || c == '\n' || c == '\r' || c == '\t'

def skip (t : List Char) : List Char := t.dropWhile isSpace

def readLiteral (t : List Char) : Option (Value Number × List Char) :=
  if ['n', 'u', 'l', 'l'] <+: t then some (.null, t.drop 4)
  else if ['t', 'r', 'u', 'e'] <+: t then some (.bool true, t.drop 4)
  else if ['f', 'a', 'l', 's', 'e'] <+: t then some (.bool false, t.drop 5)
  else (readNumber t).map fun p => (.num p.1, p.2)

mutual

/-- Reads a value; the first argument bounds its depth and the number of items and fields. -/
def readValue (d : Dialect) : Nat → List Char → Option (Value Number × List Char)
  | 0, _ => none
  | _ + 1, [] => none
  | n + 1, c :: t =>
    if c = '"' then (readString d t).map fun p => (.str p.1, p.2)
    else if c = '[' then
      if (skip t).head? = some ']' then some (.arr [], (skip t).tail)
      else (readItems d n t).map fun p => (.arr p.1, p.2)
    else if c = '\x7b' then
      if (skip t).head? = some '\x7d' then some (.obj [], (skip t).tail)
      else (readFields d n t).map fun p => (.obj p.1, p.2)
    else readLiteral (c :: t)

/-- Reads the items of an array up to its end. -/
def readItems (d : Dialect) : Nat → List Char → Option (List (Value Number) × List Char)
  | 0, _ => none
  | n + 1, t => do
    let (v, t) ← readValue d n (skip t)
    match skip t with
    | ',' :: t => do
      let (items, t) ← readItems d n t
      some (v :: items, t)
    | ']' :: t => some ([v], t)
    | _ => none

/-- Reads the fields of an object up to its end. -/
def readFields (d : Dialect) : Nat → List Char → Option (List (String × Value Number) × List Char)
  | 0, _ => none
  | n + 1, t =>
    match skip t with
    | '"' :: t => do
      let (k, t) ← readString d t
      match skip t with
      | ':' :: t => do
        let (v, t) ← readValue d n (skip t)
        match skip t with
        | ',' :: t => do
          let (fields, t) ← readFields d n t
          some ((k, v) :: fields, t)
        | '\x7d' :: t => some ([(k, v)], t)
        | _ => none
      | _ => none
    | _ => none

end

/-- Reads a text. -/
def parse (d : Dialect) (t : List Char) : Option (Value Number) := do
  let (v, rest) ← readValue d (t.length + 1) (skip t)
  if skip rest = [] then some v else none

/-! ### The grammar -/

/-- White space. -/
def Ws (t : List Char) : Prop := ∀ c ∈ t, isSpace c = true

/-- Every quote, and every backslash, is escaped. -/
def closed : List Char → Bool
  | [] => true
  | c :: t =>
    if c = '"' then false
    else if c = '\\' then
      match t with
      | [] => false
      | _ :: t => closed t
    else closed t

/-- The text is the string in quotes. -/
def Quoted (d : Dialect) (s : String) (t : List Char) : Prop :=
  ∃ raw, t = '"' :: (raw ++ ['"']) ∧ closed raw = true ∧ unescape d raw = some s.toList

mutual

/-- The text spells the value. -/
def Spells (d : Dialect) : Value Number → List Char → Prop
  | .null, t => t = ['n', 'u', 'l', 'l']
  | .bool true, t => t = ['t', 'r', 'u', 'e']
  | .bool false, t => t = ['f', 'a', 'l', 's', 'e']
  | .num n, t => t = n.text
  | .str s, t => Quoted d s t
  | .arr items, t => ∃ body, t = '[' :: (body ++ [']']) ∧
      ((items = [] ∧ Ws body) ∨ (items ≠ [] ∧ SpellsItems d items (',' :: body)))
  | .obj fields, t => ∃ body, t = '\x7b' :: (body ++ ['\x7d']) ∧
      ((fields = [] ∧ Ws body) ∨ (fields ≠ [] ∧ SpellsFields d fields (',' :: body)))

/-- The text spells the items, with a comma in front of each. -/
def SpellsItems (d : Dialect) : List (Value Number) → List Char → Prop
  | [], t => t = []
  | v :: items, t => ∃ w x w' rest, t = ',' :: (w ++ (x ++ (w' ++ rest))) ∧ Ws w ∧ Spells d v x ∧ Ws w' ∧
      SpellsItems d items rest

/-- The text spells the fields, with a comma in front of each. -/
def SpellsFields (d : Dialect) : List (String × Value Number) → List Char → Prop
  | [], t => t = []
  | (k, v) :: fields, t => ∃ w key w₁ w₂ x w₃ rest,
      t = ',' :: (w ++ (key ++ (w₁ ++ (':' :: (w₂ ++ (x ++ (w₃ ++ rest))))))) ∧ Ws w ∧ Quoted d k key ∧
        Ws w₁ ∧ Ws w₂ ∧
      Spells d v x ∧ Ws w₃ ∧ SpellsFields d fields rest

end

variable {d : Dialect}

/-! ### White space and literals -/

private theorem skip_append {w t : List Char} (h : Ws w) : skip (w ++ t) = skip t := List.dropWhile_append_of_pos h

private theorem skip_cons {c : Char} {t : List Char} (h : isSpace c = false) : skip (c :: t) = c :: t :=
  List.dropWhile_cons_of_neg (by simp [h])

/-- The white space that is skipped. -/
private theorem exists_skip (t : List Char) : ∃ w, Ws w ∧ t = w ++ skip t :=
  ⟨t.takeWhile isSpace, fun _ hc => List.mem_takeWhile_imp hc, (List.takeWhile_append_dropWhile ..).symm⟩

/-- What follows does not continue a number. -/
def Stops (t : List Char) : Prop := ∀ c, t.head? = some c → isNumberChar c = false

private theorem takeWhile_append_stops {x rest : List Char} (hx : ∀ c ∈ x, isNumberChar c = true)
    (hrest : Stops rest) :
    (x ++ rest).takeWhile isNumberChar = x ∧ (x ++ rest).dropWhile isNumberChar = rest := by
  rw [List.takeWhile_append_of_pos hx, List.dropWhile_append_of_pos hx]
  cases rest with
  | nil => simp
  | cons c rest =>
    have hc := hrest c rfl
    simp [hc]

private theorem rawString_quote (t : List Char) : rawString ('"' :: t) = some ([], t) := by
  rw [rawString.eq_def]
  rfl

private theorem rawString_backslash (e : Char) (t : List Char) :
    rawString ('\\' :: e :: t) = (rawString t).map fun p => ('\\' :: e :: p.1, p.2) := by
  rw [rawString.eq_def]
  rfl

private theorem rawString_cons {c : Char} (hq : c ≠ '"') (hb : c ≠ '\\') (t : List Char) :
    rawString (c :: t) = (rawString t).map fun p => (c :: p.1, p.2) := by
  rw [rawString.eq_def]
  simp only [hq, hb, if_false]

theorem closed_quote (t : List Char) : closed ('"' :: t) = false := by
  rw [closed.eq_def]
  rfl

theorem closed_backslash (e : Char) (t : List Char) : closed ('\\' :: e :: t) = closed t := by
  rw [closed.eq_def]
  rfl

theorem closed_cons {c : Char} (hq : c ≠ '"') (hb : c ≠ '\\') (t : List Char) : closed (c :: t) = closed t := by
  rw [closed.eq_def]
  simp only [hq, hb, if_false]

/-- The text up to the closing quote. -/
theorem rawString_eq_some {t raw rest : List Char} :
    rawString t = some (raw, rest) ↔ t = raw ++ '"' :: rest ∧ closed raw = true := by
  induction t using rawString.induct generalizing raw with
  | case1 =>
    simp [rawString]
  | case2 t =>
    rw [rawString_quote]
    constructor
    · intro h
      cases h
      exact ⟨rfl, rfl⟩
    · rintro ⟨heq, hclosed⟩
      cases raw with
      | nil =>
        cases heq
        rfl
      | cons c raw =>
        cases heq
        rw [closed_quote] at hclosed
        cases hclosed
  | case3 hq =>
    refine iff_of_false (by simp [rawString]) ?_
    rintro ⟨heq, hclosed⟩
    cases raw with
    | nil => cases heq
    | cons c raw =>
      have hlen := congrArg List.length heq
      simp at hlen
  | case4 e t hq ih =>
    rw [rawString_backslash]
    simp only [Option.map_eq_some_iff, Prod.exists, Prod.mk.injEq]
    constructor
    · rintro ⟨raw', rest', hraw, rfl, rfl⟩
      obtain ⟨rfl, hclosed⟩ := ih.1 hraw
      exact ⟨rfl, by rw [closed_backslash, hclosed]⟩
    · rintro ⟨heq, hclosed⟩
      rcases raw with _ | ⟨c, _ | ⟨e', raw⟩⟩
      · cases heq
      · cases heq
        cases hclosed
      · cases heq
        rw [closed_backslash] at hclosed
        exact ⟨raw, rest, ih.2 ⟨rfl, hclosed⟩, rfl, rfl⟩
  | case5 c t hq hb ih =>
    rw [rawString_cons hq hb]
    simp only [Option.map_eq_some_iff, Prod.exists, Prod.mk.injEq]
    constructor
    · rintro ⟨raw', rest', hraw, rfl, rfl⟩
      obtain ⟨rfl, hclosed⟩ := ih.1 hraw
      exact ⟨rfl, by rw [closed_cons hq hb, hclosed]⟩
    · rintro ⟨heq, hclosed⟩
      cases raw with
      | nil =>
        cases heq
        exact absurd rfl hq
      | cons c' raw =>
        cases heq
        rw [closed_cons hq hb] at hclosed
        exact ⟨raw, rest, ih.2 ⟨rfl, hclosed⟩, rfl, rfl⟩

/-- A string is read behind the opening quote, up to the closing one. -/
private theorem readString_eq_some {s : String} {t rest : List Char} :
    readString d t = some (s, rest) ↔ ∃ x, '"' :: t = x ++ rest ∧ Quoted d s x := by
  constructor
  · intro h
    simp only [readString, Option.bind_eq_bind, Option.bind_eq_some_iff, Prod.exists, Option.some.injEq,
      Prod.mk.injEq] at h
    obtain ⟨raw, rest', hraw, s', hs, rfl, rfl⟩ := h
    obtain ⟨rfl, hclosed⟩ := rawString_eq_some.1 hraw
    exact ⟨'"' :: (raw ++ ['"']), by simp, raw, rfl, hclosed, by rw [hs, String.toList_ofList]⟩
  · rintro ⟨x, hx, raw, rfl, hclosed, hs⟩
    have ht : t = raw ++ '"' :: rest := by simpa using hx
    have hraw := rawString_eq_some.2 ⟨ht, hclosed⟩
    simp [readString, hraw, hs]

/-! ### Numbers -/

private theorem isNumberChar_of_isDigit {c : Char} (h : c.isDigit = true) : isNumberChar c = true := by
  simp [isNumberChar, h]

private theorem natural_eq_some {t : List Char} {n : Nat} (h : natural t = some n) :
    ∀ c ∈ t, isNumberChar c = true := by
  unfold natural at h
  split at h
  · rename_i hds
    intro c hc
    exact isNumberChar_of_isDigit (List.all_eq_true.1 hds.2 c hc)
  · cases h

private theorem readExp_chars {t : List Char} {e : Int} (h : readExp t = some e) :
    ∀ c ∈ t, isNumberChar c = true := by
  cases t with
  | nil => simp
  | cons c t =>
    rw [readExp.eq_def] at h
    simp only at h
    split at h
    · rename_i hc
      have hc' : isNumberChar c = true := by rcases hc with rfl | rfl <;> rfl
      have hrest : ∀ x ∈ t, isNumberChar x = true := by
        split at h
        · obtain ⟨n, hn, -⟩ := Option.map_eq_some_iff.1 h
          exact List.forall_mem_cons.2 ⟨rfl, natural_eq_some hn⟩
        · obtain ⟨n, hn, -⟩ := Option.map_eq_some_iff.1 h
          exact List.forall_mem_cons.2 ⟨rfl, natural_eq_some hn⟩
        · obtain ⟨n, hn, -⟩ := Option.map_eq_some_iff.1 h
          exact natural_eq_some hn
      exact List.forall_mem_cons.2 ⟨hc', hrest⟩
    · cases h

private theorem forall_mem_takeWhile_digits (t : List Char) :
    ∀ c ∈ t.takeWhile Char.isDigit, isNumberChar c = true := by
  intro c hc
  exact isNumberChar_of_isDigit (List.mem_takeWhile_imp hc)

/-- The parts of a number that has been split at the end of some digits. -/
private theorem forall_mem_of_digits {t : List Char} (h : ∀ c ∈ t.dropWhile Char.isDigit, isNumberChar c = true) :
    ∀ c ∈ t, isNumberChar c = true := by
  intro c hc
  rw [← List.takeWhile_append_dropWhile (p := Char.isDigit) (l := t)] at hc
  rcases List.mem_append.1 hc with hc | hc
  · exact forall_mem_takeWhile_digits t c hc
  · exact h c hc

private theorem readFrac_chars {t frac rest : List Char} (h : readFrac t = some (frac, rest))
    (hrest : ∀ c ∈ rest, isNumberChar c = true) : ∀ c ∈ t, isNumberChar c = true := by
  unfold readFrac at h
  split at h
  · split at h
    · cases h
    · cases h
      exact List.forall_mem_cons.2 ⟨rfl, forall_mem_of_digits hrest⟩
  · cases h
    exact hrest

private theorem readUnsigned_chars {neg : Bool} {t : List Char} {p : Parts} (h : readUnsigned neg t = some p) :
    (∀ c ∈ t, isNumberChar c = true) ∧ ∃ c, t.head? = some c ∧ c.isDigit = true := by
  simp only [readUnsigned] at h
  split at h
  · rename_i hint
    simp only [Option.bind_eq_bind, Option.bind_eq_some_iff, Prod.exists] at h
    obtain ⟨frac, rest, hfrac, e, hexp, -⟩ := h
    refine ⟨forall_mem_of_digits (readFrac_chars hfrac (readExp_chars hexp)), ?_⟩
    have hne : t.takeWhile Char.isDigit ≠ [] := by
      rcases hint with hzero | ⟨hne, -⟩
      · rw [hzero]
        simp
      · exact hne
    cases t with
    | nil => simp at hne
    | cons c t =>
      refine ⟨c, rfl, ?_⟩
      by_contra hc
      exact hne (List.takeWhile_cons_of_neg hc)
  · cases h

/-- The characters of a literal, and the first one. -/
theorem Number.chars (n : Number) : (∀ c ∈ n.text, isNumberChar c = true) ∧
    ∃ c, n.text.head? = some c ∧ (c = '-' ∨ c.isDigit = true) := by
  obtain ⟨p, hp⟩ := Option.isSome_iff_exists.1 n.valid
  unfold readParts at hp
  split at hp
  · rename_i t ht
    obtain ⟨hall, -⟩ := readUnsigned_chars hp
    rw [ht]
    exact ⟨List.forall_mem_cons.2 ⟨rfl, hall⟩, '-', rfl, Or.inl rfl⟩
  · obtain ⟨hall, c, hc, hdigit⟩ := readUnsigned_chars hp
    exact ⟨hall, c, hc, Or.inr hdigit⟩

/-- A literal is read up to where it ends. -/
private theorem readNumber_text (n : Number) {rest : List Char} (h : Stops rest) :
    readNumber (n.text ++ rest) = some (n, rest) := by
  obtain ⟨htake, hdrop⟩ := takeWhile_append_stops n.chars.1 h
  simp only [readNumber, htake, hdrop, n.valid, dif_pos]

private theorem readNumber_eq_some {t rest : List Char} {n : Number} (h : readNumber t = some (n, rest)) :
    t = n.text ++ rest := by
  unfold readNumber at h
  split at h
  · cases h
    exact (List.takeWhile_append_dropWhile ..).symm
  · cases h

private theorem readLiteral_eq_some {t rest : List Char} {v : Value Number} (h : readLiteral t = some (v, rest)) :
    ∃ x, t = x ++ rest ∧ Spells d v x := by
  unfold readLiteral at h
  split at h
  · rename_i hpre
    obtain ⟨rest', rfl⟩ := hpre
    cases h
    exact ⟨_, rfl, rfl⟩
  · split at h
    · rename_i hpre
      obtain ⟨rest', rfl⟩ := hpre
      cases h
      exact ⟨_, rfl, rfl⟩
    · split at h
      · rename_i hpre
        obtain ⟨rest', rfl⟩ := hpre
        cases h
        exact ⟨_, rfl, rfl⟩
      · obtain ⟨p, hp, heq⟩ := Option.map_eq_some_iff.1 h
        cases heq
        exact ⟨_, readNumber_eq_some hp, rfl⟩

/-- The first character of a value. -/
private theorem head_of_spells {v : Value Number} {x : List Char} (h : Spells d v x) :
    ∃ c y, x = c :: y ∧ isSpace c = false ∧ c ≠ ']' ∧ c ≠ '\x7d' := by
  have hdigit : ∀ c : Char, c.isDigit = true → isSpace c = false ∧ c ≠ ']' ∧ c ≠ '\x7d' := by
    intro c hc
    refine ⟨?_, ?_, ?_⟩
    · by_contra hspace
      simp only [isSpace, Bool.not_eq_false, Bool.or_eq_true, beq_iff_eq] at hspace
      rcases hspace with ((rfl | rfl) | rfl) | rfl <;> cases hc
    · rintro rfl
      cases hc
    · rintro rfl
      cases hc
  cases v with
  | null => exact ⟨_, _, h, by decide⟩
  | bool b =>
    cases b with
    | true => exact ⟨_, _, h, by decide⟩
    | false => exact ⟨_, _, h, by decide⟩
  | num n =>
    obtain ⟨-, c, hc, hfirst⟩ := n.chars
    obtain ⟨y, hy⟩ := List.head?_eq_some_iff.1 hc
    refine ⟨c, y, h.trans hy, ?_⟩
    rcases hfirst with rfl | hd
    · decide
    · exact hdigit c hd
  | str s =>
    obtain ⟨raw, rfl, -⟩ := h
    exact ⟨_, _, rfl, by decide⟩
  | arr items =>
    obtain ⟨body, rfl, -⟩ := h
    exact ⟨_, _, rfl, by decide⟩
  | obj fields =>
    obtain ⟨body, rfl, -⟩ := h
    exact ⟨_, _, rfl, by decide⟩

/-! ### Reading what is spelled -/

private theorem stops_of_ws {w rest : List Char} (hw : Ws w) (hrest : Stops rest) : Stops (w ++ rest) := by
  cases w with
  | nil => exact hrest
  | cons c w =>
    intro c' hc'
    cases hc'
    have hc := hw c List.mem_cons_self
    simp only [isSpace, Bool.or_eq_true, beq_iff_eq] at hc
    rcases hc with ((rfl | rfl) | rfl) | rfl <;> decide

private theorem stops_cons {c : Char} (h : isNumberChar c = false) (rest : List Char) : Stops (c :: rest) := by
  intro c' hc'
  cases hc'
  exact h

/-- The characters that begin the values read one by one are not those of the other ones. -/
private theorem readValue_literal {n : Nat} {c : Char} {t : List Char}
    (hq : c ≠ '"') (hb : c ≠ '[') (ho : c ≠ '\x7b') :
    readValue d (n + 1) (c :: t) = readLiteral (c :: t) := by
  rw [readValue, if_neg hq, if_neg hb, if_neg ho]

private theorem readLiteral_number (n : Number) {rest : List Char} (h : Stops rest) :
    readLiteral (n.text ++ rest) = some (.num n, rest) := by
  obtain ⟨-, c, hc, hfirst⟩ := n.chars
  obtain ⟨y, hy⟩ := List.head?_eq_some_iff.1 hc
  have hno : ∀ (e : Char) (w : List Char), e.isDigit = false → e ≠ '-' → ¬ (e :: w) <+: n.text ++ rest := by
    intro e w he hminus hpre
    rw [hy, List.cons_append, List.cons_prefix_cons] at hpre
    rcases hfirst with rfl | hdigit
    · exact hminus hpre.1
    · rw [hpre.1, hdigit] at he
      cases he
  rw [readLiteral, if_neg (hno 'n' _ rfl (by decide)), if_neg (hno 't' _ rfl (by decide)),
    if_neg (hno 'f' _ rfl (by decide)), readNumber_text n h]
  rfl

private theorem readValue_string {n : Nat} {s : String} {x rest : List Char} (h : Quoted d s x) :
    readValue d (n + 1) (x ++ rest) = some (.str s, rest) := by
  obtain ⟨raw, rfl, hclosed, hs⟩ := h
  have hread : readString d (raw ++ '"' :: rest) = some (s, rest) :=
    readString_eq_some.2 ⟨'"' :: (raw ++ ['"']), by simp, raw, rfl, hclosed, hs⟩
  rw [List.cons_append, List.append_assoc, readValue, if_pos rfl, List.singleton_append, hread]
  rfl

private theorem readValue_number {n : Nat} (m : Number) {rest : List Char} (h : Stops rest) :
    readValue d (n + 1) (m.text ++ rest) = some (.num m, rest) := by
  obtain ⟨-, c, hc, hfirst⟩ := m.chars
  obtain ⟨y, hy⟩ := List.head?_eq_some_iff.1 hc
  have hne : ∀ e : Char, e.isDigit = false → e ≠ '-' → c ≠ e := by
    rintro e he hminus rfl
    rcases hfirst with hc' | hdigit
    · exact hminus hc'
    · rw [hdigit] at he
      cases he
  have hliteral := readLiteral_number m h
  rw [hy] at hliteral ⊢
  rw [List.cons_append] at hliteral ⊢
  rw [readValue_literal (hne '"' rfl (by decide)) (hne '[' rfl (by decide)) (hne '\x7b' rfl (by decide)), hliteral]

/-- A text that spells the value is read as it, with enough fuel. -/
def Reads (d : Dialect) (v : Value Number) : Prop :=
  ∀ {x rest : List Char} {n : Nat}, Spells d v x → x.length < n → Stops rest →
    readValue d n (x ++ rest) = some (v, rest)

private theorem skip_spells {v : Value Number} {w x rest : List Char} (hw : Ws w) (h : Spells d v x) :
    skip (w ++ (x ++ rest)) = x ++ rest := by
  obtain ⟨c, y, rfl, hspace, -⟩ := head_of_spells h
  rw [skip_append hw, List.cons_append, skip_cons hspace]

private theorem readItems_of_spells {items : List (Value Number)} (hitems : ∀ v ∈ items, Reads d v) (hne : items ≠ [])
    {body rest : List Char} {n : Nat} (h : SpellsItems d items (',' :: body)) (hn : body.length + 1 < n) :
    readItems d n (body ++ ']' :: rest) = some (items, rest) := by
  induction items generalizing body n with
  | nil => exact absurd rfl hne
  | cons v items ih =>
    obtain ⟨w, x, w', tail, hbody, hw, hv, hw', htail⟩ := h
    have hbody : body = w ++ (x ++ (w' ++ tail)) := by simpa using hbody
    subst hbody
    simp only [List.length_append] at hn
    obtain ⟨c, y, hx, -⟩ := head_of_spells hv
    have hpos : 0 < x.length := by rw [hx]; simp
    obtain ⟨n, rfl⟩ : ∃ m, n = m + 1 := ⟨n - 1, by omega⟩
    simp only [List.append_assoc]
    rw [readItems, skip_spells hw hv]
    cases items with
    | nil =>
      cases htail
      have hstops : Stops (w' ++ ([] ++ ']' :: rest)) := stops_of_ws hw' (stops_cons rfl _)
      rw [hitems v List.mem_cons_self hv (by omega) hstops]
      simp only [Option.bind_eq_bind, Option.bind_some, skip_append hw', List.nil_append,
        skip_cons (show isSpace ']' = false from rfl)]
    | cons v' items =>
      obtain ⟨w₁, x₁, w₁', tail', rfl, hrest⟩ := htail
      have hstops : Stops (w' ++ (',' :: (w₁ ++ (x₁ ++ (w₁' ++ tail'))) ++ ']' :: rest)) :=
        stops_of_ws hw' (stops_cons rfl _)
      rw [hitems v List.mem_cons_self hv (by omega) hstops]
      have hlen : (w₁ ++ (x₁ ++ (w₁' ++ tail'))).length + 1 < n := by
        simp only [List.length_cons, List.length_append] at hn ⊢
        omega
      have hrec := ih (fun u hu => hitems u (List.mem_cons_of_mem v hu)) (by simp)
        ⟨w₁, x₁, w₁', tail', rfl, hrest⟩ hlen
      simp only [Option.bind_eq_bind, Option.bind_some, skip_append hw', List.cons_append,
        skip_cons (show isSpace ',' = false from rfl), hrec]

private theorem skip_quoted {k : String} {w x : List Char} (hw : Ws w) (h : Quoted d k x) (rest : List Char) :
    skip (w ++ (x ++ rest)) = x ++ rest := by
  obtain ⟨raw, rfl, -⟩ := h
  rw [skip_append hw, List.cons_append, skip_cons rfl]

private theorem readFields_of_spells {fields : List (String × Value Number)} (hfields : ∀ f ∈ fields, Reads d f.2)
    (hne : fields ≠ []) {body rest : List Char} {n : Nat} (h : SpellsFields d fields (',' :: body))
    (hn : body.length + 1 < n) : readFields d n (body ++ '\x7d' :: rest) = some (fields, rest) := by
  induction fields generalizing body n with
  | nil => exact absurd rfl hne
  | cons f fields ih =>
    obtain ⟨k, v⟩ := f
    obtain ⟨w, key, w₁, w₂, x, w₃, tail, hbody, hw, hkey, hw₁, hw₂, hv, hw₃, htail⟩ := h
    have hbody : body = w ++ (key ++ (w₁ ++ (':' :: (w₂ ++ (x ++ (w₃ ++ tail)))))) := by simpa using hbody
    subst hbody
    simp only [List.length_append, List.length_cons] at hn
    obtain ⟨n, rfl⟩ : ∃ m, n = m + 1 := ⟨n - 1, by omega⟩
    simp only [List.append_assoc, List.cons_append]
    have hskip := skip_quoted hw hkey (w₁ ++ ':' :: (w₂ ++ (x ++ (w₃ ++ (tail ++ '\x7d' :: rest)))))
    obtain ⟨raw, rfl, hclosed, hs⟩ := hkey
    have hread : readString d (raw ++ ['"'] ++ (w₁ ++ ':' :: (w₂ ++ (x ++ (w₃ ++ (tail ++ '\x7d' :: rest)))))) =
        some (k, w₁ ++ ':' :: (w₂ ++ (x ++ (w₃ ++ (tail ++ '\x7d' :: rest))))) :=
      readString_eq_some.2 ⟨'"' :: (raw ++ ['"']), by simp, raw, rfl, hclosed, hs⟩
    rw [readFields, hskip]
    simp only [List.cons_append, hread, Option.bind_eq_bind, Option.bind_some, skip_append hw₁,
      skip_cons (show isSpace ':' = false from rfl), skip_spells hw₂ hv]
    cases fields with
    | nil =>
      cases htail
      have hstops : Stops (w₃ ++ ([] ++ '\x7d' :: rest)) := stops_of_ws hw₃ (stops_cons rfl _)
      rw [hfields (k, v) List.mem_cons_self hv (by omega) hstops]
      simp only [Option.bind_some, skip_append hw₃, List.nil_append, skip_cons (show isSpace '\x7d' = false from rfl)]
    | cons f' fields =>
      obtain ⟨k', v'⟩ := f'
      obtain ⟨u, key', u₁, u₂, x', u₃, tail', rfl, hrest⟩ := htail
      have hstops : Stops (w₃ ++ (',' :: (u ++ (key' ++ (u₁ ++ ':' :: (u₂ ++ (x' ++ (u₃ ++ tail')))))) ++
        '\x7d' :: rest)) :=
        stops_of_ws hw₃ (stops_cons rfl _)
      rw [hfields (k, v) List.mem_cons_self hv (by omega) hstops]
      have hlen : (u ++ (key' ++ (u₁ ++ ':' :: (u₂ ++ (x' ++ (u₃ ++ tail')))))).length + 1 < n := by
        simp only [List.length_cons, List.length_append] at hn ⊢
        omega
      have hrec := ih (fun g hg => hfields g (List.mem_cons_of_mem _ hg)) (by simp)
        ⟨u, key', u₁, u₂, x', u₃, tail', rfl, hrest⟩ hlen
      simp only [Option.bind_some, skip_append hw₃, List.cons_append, skip_cons (show isSpace ',' = false from rfl),
        hrec]

/-- Every value is read from what spells it. -/
private theorem reads (v : Value Number) : Reads d v := by
  induction v using Value.induct with
  | null =>
    intro x rest n h hn _
    cases h
    obtain ⟨n, rfl⟩ : ∃ m, n = m + 1 := ⟨n - 1, by omega⟩
    rfl
  | bool b =>
    intro x rest n h hn _
    obtain ⟨n, rfl⟩ : ∃ m, n = m + 1 := ⟨n - 1, by omega⟩
    cases b with
    | true =>
      cases h
      rfl
    | false =>
      cases h
      rfl
  | num m =>
    intro x rest n h hn hrest
    obtain ⟨n, rfl⟩ : ∃ m, n = m + 1 := ⟨n - 1, by omega⟩
    cases h
    exact readValue_number m hrest
  | str s =>
    intro x rest n h hn _
    obtain ⟨n, rfl⟩ : ∃ m, n = m + 1 := ⟨n - 1, by omega⟩
    exact readValue_string h
  | arr items ih =>
    intro x rest n h hn _
    obtain ⟨n, rfl⟩ : ∃ m, n = m + 1 := ⟨n - 1, by omega⟩
    obtain ⟨body, rfl, hbody⟩ := h
    simp only [List.length_cons, List.length_append, List.length_nil] at hn
    simp only [List.cons_append, List.append_assoc, List.nil_append]
    rw [readValue, if_neg (by decide), if_pos rfl]
    rcases hbody with ⟨rfl, hws⟩ | ⟨hne, hitems⟩
    · rw [skip_append hws, skip_cons rfl]
      rfl
    · have hhead : (skip (body ++ ']' :: rest)).head? ≠ some ']' := by
        cases items with
        | nil => exact absurd rfl hne
        | cons v items =>
          obtain ⟨w, y, w', tail, heq, hw, hv, -⟩ := hitems
          obtain ⟨c, y', rfl, hspace, hc, -⟩ := head_of_spells hv
          cases heq
          simp only [List.append_assoc, skip_append hw, List.cons_append, skip_cons hspace, List.head?_cons]
          simpa using hc
      rw [if_neg hhead, readItems_of_spells ih hne hitems (by omega)]
      rfl
  | obj fields ih =>
    intro x rest n h hn _
    obtain ⟨n, rfl⟩ : ∃ m, n = m + 1 := ⟨n - 1, by omega⟩
    obtain ⟨body, rfl, hbody⟩ := h
    simp only [List.length_cons, List.length_append, List.length_nil] at hn
    simp only [List.cons_append, List.append_assoc, List.nil_append]
    rw [readValue, if_neg (by decide), if_neg (by decide), if_pos rfl]
    rcases hbody with ⟨rfl, hws⟩ | ⟨hne, hfields⟩
    · rw [skip_append hws, skip_cons rfl]
      rfl
    · have hhead : (skip (body ++ '\x7d' :: rest)).head? ≠ some '\x7d' := by
        cases fields with
        | nil => exact absurd rfl hne
        | cons f fields =>
          obtain ⟨k, v⟩ := f
          obtain ⟨w, key, w₁, w₂, y, w₃, tail, heq, hw, hkey, -⟩ := hfields
          obtain ⟨raw, rfl, -⟩ := hkey
          cases heq
          simp only [List.append_assoc, skip_append hw, List.cons_append,
            skip_cons (show isSpace '"' = false from rfl), List.head?_cons]
          decide
      rw [if_neg hhead, readFields_of_spells ih hne hfields (by omega)]
      rfl

/-! ### What is read is spelled -/

/-- The three readers return what the text they have used spells. -/
def Sound (d : Dialect) (n : Nat) : Prop :=
  (∀ t v rest, readValue d n t = some (v, rest) → ∃ x, t = x ++ rest ∧ Spells d v x) ∧
  (∀ t items rest, readItems d n t = some (items, rest) →
    items ≠ [] ∧ ∃ body, t = body ++ ']' :: rest ∧ SpellsItems d items (',' :: body)) ∧
  (∀ t fields rest, readFields d n t = some (fields, rest) →
    fields ≠ [] ∧ ∃ body, t = body ++ '\x7d' :: rest ∧ SpellsFields d fields (',' :: body))

private theorem readItems_sound {n : Nat} (hn : Sound d n) {t rest : List Char} {items : List (Value Number)}
    (h : readItems d (n + 1) t = some (items, rest)) :
    items ≠ [] ∧ ∃ body, t = body ++ ']' :: rest ∧ SpellsItems d items (',' :: body) := by
  simp only [readItems, Option.bind_eq_bind, Option.bind_eq_some_iff, Prod.exists] at h
  obtain ⟨v, t₁, hv, h⟩ := h
  obtain ⟨x, hx, hspell⟩ := hn.1 _ _ _ hv
  obtain ⟨w, hw, ht⟩ := exists_skip t
  obtain ⟨w', hw', ht₁⟩ := exists_skip t₁
  split at h
  · rename_i t₂ hskip
    simp only [Option.bind_eq_some_iff, Prod.exists, Option.some.injEq, Prod.mk.injEq] at h
    obtain ⟨items', rest', hitems, rfl, rfl⟩ := h
    obtain ⟨-, body, rfl, hbody⟩ := hn.2.1 _ _ _ hitems
    refine ⟨by simp, w ++ (x ++ (w' ++ ',' :: body)), ?_, w, x, w', ',' :: body, rfl, hw, hspell, hw', hbody⟩
    rw [ht, hx, ht₁, hskip]
    simp
  · rename_i t₂ hskip
    cases h
    refine ⟨by simp, w ++ (x ++ (w' ++ [])), ?_, w, x, w', [], rfl, hw, hspell, hw', rfl⟩
    rw [ht, hx, ht₁, hskip]
    simp
  · cases h

private theorem readFields_sound {n : Nat} (hn : Sound d n) {t rest : List Char}
    {fields : List (String × Value Number)} (h : readFields d (n + 1) t = some (fields, rest)) :
    fields ≠ [] ∧ ∃ body, t = body ++ '\x7d' :: rest ∧ SpellsFields d fields (',' :: body) := by
  rw [readFields] at h
  obtain ⟨w, hw, ht⟩ := exists_skip t
  split at h
  · rename_i t₀ hskip₀
    simp only [Option.bind_eq_bind, Option.bind_eq_some_iff, Prod.exists] at h
    obtain ⟨k, t₁, hk, h⟩ := h
    obtain ⟨key, hkey, hquoted⟩ := readString_eq_some.1 hk
    obtain ⟨w₁, hw₁, ht₁⟩ := exists_skip t₁
    split at h
    · rename_i t₂ hskip₁
      simp only [Option.bind_eq_some_iff, Prod.exists] at h
      obtain ⟨v, t₃, hv, h⟩ := h
      obtain ⟨x, hx, hspell⟩ := hn.1 _ _ _ hv
      obtain ⟨w₂, hw₂, ht₂⟩ := exists_skip t₂
      obtain ⟨w₃, hw₃, ht₃⟩ := exists_skip t₃
      split at h
      · rename_i t₄ hskip₂
        simp only [Option.bind_eq_some_iff, Prod.exists, Option.some.injEq, Prod.mk.injEq] at h
        obtain ⟨fields', rest', hfields, rfl, rfl⟩ := h
        obtain ⟨-, body, rfl, hbody⟩ := hn.2.2 _ _ _ hfields
        refine ⟨by simp, w ++ (key ++ (w₁ ++ (':' :: (w₂ ++ (x ++ (w₃ ++ ',' :: body)))))), ?_,
          w, key, w₁, w₂, x, w₃, ',' :: body, rfl, hw, hquoted, hw₁, hw₂, hspell, hw₃, hbody⟩
        rw [ht, hskip₀, hkey, ht₁, hskip₁, ht₂, hx, ht₃, hskip₂]
        simp
      · rename_i t₄ hskip₂
        cases h
        refine ⟨by simp, w ++ (key ++ (w₁ ++ (':' :: (w₂ ++ (x ++ (w₃ ++ [])))))), ?_,
          w, key, w₁, w₂, x, w₃, [], rfl, hw, hquoted, hw₁, hw₂, hspell, hw₃, rfl⟩
        rw [ht, hskip₀, hkey, ht₁, hskip₁, ht₂, hx, ht₃, hskip₂]
        simp
      · cases h
    · cases h
  · cases h

private theorem readValue_sound {n : Nat} (hn : Sound d n) {t rest : List Char} {v : Value Number}
    (h : readValue d (n + 1) t = some (v, rest)) : ∃ x, t = x ++ rest ∧ Spells d v x := by
  cases t with
  | nil => cases h
  | cons c t =>
    rw [readValue] at h
    split at h
    · rename_i hc
      subst hc
      obtain ⟨⟨s, rest'⟩, hs, heq⟩ := Option.map_eq_some_iff.1 h
      cases heq
      exact readString_eq_some.1 hs
    · split at h
      · rename_i hc
        subst hc
        obtain ⟨w, hw, ht⟩ := exists_skip t
        split at h
        · rename_i hhead
          obtain ⟨tail, htail⟩ := List.head?_eq_some_iff.1 hhead
          rw [htail] at h ht
          cases h
          refine ⟨'[' :: (w ++ [']']), ?_, w, rfl, Or.inl ⟨rfl, hw⟩⟩
          rw [ht]
          simp
        · obtain ⟨⟨items, rest'⟩, hitems, heq⟩ := Option.map_eq_some_iff.1 h
          cases heq
          obtain ⟨hne, body, rfl, hbody⟩ := hn.2.1 _ _ _ hitems
          exact ⟨'[' :: (body ++ [']']), by simp, body, rfl, Or.inr ⟨hne, hbody⟩⟩
      · split at h
        · rename_i hc
          subst hc
          obtain ⟨w, hw, ht⟩ := exists_skip t
          split at h
          · rename_i hhead
            obtain ⟨tail, htail⟩ := List.head?_eq_some_iff.1 hhead
            rw [htail] at h ht
            cases h
            refine ⟨'\x7b' :: (w ++ ['\x7d']), ?_, w, rfl, Or.inl ⟨rfl, hw⟩⟩
            rw [ht]
            simp
          · obtain ⟨⟨fields, rest'⟩, hfields, heq⟩ := Option.map_eq_some_iff.1 h
            cases heq
            obtain ⟨hne, body, rfl, hbody⟩ := hn.2.2 _ _ _ hfields
            exact ⟨'\x7b' :: (body ++ ['\x7d']), by simp, body, rfl, Or.inr ⟨hne, hbody⟩⟩
        · exact readLiteral_eq_some h

private theorem sound (d : Dialect) (n : Nat) : Sound d n := by
  induction n with
  | zero => exact ⟨nofun, nofun, nofun⟩
  | succ n ih =>
    exact ⟨fun _ _ _ h => readValue_sound ih h, fun _ _ _ h => readItems_sound ih h,
      fun _ _ _ h => readFields_sound ih h⟩

/-- A text is read as the value it spells, with white space around it. -/
theorem parse_eq_some {t : List Char} {v : Value Number} :
    parse d t = some v ↔ ∃ w x w', t = w ++ (x ++ w') ∧ Ws w ∧ Spells d v x ∧ Ws w' := by
  constructor
  · intro h
    simp only [parse, Option.bind_eq_bind, Option.bind_eq_some_iff, Prod.exists] at h
    obtain ⟨v', rest, hv, h⟩ := h
    split at h
    · rename_i hrest
      cases h
      obtain ⟨x, hx, hspell⟩ := (sound d _).1 _ _ _ hv
      obtain ⟨w, hw, ht⟩ := exists_skip t
      obtain ⟨w', hw', ht'⟩ := exists_skip rest
      rw [hrest, List.append_nil] at ht'
      subst ht'
      exact ⟨w, x, rest, by rw [← hx, ← ht], hw, hspell, hw'⟩
    · cases h
  · rintro ⟨w, x, w', rfl, hw, hspell, hw'⟩
    have hend : Stops [] := nofun
    have hstops : Stops w' := by
      have := stops_of_ws hw' hend
      rwa [List.append_nil] at this
    have hread := reads v hspell (n := (w ++ (x ++ w')).length + 1) (by simp; omega) hstops
    have hskip : skip w' = [] := by
      have := skip_append hw' (t := [])
      rwa [List.append_nil] at this
    simp only [parse, skip_spells hw hspell, hread, Option.bind_eq_bind, Option.bind_some, hskip, if_true]

end Json
