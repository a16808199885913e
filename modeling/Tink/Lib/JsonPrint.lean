import Tink.Lib.JsonText

/-!
# Writing JSON texts

The texts `encoding/json` of Go writes: without white space, and with escapes for quotes, backslashes and control
characters and for the characters that HTML and JavaScript give a meaning.  A text that is written is read as the
value it was written for (`parse_print`).
-/

namespace Json

open Pg

/-- `encoding/json` of Go reads half a surrogate pair as the replacement character. -/
def go : Dialect := { lone := some (Char.ofNat 0xfffd), nul := true }

/-- The last four hexadecimal digits. -/
def hexDigits (n : Nat) : List Char :=
  [hexChar ⟨n / 4096 % 16, Nat.mod_lt _ (Nat.succ_pos 15)⟩, hexChar ⟨n / 256 % 16, Nat.mod_lt _ (Nat.succ_pos 15)⟩,
    hexChar ⟨n / 16 % 16, Nat.mod_lt _ (Nat.succ_pos 15)⟩, hexChar ⟨n % 16, Nat.mod_lt _ (Nat.succ_pos 15)⟩]

/-- The characters written as an escape of their code. -/
def escapedByCode (c : Char) : Bool :=
  c.toNat < 32 || c == '<' || c == '>' || c == '&' || c.toNat == 0x2028 || c.toNat == 0x2029

def escapeChar (c : Char) : List Char :=
  if c = '"' then ['\\', '"']
  else if c = '\\' then ['\\', '\\']
  else if c = '\n' then ['\\', 'n']
  else if c = '\r' then ['\\', 'r']
  else if c = '\t' then ['\\', 't']
  else if escapedByCode c then '\\' :: 'u' :: hexDigits c.toNat
  else [c]

def quote (s : String) : List Char := '"' :: (s.toList.flatMap escapeChar ++ ['"'])

mutual

def print : Value Number → List Char
  | .null => ['n', 'u', 'l', 'l']
  | .bool true => ['t', 'r', 'u', 'e']
  | .bool false => ['f', 'a', 'l', 's', 'e']
  | .num n => n.text
  | .str s => quote s
  | .arr items => '[' :: ((printItems items).drop 1 ++ [']'])
  | .obj fields => '\x7b' :: ((printFields fields).drop 1 ++ ['\x7d'])

/-- The items with a comma in front of each. -/
def printItems : List (Value Number) → List Char
  | [] => []
  | v :: items => ',' :: (print v ++ printItems items)

/-- The fields with a comma in front of each. -/
def printFields : List (String × Value Number) → List Char
  | [] => []
  | (k, v) :: fields => ',' :: (quote k ++ ':' :: (print v ++ printFields fields))

end

/-! ### Strings -/

private theorem codeUnits_code (n : Nat) (h : n < 65536) (t : List Char) :
    codeUnits ('\\' :: 'u' :: (hexDigits n ++ t)) = (codeUnits t).map fun units => .code n :: units := by
  have hvalue : 4096 * (n / 4096 % 16) + 256 * (n / 256 % 16) + 16 * (n / 16 % 16) + n % 16 = n := by omega
  rw [codeUnits.eq_def]
  simp only [if_true, hexDigits, List.cons_append, List.nil_append, hex4, hexValue_hexChar, Option.bind_eq_bind,
    Option.bind_some, hvalue]
  cases codeUnits t <;> rfl

private theorem codeUnits_escape {e x : Char} (hu : e ≠ 'u') (he : escape? e = some x) (t : List Char) :
    codeUnits ('\\' :: e :: t) = (codeUnits t).map fun units => .char x :: units := by
  rw [codeUnits.eq_def]
  simp only [if_true, hu, if_false, he, Option.bind_eq_bind, Option.bind_some]
  cases codeUnits t <;> rfl

private theorem decodeUnits_code {c : Char} (units : List CodeUnit) :
    decodeUnits go (.code c.toNat :: units) = (decodeUnits go units).map fun cs => c :: cs := by
  have hvalid : c.toNat < 0xd800 ∨ (0xdfff < c.toNat ∧ c.toNat < 0x110000) := c.valid
  have hsurrogate : isHigh c.toNat = false ∧ isLow c.toNat = false := by
    simp only [isHigh, isLow, decide_eq_false_iff_not]
    omega
  have hpoint : codePoint go c.toNat = some c := by
    rw [codePoint, hsurrogate.1, hsurrogate.2]
    simp [go]
  cases units with
  | nil => simp [decodeUnits, hpoint]
  | cons u units =>
    cases u with
    | char c' =>
      have hstep : decodeUnits go (.code c.toNat :: .char c' :: units) =
          (codePoint go c.toNat).bind fun x =>
            (decodeUnits go (.char c' :: units)).bind fun cs => some (x :: cs) := by
        rw [decodeUnits.eq_def]
        rfl
      rw [hstep, hpoint]
      cases decodeUnits go (.char c' :: units) <;> rfl
    | code m =>
      rw [decodeUnits, hsurrogate.1, hpoint]
      simp only [Bool.false_eq_true, false_and, if_false, Option.bind_eq_bind, Option.bind_some]
      cases decodeUnits go (.code m :: units) <;> rfl

/-- What is written for a character is read as the character, whatever follows. -/
private theorem escapeChar_unit (c : Char) :
    ∃ u, (∀ t, codeUnits (escapeChar c ++ t) = (codeUnits t).map fun units => u :: units) ∧
    ∀ units, decodeUnits go (u :: units) = (decodeUnits go units).map fun cs => c :: cs := by
  have hchar : ∀ units, decodeUnits go (.char c :: units) = (decodeUnits go units).map fun cs => c :: cs := by
    intro units
    rw [decodeUnits]
  unfold escapeChar
  split
  · rename_i hc
    subst hc
    exact ⟨.char '"', codeUnits_escape (by decide) rfl, hchar⟩
  · split
    · rename_i hc
      subst hc
      exact ⟨.char '\\', codeUnits_escape (by decide) rfl, hchar⟩
    · rename_i hb
      split
      · rename_i hc
        subst hc
        exact ⟨.char '\n', codeUnits_escape (by decide) rfl, hchar⟩
      · split
        · rename_i hc
          subst hc
          exact ⟨.char '\r', codeUnits_escape (by decide) rfl, hchar⟩
        · split
          · rename_i hc
            subst hc
            exact ⟨.char '\t', codeUnits_escape (by decide) rfl, hchar⟩
          · split
            · rename_i hcode
              refine ⟨.code c.toNat, ?_, decodeUnits_code⟩
              intro t
              refine codeUnits_code c.toNat ?_ t
              simp only [escapedByCode, Bool.or_eq_true, decide_eq_true_eq, beq_iff_eq] at hcode
              rcases hcode with ((((hlt | rfl) | rfl) | rfl) | heq) | heq
              · omega
              · decide
              · decide
              · decide
              · omega
              · omega
            · rename_i hcode
              refine ⟨.char c, ?_, hchar⟩
              intro t
              have hlow : ¬ c.toNat < 32 := by
                intro hlt
                simp [escapedByCode, hlt] at hcode
              rw [List.singleton_append, codeUnits.eq_def]
              simp only [hb, hlow, if_false]

private theorem unescape_escape (s : List Char) : unescape go (s.flatMap escapeChar) = some s := by
  rw [unescape]
  induction s with
  | nil => rfl
  | cons c s ih =>
    obtain ⟨u, hunits, hdecode⟩ := escapeChar_unit c
    rw [List.flatMap_cons, hunits]
    simp only [Option.bind_eq_bind, Option.bind_eq_some_iff] at ih ⊢
    obtain ⟨units, hs, hd⟩ := ih
    exact ⟨u :: units, by rw [hs]; rfl, by rw [hdecode, hd]; rfl⟩

private theorem hexChar_plain (d : Fin 16) : hexChar d ≠ '"' ∧ hexChar d ≠ '\\' := by
  revert d
  decide

private theorem closed_escapeChar (c : Char) (t : List Char) : closed (escapeChar c ++ t) = closed t := by
  unfold escapeChar
  split
  · exact closed_backslash '"' t
  · split
    · exact closed_backslash '\\' t
    · split
      · exact closed_backslash 'n' t
      · split
        · exact closed_backslash 'r' t
        · split
          · exact closed_backslash 't' t
          · split
            · simp only [hexDigits, List.cons_append, List.nil_append, closed_backslash]
              rw [closed_cons (hexChar_plain _).1 (hexChar_plain _).2,
                closed_cons (hexChar_plain _).1 (hexChar_plain _).2,
                closed_cons (hexChar_plain _).1 (hexChar_plain _).2,
                closed_cons (hexChar_plain _).1 (hexChar_plain _).2]
            · rename_i hq hb _ _ _ _
              exact closed_cons hq hb t

private theorem quoted_quote (s : String) : Quoted go s (quote s) := by
  refine ⟨s.toList.flatMap escapeChar, rfl, ?_, unescape_escape s.toList⟩
  induction s.toList with
  | nil => rfl
  | cons c cs ih => rw [List.flatMap_cons, closed_escapeChar, ih]

/-! ### Values -/

private theorem spellsItems_print {items : List (Value Number)} (h : ∀ v ∈ items, Spells go v (print v)) :
    SpellsItems go items (printItems items) := by
  induction items with
  | nil => rfl
  | cons v items ih =>
    have hv := h v List.mem_cons_self
    have hrest := ih fun u hu => h u (List.mem_cons_of_mem v hu)
    exact ⟨[], print v, [], printItems items, rfl, by simp [Ws], hv, by simp [Ws], hrest⟩

private theorem spellsFields_print {fields : List (String × Value Number)}
    (h : ∀ f ∈ fields, Spells go f.2 (print f.2)) :
    SpellsFields go fields (printFields fields) := by
  induction fields with
  | nil => rfl
  | cons f fields ih =>
    obtain ⟨k, v⟩ := f
    have hv := h (k, v) List.mem_cons_self
    have hrest := ih fun g hg => h g (List.mem_cons_of_mem _ hg)
    exact ⟨[], quote k, [], [], print v, [], printFields fields, rfl, by simp [Ws], quoted_quote k, by simp [Ws],
      by simp [Ws], hv, by simp [Ws], hrest⟩

/-- What is written spells the value. -/
private theorem spells_print (v : Value Number) : Spells go v (print v) := by
  induction v using Value.induct with
  | null => rfl
  | bool b => cases b <;> rfl
  | num n => rfl
  | str s => exact quoted_quote s
  | arr items ih =>
    refine ⟨(printItems items).drop 1, rfl, ?_⟩
    cases items with
    | nil => exact Or.inl ⟨rfl, by simp [Ws, printItems]⟩
    | cons v items => exact Or.inr ⟨by simp, spellsItems_print ih⟩
  | obj fields ih =>
    refine ⟨(printFields fields).drop 1, rfl, ?_⟩
    cases fields with
    | nil => exact Or.inl ⟨rfl, by simp [Ws, printFields]⟩
    | cons f fields => exact Or.inr ⟨by simp, spellsFields_print ih⟩

/-- A text that has been written is read as the value. -/
theorem parse_print (v : Value Number) : parse go (print v) = some v :=
  parse_eq_some.2 ⟨[], print v, [], by simp, by simp [Ws], spells_print v, by simp [Ws]⟩

end Json
