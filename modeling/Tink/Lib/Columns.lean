import Mathlib.Data.List.FinRange
import Mathlib.Data.String.Basic

/-!
# Values of database columns

What the column types `UUID`, `VARCHAR(n)`, `SMALLINT` and `INT` of Postgres accept and hold.

The text of a UUID is read two digits at a time, in either case; a hyphen may follow every second byte, and braces may
surround the whole.  Written, it has lower case digits and hyphens in the usual four places, and reads back as the
same value (`UUID.ofString?_toString`).  A `VARCHAR(n)` holds a text of at most `n` characters, and cuts a longer one
only if it loses nothing but spaces.
-/

namespace Pg

/-! ### Lower case -/

private theorem isUpper_eq_true {c : Char} : c.isUpper = true ↔ 65 ≤ c.toNat ∧ c.toNat ≤ 90 := by
  show decide (c.val ≥ 'A'.val ∧ c.val ≤ 'Z'.val) = true ↔ _
  rw [decide_eq_true_iff]
  exact Iff.rfl

private theorem isLower_eq_true {c : Char} : c.isLower = true ↔ 97 ≤ c.toNat ∧ c.toNat ≤ 122 := by
  show (decide (c.val ≥ 'a'.val) && decide (c.val ≤ 'z'.val)) = true ↔ _
  rw [Bool.and_eq_true, decide_eq_true_iff, decide_eq_true_iff]
  exact Iff.rfl

theorem isAlpha_eq (c : Char) : c.isAlpha = (c.isUpper || c.isLower) := rfl

theorem toLower_of_not_isUpper {c : Char} (h : c.isUpper = false) : c.toLower = c := dif_neg (of_decide_eq_false h)

private theorem toNat_toLower {c : Char} (h : c.isUpper = true) : c.toLower.toNat = c.toNat + 32 := by
  have hlower : c.toLower = ⟨c.val + ('a'.val - 'A'.val), _⟩ := dif_pos (of_decide_eq_true h)
  have hrange := isUpper_eq_true.1 h
  have hval : c.val.toNat = c.toNat := rfl
  rw [hlower]
  show (c.val.toNat + 32) % 4294967296 = c.toNat + 32
  omega

theorem isLower_toLower {c : Char} (h : c.isUpper = true) : c.toLower.isLower = true := by
  have hrange := isUpper_eq_true.1 h
  rw [isLower_eq_true, toNat_toLower h]
  omega

private theorem not_isUpper_of_isLower {c : Char} (h : c.isLower = true) : c.isUpper = false := by
  have hrange := isLower_eq_true.1 h
  rw [← Bool.not_eq_true, isUpper_eq_true]
  omega

/-- Only a character that is no letter is lowered to one. -/
theorem toLower_eq_iff {c x : Char} (hx : x.isAlpha = false) : c.toLower = x ↔ c = x := by
  rw [isAlpha_eq, Bool.or_eq_false_iff] at hx
  cases hc : c.isUpper with
  | false => rw [toLower_of_not_isUpper hc]
  | true =>
    refine iff_of_false ?_ ?_
    · rintro rfl
      simp [isLower_toLower hc] at hx
    · rintro rfl
      simp [hc] at hx

theorem le_toLower (c : Char) : c ≤ c.toLower := by
  cases hc : c.isUpper with
  | false => rw [toLower_of_not_isUpper hc]
  | true =>
    show c.toNat ≤ c.toLower.toNat
    rw [toNat_toLower hc]
    omega

theorem toLower_toLower (c : Char) : c.toLower.toLower = c.toLower := by
  cases hc : c.isUpper with
  | false => rw [toLower_of_not_isUpper hc, toLower_of_not_isUpper hc]
  | true => exact toLower_of_not_isUpper (not_isUpper_of_isLower (isLower_toLower hc))

/-! ### UUID -/

/-- A UUID, as its 32 hexadecimal digits. -/
structure UUID where
  digits : List (Fin 16)
  length_eq : digits.length = 32
deriving DecidableEq

def hexChar (d : Fin 16) : Char :=
  ['0', '1', '2', '3', '4', '5', '6', '7', '8', '9', 'a', 'b', 'c', 'd', 'e', 'f'].getD d '0'

/-- The value of a digit in either case. -/
def hexValue (c : Char) : Option (Fin 16) := (List.finRange 16).find? fun d => hexChar d == c.toLower

/-- Reads `n` bytes, and returns the digits and the rest of the text. -/
def readBytes : Nat → List Char → Option (List (Fin 16) × List Char)
  | 0, cs => some ([], cs)
  | n + 1, a :: b :: cs => do
    let x ← hexValue a
    let y ← hexValue b
    -- a hyphen is skipped after an odd byte other than the last
    let cs := if cs.head? = some '-' ∧ n % 2 = 0 ∧ n ≠ 0 then cs.tail else cs
    let (ds, rest) ← readBytes n cs
    some (x :: y :: ds, rest)
  | _ + 1, _ => none

private theorem readBytes_length {n : Nat} {cs rest : List Char} {ds : List (Fin 16)}
    (h : readBytes n cs = some (ds, rest)) : ds.length = 2 * n := by
  induction n generalizing cs ds rest with
  | zero =>
    simp only [readBytes, Option.some.injEq, Prod.mk.injEq] at h
    rw [← h.1]; rfl
  | succ n ih =>
    rcases cs with _ | ⟨a, _ | ⟨b, cs⟩⟩
    · simp [readBytes] at h
    · simp [readBytes] at h
    · simp only [readBytes, Option.bind_eq_bind, Option.bind_eq_some_iff, Option.some.injEq, Prod.mk.injEq,
        Prod.exists] at h
      obtain ⟨x, -, y, -, ds', rest', hrec, hds, -⟩ := h
      have := ih hrec
      rw [← hds]; simp; omega

/-- Writes `n` bytes, with the hyphens of the usual form. -/
def writeBytes : Nat → List (Fin 16) → List Char
  | n + 1, x :: y :: ds =>
    let rest := writeBytes n ds
    hexChar x :: hexChar y :: if n = 12 ∨ n = 10 ∨ n = 8 ∨ n = 6 then '-' :: rest else rest
  | _, _ => []

namespace UUID

/-- Reads a UUID followed by the text `close`. -/
def read (cs close : List Char) : Option UUID :=
  match h : readBytes 16 cs with
  | some (ds, rest) => if rest = close then some ⟨ds, readBytes_length h⟩ else none
  | none => none

def ofString? (s : String) : Option UUID :=
  if s.toList.head? = some '\x7b' then read s.toList.tail ['\x7d'] else read s.toList []

def toString (u : UUID) : String := String.ofList (writeBytes 16 u.digits)

/-- The UUID of zeros, Go's zero value. -/
def zero : UUID := ⟨List.replicate 32 0, by simp⟩

end UUID

theorem hexValue_hexChar (d : Fin 16) : hexValue (hexChar d) = some d := by
  revert d; decide

private theorem hexChar_ne (d : Fin 16) : hexChar d ≠ '-' ∧ hexChar d ≠ '\x7b' := by
  revert d; decide

private theorem head?_writeBytes_ne (n : Nat) (ds : List (Fin 16)) :
    (writeBytes n ds).head? ≠ some '-' ∧ (writeBytes n ds).head? ≠ some '\x7b' := by
  rcases n with _ | n
  · simp [writeBytes]
  · rcases ds with _ | ⟨x, _ | ⟨y, ds⟩⟩
    · simp [writeBytes]
    · simp [writeBytes]
    · have := hexChar_ne x
      simpa [writeBytes] using this

private theorem readBytes_writeBytes (n : Nat) (ds : List (Fin 16)) (h : ds.length = 2 * n) :
    readBytes n (writeBytes n ds) = some (ds, []) := by
  induction n generalizing ds with
  | zero =>
    rw [List.length_eq_zero_iff.1 h]; rfl
  | succ n ih =>
    rcases ds with _ | ⟨x, _ | ⟨y, ds⟩⟩
    · simp at h
    · simp at h; omega
    · have hlen : ds.length = 2 * n := by simp at h; omega
      have hskip : ∀ cs : List Char,
          cs = (if n = 12 ∨ n = 10 ∨ n = 8 ∨ n = 6 then '-' :: writeBytes n ds else writeBytes n ds) →
          (if cs.head? = some '-' ∧ n % 2 = 0 ∧ n ≠ 0 then cs.tail else cs) = writeBytes n ds := by
        rintro cs rfl
        by_cases hn : n = 12 ∨ n = 10 ∨ n = 8 ∨ n = 6
        · have hodd : n % 2 = 0 ∧ n ≠ 0 := by omega
          simp [hn, hodd]
        · have hhead := (head?_writeBytes_ne n ds).1
          simp [hn, hhead]
      rw [writeBytes, readBytes, hexValue_hexChar, hexValue_hexChar]
      simp only [Option.bind_eq_bind, Option.bind_some]
      rw [hskip _ rfl, ih ds hlen]
      rfl

/-- A UUID reads back as itself. -/
theorem UUID.ofString?_toString (u : UUID) : ofString? u.toString = some u := by
  have hread := readBytes_writeBytes 16 u.digits u.length_eq
  have hhead := (head?_writeBytes_ne 16 u.digits).2
  unfold ofString? toString
  rw [String.toList_ofList, if_neg hhead, read]
  split
  · rename_i ds rest h
    rw [hread] at h
    obtain ⟨rfl, rfl⟩ := Prod.mk.inj (Option.some.inj h)
    simp
  · rename_i h
    rw [hread] at h; cases h

theorem UUID.toString_injective : Function.Injective UUID.toString := by
  intro u v h
  have hu := UUID.ofString?_toString u
  rw [h, UUID.ofString?_toString] at hu
  exact (Option.some.inj hu).symm

private theorem length_writeBytes_le (n : Nat) (ds : List (Fin 16)) : (writeBytes n ds).length ≤ 3 * n := by
  induction n generalizing ds with
  | zero => simp [writeBytes]
  | succ n ih =>
    rcases ds with _ | ⟨x, _ | ⟨y, ds⟩⟩
    · simp [writeBytes]
    · simp [writeBytes]
    · have := ih ds
      rw [writeBytes]
      split
      · simp; omega
      · simp; omega

theorem UUID.length_toString_le (u : UUID) : u.toString.length ≤ 48 := by
  rw [toString, String.length_ofList]
  exact length_writeBytes_le 16 u.digits

/-! ### Texts and numbers -/

/-- The text a `VARCHAR(n)` column holds for `s`. -/
def varchar (n : Nat) (s : String) : Option String :=
  if '\x00' ∈ s.toList then none
  else if s.length ≤ n then some s
  else if (s.toList.drop n).all (· = ' ') then some (String.ofList (s.toList.take n))
  else none

theorem varchar_of_length_le {n : Nat} {s : String} (hzero : '\x00' ∉ s.toList) (hlen : s.length ≤ n) :
    varchar n s = some s := by
  unfold varchar
  rw [if_neg hzero, if_pos hlen]

/-- A text has at least as many bytes as characters. -/
theorem length_le_utf8ByteSize (s : String) : s.length ≤ s.utf8ByteSize := by
  have hchars : ∀ cs : List Char, cs.length ≤ String.utf8Len cs := by
    intro cs
    induction cs with
    | nil => simp
    | cons c cs ih =>
      have := c.utf8Size_pos
      simp; omega
  have hsize := String.utf8ByteSize_ofList s.toList
  rw [String.ofList_toList] at hsize
  rw [hsize, ← String.length_toList]
  exact hchars s.toList

/-- The range of `SMALLINT`. -/
def isSmallint (n : Int) : Bool := decide (-32768 ≤ n ∧ n ≤ 32767)

/-- The range of `INT`. -/
def isInt (n : Int) : Bool := decide (-2147483648 ≤ n ∧ n ≤ 2147483647)

end Pg
