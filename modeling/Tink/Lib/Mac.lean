import Tink.Lib.Columns

/-!
# Hardware addresses

`net.ParseMAC` and `HardwareAddr.String` of the Go standard library.  An address of 6, 8 or 20 bytes is read from
pairs of digits with colons or hyphens between them, or from groups of four with dots, in either case; it is written
in lower case with colons.  So the texts that become the written form when they are lowered are those that spell the
address with colons (`toLower_eq_toString`).

An address with a character outside ASCII is rejected, so characters stand for bytes here.
-/

namespace GoNet

open Pg

/-- A hardware address: its bytes, each as two digits. -/
structure HardwareAddr where
  bytes : List (Fin 16 × Fin 16)
deriving DecidableEq

/-- `xtoi2`, for the two digits. -/
def xtoi2 (a b : Char) : Option (Fin 16 × Fin 16) := do
  let x ← hexValue a
  let y ← hexValue b
  some (x, y)

/-- Pairs of digits with a separator between them. -/
def readPairs (sep : Char) : List Char → Option (List (Fin 16 × Fin 16))
  | [a, b] => (xtoi2 a b).map fun byte => [byte]
  | a :: b :: c :: cs => if c = sep then do
      let byte ← xtoi2 a b
      let bytes ← readPairs sep cs
      some (byte :: bytes)
    else none
  | _ => none

/-- Groups of four digits with dots between them. -/
def readGroups : List Char → Option (List (Fin 16 × Fin 16))
  | [a, b, c, d] => do
    let byte ← xtoi2 a b
    let byte' ← xtoi2 c d
    some [byte, byte']
  | a :: b :: c :: d :: e :: cs => if e = '.' then do
      let byte ← xtoi2 a b
      let byte' ← xtoi2 c d
      let bytes ← readGroups cs
      some (byte :: byte' :: bytes)
    else none
  | _ => none

/-- The number of bytes of an address. -/
def validLength (n : Nat) : Bool := n = 6 ∨ n = 8 ∨ n = 20

def readMAC (cs : List Char) : Option (List (Fin 16 × Fin 16)) :=
  if cs.length < 14 then none
  else if cs[2]? = some ':' ∨ cs[2]? = some '-' then
    if (cs.length + 1) % 3 = 0 ∧ validLength ((cs.length + 1) / 3) then readPairs (cs.getD 2 ':') cs else none
  else if cs[4]? = some '.' then
    if (cs.length + 1) % 5 = 0 ∧ validLength (2 * (cs.length + 1) / 5) then readGroups cs else none
  else none

def parseMAC (s : String) : Option HardwareAddr := (readMAC s.toList).map HardwareAddr.mk

def writePairs : List (Fin 16 × Fin 16) → List Char
  | [] => []
  | [byte] => [hexChar byte.1, hexChar byte.2]
  | byte :: bytes => hexChar byte.1 :: hexChar byte.2 :: ':' :: writePairs bytes

def HardwareAddr.toString (a : HardwareAddr) : String := String.ofList (writePairs a.bytes)

/-- The pairs of digits are separated by colons. -/
def Coloned (s : String) : Prop := s.toList[2]? = some ':'

/-! ### Lower case -/

private theorem toLower_eq_sep {c sep : Char} (hsep : sep = ':' ∨ sep = '-' ∨ sep = '.') :
    c.toLower = sep ↔ c = sep := by
  rcases hsep with rfl | rfl | rfl
  · exact toLower_eq_iff rfl
  · exact toLower_eq_iff rfl
  · exact toLower_eq_iff rfl

private theorem xtoi2_toLower (a b : Char) : xtoi2 a.toLower b.toLower = xtoi2 a b := by
  simp only [xtoi2, hexValue, toLower_toLower]

private theorem readPairs_toLower {sep : Char} (hsep : sep = ':' ∨ sep = '-' ∨ sep = '.') (cs : List Char) :
    readPairs sep (cs.map Char.toLower) = readPairs sep cs := by
  fun_induction readPairs sep cs with
  | case1 a b => simp [readPairs, xtoi2_toLower]
  | case2 a b cs ih => simp [readPairs, xtoi2_toLower, (toLower_eq_sep hsep).2 rfl, ih]
  | case3 a b c cs hne => simp [readPairs, toLower_eq_sep hsep, hne]
  | case4 cs htwo hmore =>
    rcases cs with _ | ⟨a, _ | ⟨b, _ | ⟨c, cs⟩⟩⟩
    · rfl
    · rfl
    · exact absurd rfl (htwo a b)
    · exact absurd rfl (hmore a b c cs)

private theorem readGroups_toLower (cs : List Char) : readGroups (cs.map Char.toLower) = readGroups cs := by
  have hdot : ∀ c : Char, c.toLower = '.' ↔ c = '.' := fun c => toLower_eq_sep (Or.inr (Or.inr rfl))
  fun_induction readGroups cs with
  | case1 a b c d => simp [readGroups, xtoi2_toLower]
  | case2 a b c d cs ih => simp [readGroups, xtoi2_toLower, (hdot '.').2 rfl, ih]
  | case3 a b c d e cs hne => simp [readGroups, hdot, hne]
  | case4 cs hfour hmore =>
    rcases cs with _ | ⟨a, _ | ⟨b, _ | ⟨c, _ | ⟨d, _ | ⟨e, cs⟩⟩⟩⟩⟩
    · rfl
    · rfl
    · rfl
    · rfl
    · exact absurd rfl (hfour a b c d)
    · exact absurd rfl (hmore a b c d e cs)

private theorem getElem?_toLower_eq (cs : List Char) (i : Nat) {sep : Char}
    (hsep : sep = ':' ∨ sep = '-' ∨ sep = '.') :
    (cs.map Char.toLower)[i]? = some sep ↔ cs[i]? = some sep := by
  rw [List.getElem?_map, Option.map_eq_some_iff]
  constructor
  · rintro ⟨c, hc, hlow⟩
    rw [hc, (toLower_eq_sep hsep).1 hlow]
  · intro h
    exact ⟨sep, h, (toLower_eq_sep hsep).2 rfl⟩

/-- Reading does not depend on the case. -/
private theorem readMAC_toLower (cs : List Char) : readMAC (cs.map Char.toLower) = readMAC cs := by
  have hcolon := getElem?_toLower_eq cs 2 (Or.inl rfl)
  have hhyphen := getElem?_toLower_eq cs 2 (Or.inr (Or.inl rfl))
  have hdot := getElem?_toLower_eq cs 4 (Or.inr (Or.inr rfl))
  unfold readMAC
  simp only [hcolon, hhyphen, hdot, List.length_map, readGroups_toLower]
  by_cases hsep : cs[2]? = some ':' ∨ cs[2]? = some '-'
  · have hget : (cs.map Char.toLower).getD 2 ':' = cs.getD 2 ':' ∧ (cs.getD 2 ':' = ':' ∨ cs.getD 2 ':' = '-') := by
      rw [List.getD_eq_getElem?_getD, List.getD_eq_getElem?_getD]
      rcases hsep with h | h
      · rw [hcolon.2 h, h]
        simp
      · rw [hhyphen.2 h, h]
        simp
    have hpairs : readPairs (cs.getD 2 ':') (cs.map Char.toLower) = readPairs (cs.getD 2 ':') cs := by
      refine readPairs_toLower ?_ cs
      rcases hget.2 with h | h
      · exact Or.inl h
      · exact Or.inr (Or.inl h)
    simp only [hsep, if_true, hget.1, hpairs]
  · simp only [hsep, if_false]

/-! ### Reading what is written -/

private theorem xtoi2_eq_some {a b : Char} {byte : Fin 16 × Fin 16} (h : xtoi2 a b = some byte) :
    hexChar byte.1 = a.toLower ∧ hexChar byte.2 = b.toLower := by
  simp only [xtoi2, hexValue, Option.bind_eq_bind, Option.bind_eq_some_iff, Option.some.injEq] at h
  obtain ⟨x, hx, y, hy, rfl⟩ := h
  exact ⟨by simpa using List.find?_some hx, by simpa using List.find?_some hy⟩

/-- Pairs of digits with colons, lowered, are what is written for their bytes. -/
private theorem toLower_eq_writePairs {cs : List Char} {bytes : List (Fin 16 × Fin 16)}
    (h : readPairs ':' cs = some bytes) :
    cs.map Char.toLower = writePairs bytes := by
  fun_induction readPairs ':' cs generalizing bytes with
  | case1 a b =>
    obtain ⟨byte, hbyte, rfl⟩ := Option.map_eq_some_iff.1 h
    simp [writePairs, xtoi2_eq_some hbyte]
  | case2 a b cs ih =>
    simp only [Option.bind_eq_bind, Option.bind_eq_some_iff, Option.some.injEq] at h
    obtain ⟨byte, hbyte, bytes', hrest, rfl⟩ := h
    have hne : bytes' ≠ [] := by
      rintro rfl
      have hnil : cs = [] := by simpa [writePairs] using ih hrest
      rw [hnil] at hrest
      cases hrest
    obtain ⟨b', bs, rfl⟩ := List.exists_cons_of_ne_nil hne
    simp [writePairs, xtoi2_eq_some hbyte, ih hrest, (toLower_eq_sep (Or.inl rfl)).2]
  | case3 a b c cs hne => cases h
  | case4 cs htwo hmore => cases h

private theorem xtoi2_hexChar (byte : Fin 16 × Fin 16) : xtoi2 (hexChar byte.1) (hexChar byte.2) = some byte := by
  rw [xtoi2, hexValue_hexChar, hexValue_hexChar]
  rfl

private theorem readPairs_writePairs {bytes : List (Fin 16 × Fin 16)} (hne : bytes ≠ []) :
    readPairs ':' (writePairs bytes) = some bytes := by
  induction bytes with
  | nil => exact absurd rfl hne
  | cons byte bytes ih =>
    cases bytes with
    | nil => simp [writePairs, readPairs, xtoi2_hexChar]
    | cons byte' bytes => simp [writePairs, readPairs, xtoi2_hexChar, ih]

private theorem length_writePairs (byte : Fin 16 × Fin 16) (bytes : List (Fin 16 × Fin 16)) :
    (writePairs (byte :: bytes)).length + 1 = 3 * (bytes.length + 1) := by
  induction bytes generalizing byte with
  | nil => rfl
  | cons byte' bytes ih =>
    have hrest := ih byte'
    simp only [writePairs, List.length_cons] at hrest ⊢
    omega

/-- Reading an address that was written. -/
private theorem readMAC_writePairs {bytes : List (Fin 16 × Fin 16)} (h : validLength bytes.length = true) :
    readMAC (writePairs bytes) = some bytes := by
  have hlen : 6 ≤ bytes.length := by
    simp only [validLength, decide_eq_true_eq] at h
    omega
  rcases bytes with _ | ⟨x, _ | ⟨y, bytes⟩⟩
  · simp at hlen
  · simp at hlen
  · have hw : (writePairs (x :: y :: bytes)).length + 1 = 3 * (x :: y :: bytes).length :=
      length_writePairs x (y :: bytes)
    have hcolon : (writePairs (x :: y :: bytes))[2]? = some ':' := rfl
    have hlong : ¬ (writePairs (x :: y :: bytes)).length < 14 := by omega
    have hthree : ((writePairs (x :: y :: bytes)).length + 1) % 3 = 0 ∧
        validLength (((writePairs (x :: y :: bytes)).length + 1) / 3) = true := by
      rw [hw, Nat.mul_div_cancel_left _ (by omega)]
      exact ⟨by omega, h⟩
    rw [readMAC, if_neg hlong, if_pos (Or.inl hcolon), if_pos hthree]
    exact readPairs_writePairs (by simp)

/-- An address that is read has one of the three lengths. -/
private theorem length_readPairs {sep : Char} {cs : List Char} {bytes : List (Fin 16 × Fin 16)}
    (h : readPairs sep cs = some bytes) : cs.length + 1 = 3 * bytes.length := by
  fun_induction readPairs sep cs generalizing bytes with
  | case1 a b =>
    obtain ⟨byte, -, rfl⟩ := Option.map_eq_some_iff.1 h
    rfl
  | case2 a b cs ih =>
    simp only [Option.bind_eq_bind, Option.bind_eq_some_iff, Option.some.injEq] at h
    obtain ⟨byte, -, bytes', hrest, rfl⟩ := h
    have hlen := ih hrest
    simp only [List.length_cons]
    omega
  | case3 a b c cs hne => cases h
  | case4 cs htwo hmore => cases h

private theorem length_readGroups {cs : List Char} {bytes : List (Fin 16 × Fin 16)} (h : readGroups cs = some bytes) :
    2 * (cs.length + 1) = 5 * bytes.length := by
  fun_induction readGroups cs generalizing bytes with
  | case1 a b c d =>
    simp only [Option.bind_eq_bind, Option.bind_eq_some_iff, Option.some.injEq] at h
    obtain ⟨byte, -, byte', -, rfl⟩ := h
    rfl
  | case2 a b c d cs ih =>
    simp only [Option.bind_eq_bind, Option.bind_eq_some_iff, Option.some.injEq] at h
    obtain ⟨byte, -, byte', -, bytes', hrest, rfl⟩ := h
    have hlen := ih hrest
    simp only [List.length_cons]
    omega
  | case3 a b c d e cs hne => cases h
  | case4 cs hfour hmore => cases h

private theorem parseMAC_eq_some {s : String} {a : HardwareAddr} :
    parseMAC s = some a ↔ readMAC s.toList = some a.bytes := by
  rw [parseMAC, Option.map_eq_some_iff]
  constructor
  · rintro ⟨bytes, hread, rfl⟩
    exact hread
  · intro h
    exact ⟨a.bytes, h, rfl⟩

theorem validLength_of_parseMAC {s : String} {a : HardwareAddr} (h : parseMAC s = some a) :
    validLength a.bytes.length = true := by
  have hread := parseMAC_eq_some.1 h
  unfold readMAC at hread
  split at hread
  · cases hread
  · split at hread
    · split at hread
      · rename_i hlen
        have hpairs := length_readPairs hread
        rw [hpairs, Nat.mul_div_cancel_left _ (by omega)] at hlen
        exact hlen.2
      · cases hread
    · split at hread
      · split at hread
        · rename_i hlen
          have hgroups := length_readGroups hread
          rw [hgroups, Nat.mul_div_cancel_left _ (by omega)] at hlen
          exact hlen.2
        · cases hread
      · cases hread

/-- The texts that are lowered to the written form of an address are those that spell it with colons. -/
theorem toLower_eq_toString {s : String} {a : HardwareAddr} (ha : validLength a.bytes.length = true) :
    s.toLower = a.toString ↔ parseMAC s = some a ∧ Coloned s := by
  have hlower : s.toLower = a.toString ↔ s.toList.map Char.toLower = writePairs a.bytes := by
    have hmap : s.toLower = s.map Char.toLower := rfl
    rw [← String.toList_inj, hmap, String.toList_map, HardwareAddr.toString, String.toList_ofList]
  rw [hlower, parseMAC_eq_some, Coloned]
  constructor
  · intro h
    refine ⟨?_, ?_⟩
    · rw [← readMAC_toLower, h]
      exact readMAC_writePairs ha
    · rw [← getElem?_toLower_eq _ 2 (Or.inl rfl), h]
      have hlen : 6 ≤ a.bytes.length := by
        simp only [validLength, decide_eq_true_eq] at ha
        omega
      rcases hb : a.bytes with _ | ⟨x, _ | ⟨y, bytes⟩⟩
      · simp [hb] at hlen
      · simp [hb] at hlen
      · rfl
  · rintro ⟨hread, hcolon⟩
    have hget : s.toList.getD 2 ':' = ':' := by rw [List.getD_eq_getElem?_getD, hcolon, Option.getD_some]
    unfold readMAC at hread
    rw [hget] at hread
    split at hread
    · cases hread
    · rw [if_pos (Or.inl hcolon)] at hread
      split at hread
      · exact toLower_eq_writePairs hread
      · cases hread

end GoNet
