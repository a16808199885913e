import Mathlib.Data.List.Forall2

/-!
# Base 64 without the case of the letters

Bytes are written in base 64 by groups of six bits, one digit for each, with `=` at the end for the bytes missing in
the last three.  Two such texts compared without regard to the case of their letters can be equal for different bytes:
exactly those whose groups differ, where they do, by the distance of the two alphabets (`equalFold_encode`).
-/

namespace Tink.Base64

/-- The digits of the standard encoding. -/
def alphabet : List Char :=
  ['A', 'B', 'C', 'D', 'E', 'F', 'G', 'H', 'I', 'J', 'K', 'L', 'M',
    'N', 'O', 'P', 'Q', 'R', 'S', 'T', 'U', 'V', 'W', 'X', 'Y', 'Z',
    'a', 'b', 'c', 'd', 'e', 'f', 'g', 'h', 'i', 'j', 'k', 'l', 'm',
    'n', 'o', 'p', 'q', 'r', 's', 't', 'u', 'v', 'w', 'x', 'y', 'z',
    '0', '1', '2', '3', '4', '5', '6', '7', '8', '9', '+', '/']

def digit (i : Fin 64) : Char := alphabet.getD i '='

/-- Three bytes as one number. -/
def quantum (a b c : UInt8) : Nat := a.toNat <<< 16 ||| b.toNat <<< 8 ||| c.toNat

/-- Six bits of a number, from the given one on. -/
def bits (v shift : Nat) : Fin 64 := Fin.ofNat 64 (v >>> shift)

/-- The groups of six bits; the last one is filled up with zeros. -/
def sextets : List UInt8 → List (Fin 64)
  | [] => []
  | [a] => [bits (quantum a 0 0) 18, bits (quantum a 0 0) 12]
  | [a, b] => [bits (quantum a b 0) 18, bits (quantum a b 0) 12, bits (quantum a b 0) 6]
  | a :: b :: c :: rest =>
    bits (quantum a b c) 18 :: bits (quantum a b c) 12 :: bits (quantum a b c) 6 :: bits (quantum a b c) 0 ::
      sextets rest

def padding (n : Nat) : Nat := (3 - n % 3) % 3

def encode (bytes : List UInt8) : String :=
  String.ofList ((sextets bytes).map digit ++ List.replicate (padding bytes.length) '=')

/-- Equality without regard to case, of texts in ASCII. -/
def equalFold (s t : String) : Bool := s.toList.map Char.toLower = t.toList.map Char.toLower

/-- The digits are the same up to case. -/
def SameLetter (i j : Fin 64) : Prop :=
  i = j ∨ (i.val < 52 ∧ j.val < 52 ∧ (i.val = j.val + 26 ∨ j.val = i.val + 26))

instance : DecidableRel SameLetter := fun _ _ => inferInstanceAs (Decidable (_ ∨ _))

/-- The bytes have the same digits up to case. -/
def Alike (x y : List UInt8) : Prop := List.Forall₂ SameLetter (sextets x) (sextets y)

instance : DecidableRel Alike :=
  fun x y => inferInstanceAs (Decidable (List.Forall₂ SameLetter (sextets x) (sextets y)))

private theorem length_sextets (bytes : List UInt8) : (sextets bytes).length = (4 * bytes.length + 2) / 3 := by
  induction bytes using sextets.induct with
  | case1 => rfl
  | case2 a => simp [sextets]
  | case3 a b => simp [sextets]
  | case4 a b c rest ih =>
    simp only [sextets, List.length_cons, ih]
    omega

private theorem toLower_digit_eq_iff : ∀ i j, (digit i).toLower = (digit j).toLower ↔ SameLetter i j := by
  decide +kernel

private theorem toLower_digit_ne : ∀ i, (digit i).toLower ≠ '=' := by
  decide +kernel

/-- A text is determined by what it is with some number of a foreign character behind it. -/
private theorem eq_of_append_replicate {u v : List Char} {c : Char} {m n : Nat} (hu : c ∉ u) (hv : c ∉ v)
    (h : u ++ List.replicate m c = v ++ List.replicate n c) : u = v := by
  have cut : ∀ {w : List Char} {k : Nat}, c ∉ w → (w ++ List.replicate k c).takeWhile (· ≠ c) = w := by
    intro w k hw
    have hall : ∀ a ∈ w, decide (a ≠ c) = true := fun a ha => decide_eq_true fun hac => hw (hac ▸ ha)
    rw [List.takeWhile_append_of_pos hall]
    cases k <;> simp [List.replicate_succ]
  rw [← cut (k := m) hu, h, cut hv]

/-- Two encodings are equal up to case exactly when the bytes are alike. -/
theorem equalFold_encode (x y : List UInt8) : equalFold (encode x) (encode y) = true ↔ Alike x y := by
  have hpad : ∀ n, (List.replicate n '=').map Char.toLower = List.replicate n '=' := by
    intro n
    rw [List.map_replicate]
    rfl
  have hmap : (sextets x).map (Char.toLower ∘ digit) = (sextets y).map (Char.toLower ∘ digit) ↔ Alike x y := by
    rw [← List.forall₂_eq_eq_eq, List.forall₂_map_left_iff, List.forall₂_map_right_iff]
    simp only [Function.comp_apply, toLower_digit_eq_iff]
    rfl
  have hforeign : ∀ z : List UInt8, '=' ∉ (sextets z).map (Char.toLower ∘ digit) := by
    intro z hz
    obtain ⟨i, -, hi⟩ := List.mem_map.1 hz
    exact toLower_digit_ne i hi
  rw [← hmap]
  unfold equalFold encode
  simp only [String.toList_ofList, List.map_append, List.map_map, hpad, decide_eq_true_eq]
  constructor
  · exact eq_of_append_replicate (hforeign x) (hforeign y)
  · intro h
    -- as many digits, so as many bytes, so as much padding
    have hlen := congrArg List.length h
    simp only [List.length_map, length_sextets] at hlen
    have hxy : x.length = y.length := by omega
    rw [h, hxy]

end Tink.Base64
