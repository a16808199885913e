import Mathlib.Algebra.Order.Field.Rat
import Mathlib.Tactic.Ring
import Tink.Lib.JsonText

/-!
# The numbers of JSON texts

The value of a literal (`Number.value`), and literals made of given digits: for an integer (`Number.ofInt`), and for a
decimal fraction `n * 10 ^ k` (`decimal`), with an exponent or without.
-/

namespace Json

/-- The absolute value of a literal. -/
def Parts.abs (p : Parts) : ℚ := (digitsValue (p.int ++ p.frac) : ℚ) * (10 : ℚ) ^ (p.exp - (p.frac.length : Int))

def Parts.value (p : Parts) : ℚ := if p.neg then -p.abs else p.abs

def Number.parts (n : Number) : Parts := (readParts n.text).get n.valid

def Number.value (n : Number) : ℚ := n.parts.value

/-- An integer in decimal digits, as `strconv.ParseInt` reads it. -/
def readInt : List Char → Option Int
  | '-' :: t => (natural t).map Int.negOfNat
  | t => (natural t).map Int.ofNat

theorem Parts.abs_nonneg (p : Parts) : 0 ≤ p.abs :=
  mul_nonneg (Nat.cast_nonneg _) (zpow_nonneg (by decide) _)

/-! ### Digits -/

private theorem foldl_digits (n : Nat) (ds : List Char) :
    ds.foldl (fun n c => 10 * n + (c.toNat - 48)) n = n * 10 ^ ds.length + digitsValue ds := by
  induction ds generalizing n with
  | nil => simp [digitsValue]
  | cons c ds ih =>
    have hcons : digitsValue (c :: ds) = (c.toNat - 48) * 10 ^ ds.length + digitsValue ds := by
      rw [digitsValue, List.foldl_cons, ih]
      simp
    rw [List.foldl_cons, ih, hcons, List.length_cons]
    ring

private theorem digitsValue_append (a b : List Char) :
    digitsValue (a ++ b) = digitsValue a * 10 ^ b.length + digitsValue b := by
  rw [digitsValue, List.foldl_append, ← digitsValue, foldl_digits]

private theorem digitsValue_toDigits (n : Nat) : digitsValue (Nat.toDigits 10 n) = n := by
  induction n using Nat.strong_induction_on with
  | _ n ih =>
    have hone : ∀ m < 10, digitsValue [m.digitChar] = m := by
      intro m hm
      have hchar := Nat.toNat_digitChar_sub_48_of_lt_ten hm
      simp [digitsValue, hchar]
    rw [Nat.toDigits_eq_if (by omega)]
    split
    · rename_i hlt
      exact hone n hlt
    · rename_i hge
      have hdigit := hone (n % 10) (by omega)
      rw [digitsValue_append, ih (n / 10) (by omega), hdigit]
      simp
      omega

private theorem digitsValue_replicate_zero (k : Nat) : digitsValue (List.replicate k '0') = 0 := by
  induction k with
  | zero => rfl
  | succ k ih =>
    rw [List.replicate_succ', digitsValue_append, ih]
    rfl

private theorem isDigit_toDigits (n : Nat) : ∀ c ∈ Nat.toDigits 10 n, c.isDigit = true :=
  fun _ hc => Nat.isDigit_of_mem_toDigits (by omega) (by omega) hc

private theorem natural_toDigits (n : Nat) : natural (Nat.toDigits 10 n) = some n := by
  rw [natural, if_pos ⟨Nat.toDigits_ne_nil, List.all_eq_true.2 (isDigit_toDigits n)⟩, digitsValue_toDigits]

private theorem head_toDigits {n : Nat} (h : n ≠ 0) : (Nat.toDigits 10 n).head? ≠ some '0' := by
  induction n using Nat.strong_induction_on with
  | _ n ih =>
    rw [Nat.toDigits_eq_if (by omega)]
    split
    · intro heq
      rw [List.head?_cons, Option.some.injEq, Nat.digitChar_eq_zero] at heq
      exact h heq
    · rename_i hge
      rw [List.head?_append_of_ne_nil _ Nat.toDigits_ne_nil]
      exact ih (n / 10) (by omega) (by omega)

/-! ### Literals -/

/-- The digits in front of the point: no zero at the start, unless it is the only one. -/
def Leading (int : List Char) : Prop :=
  (∀ c ∈ int, c.isDigit = true) ∧ (int = ['0'] ∨ (int ≠ [] ∧ int.head? ≠ some '0'))

theorem leading_zero : Leading ['0'] := ⟨List.forall_mem_singleton.2 rfl, Or.inl rfl⟩

theorem digits_nil : ∀ c ∈ ([] : List Char), c.isDigit = true := List.forall_mem_nil _

def expText : Option Int → List Char
  | none => []
  | some e => 'e' :: (if e < 0 then '-' else '+') :: Nat.toDigits 10 e.natAbs

def literalText (neg : Bool) (int frac : List Char) (exp : Option Int) : List Char :=
  (if neg then ['-'] else []) ++ (int ++ ((if frac = [] then [] else '.' :: frac) ++ expText exp))

private theorem readExp_expText (exp : Option Int) : readExp (expText exp) = some (exp.getD 0) := by
  cases exp with
  | none => rfl
  | some e =>
    by_cases he : e < 0
    · have hneg : Int.negOfNat e.natAbs = e := by
        rw [Int.negOfNat_eq, Int.ofNat_eq_natCast]
        omega
      rw [expText, if_pos he, readExp.eq_def]
      simp [natural_toDigits, hneg]
    · have hpos : Int.ofNat e.natAbs = e := by
        rw [Int.ofNat_eq_natCast]
        omega
      rw [expText, if_neg he, readExp.eq_def]
      simp only [true_or, if_true]
      rw [natural_toDigits, Option.map_some, hpos]
      rfl

/-- Digits are read up to where they end. -/
private theorem digits_append {ds rest : List Char} (hds : ∀ c ∈ ds, c.isDigit = true)
    (hrest : ∀ c, rest.head? = some c → c.isDigit = false) :
    (ds ++ rest).takeWhile Char.isDigit = ds ∧ (ds ++ rest).dropWhile Char.isDigit = rest := by
  rw [List.takeWhile_append_of_pos hds, List.dropWhile_append_of_pos hds]
  cases rest with
  | nil => simp
  | cons c rest =>
    have hc := hrest c rfl
    simp [hc]

private theorem head_expText (exp : Option Int) : ∀ c, (expText exp).head? = some c → c.isDigit = false := by
  intro c hc
  cases exp with
  | none => cases hc
  | some e =>
    cases hc
    rfl

private theorem readFrac_text {frac : List Char} (hfrac : ∀ c ∈ frac, c.isDigit = true) (exp : Option Int) :
    readFrac ((if frac = [] then [] else '.' :: frac) ++ expText exp) = some (frac, expText exp) := by
  obtain ⟨htake, hdrop⟩ := digits_append hfrac (head_expText exp)
  by_cases hnil : frac = []
  · subst hnil
    cases exp with
    | none => rfl
    | some e => rfl
  · rw [if_neg hnil, List.cons_append, readFrac, htake, hdrop, if_neg hnil]

private theorem readUnsigned_text {neg : Bool} {int frac : List Char} (hint : Leading int)
    (hfrac : ∀ c ∈ frac, c.isDigit = true) (exp : Option Int) :
    readUnsigned neg (int ++ ((if frac = [] then [] else '.' :: frac) ++ expText exp)) =
      some ⟨neg, int, frac, exp.getD 0⟩ := by
  have hhead : ∀ c, ((if frac = [] then [] else '.' :: frac) ++ expText exp).head? = some c → c.isDigit = false := by
    intro c hc
    by_cases hnil : frac = []
    · rw [if_pos hnil, List.nil_append] at hc
      exact head_expText exp c hc
    · rw [if_neg hnil] at hc
      cases hc
      rfl
  obtain ⟨htake, hdrop⟩ := digits_append hint.1 hhead
  simp only [readUnsigned, htake, hdrop, if_pos hint.2, readFrac_text hfrac, Option.bind_eq_bind, Option.bind_some,
    readExp_expText]

/-- A literal is read as the parts it is made of. -/
private theorem readParts_literalText (neg : Bool) {int frac : List Char} (hint : Leading int)
    (hfrac : ∀ c ∈ frac, c.isDigit = true) (exp : Option Int) :
    readParts (literalText neg int frac exp) = some ⟨neg, int, frac, exp.getD 0⟩ := by
  cases neg with
  | true =>
    rw [literalText, if_pos rfl, List.singleton_append, readParts]
    exact readUnsigned_text hint hfrac exp
  | false =>
    have hne : int ≠ [] := by
      rcases hint.2 with rfl | ⟨hne, -⟩
      · simp
      · exact hne
    obtain ⟨c, ds, rfl⟩ := List.exists_cons_of_ne_nil hne
    have hc : c ≠ '-' := by
      rintro rfl
      cases hint.1 _ List.mem_cons_self
    have hread := @readUnsigned_text false _ _ hint hfrac exp
    rw [literalText, if_neg (by decide), List.nil_append]
    rw [List.cons_append] at hread ⊢
    unfold readParts
    split
    · rename_i t heq
      exact absurd (List.cons.inj heq).1 hc
    · exact hread

def literal (neg : Bool) (int frac : List Char) (exp : Option Int) (hint : Leading int)
    (hfrac : ∀ c ∈ frac, c.isDigit = true) : Number :=
  ⟨literalText neg int frac exp, by rw [readParts_literalText neg hint hfrac]; rfl⟩

@[simp] theorem parts_literal {neg : Bool} {int frac : List Char} {exp : Option Int} (hint : Leading int)
    (hfrac : ∀ c ∈ frac, c.isDigit = true) :
    (literal neg int frac exp hint hfrac).parts = ⟨neg, int, frac, exp.getD 0⟩ := by
  simp only [Number.parts, literal, readParts_literalText neg hint hfrac, Option.get_some]

private theorem leading_toDigits (n : Nat) : Leading (Nat.toDigits 10 n) := by
  refine ⟨isDigit_toDigits n, ?_⟩
  by_cases hn : n = 0
  · subst hn
    exact Or.inl (Nat.toDigits_zero 10)
  · exact Or.inr ⟨Nat.toDigits_ne_nil, head_toDigits hn⟩

/-- The literal of an integer. -/
def Number.ofInt (n : Int) : Number :=
  literal (n < 0) (Nat.toDigits 10 n.natAbs) [] none (leading_toDigits _) digits_nil

theorem Number.abs_ofInt (n : Int) : (Number.ofInt n).parts.abs = (n.natAbs : ℚ) := by
  rw [Number.ofInt, parts_literal]
  simp [Parts.abs, digitsValue_toDigits]

private theorem natural_of_leading {int : List Char} (h : Leading int) : natural int = some (digitsValue int) := by
  have hne : int ≠ [] := by
    rcases h.2 with rfl | ⟨hne, -⟩
    · simp
    · exact hne
  rw [natural, if_pos ⟨hne, List.all_eq_true.2 h.1⟩]

/-- Without a fraction and an exponent, a literal is read as an integer. -/
theorem readInt_literalText (neg : Bool) {int : List Char} (hint : Leading int) :
    readInt (literalText neg int [] none) =
      some (if neg then -(digitsValue int : Int) else (digitsValue int : Int)) := by
  cases neg with
  | true =>
    have htext : literalText true int [] none = '-' :: int := by simp [literalText, expText]
    rw [htext, readInt, natural_of_leading hint, Option.map_some, Int.negOfNat_eq]
    rfl
  | false =>
    have htext : literalText false int [] none = int := by simp [literalText, expText]
    rw [htext]
    unfold readInt
    split
    · rename_i t
      cases hint.1 _ List.mem_cons_self
    · rw [natural_of_leading hint]
      rfl

/-! ### Decimal fractions -/

/-- The digits of `n * 10 ^ k` in front of the point and behind it, and the exponent if there is to be one. -/
def layout (scientific : Bool) (ds : List Char) (k : Int) : List Char × List Char × Option Int :=
  let point := (ds.length : Int) + k
  if scientific then (ds.take 1, ds.drop 1, some (point - 1))
  else if point ≤ 0 then (['0'], List.replicate (-point).toNat '0' ++ ds, none)
  else if 0 ≤ k then (ds ++ List.replicate k.toNat '0', [], none)
  else (ds.take point.toNat, ds.drop point.toNat, none)

private theorem leading_take {ds : List Char} (hds : ∀ c ∈ ds, c.isDigit = true) (hhead : ds.head? ≠ some '0')
    (hne : ds ≠ []) {j : Nat} (hj : 0 < j) : Leading (ds.take j) := by
  obtain ⟨c, ds, rfl⟩ := List.exists_cons_of_ne_nil hne
  obtain ⟨j, rfl⟩ : ∃ i, j = i + 1 := ⟨j - 1, by omega⟩
  rw [List.take_succ_cons]
  refine ⟨?_, Or.inr ⟨by simp, hhead⟩⟩
  intro x hx
  rcases List.mem_cons.1 hx with rfl | hx
  · exact hds _ List.mem_cons_self
  · exact hds _ (List.mem_cons_of_mem _ (List.mem_of_mem_take hx))

private theorem isDigit_replicate_zero (j : Nat) : ∀ c ∈ List.replicate j '0', c.isDigit = true := by
  intro c hc
  rw [List.eq_of_mem_replicate hc]
  rfl

private theorem layout_ok (scientific : Bool) {ds : List Char} (k : Int) (hds : ∀ c ∈ ds, c.isDigit = true)
    (hhead : ds.head? ≠ some '0') (hne : ds ≠ []) :
    Leading (layout scientific ds k).1 ∧ ∀ c ∈ (layout scientific ds k).2.1, c.isDigit = true := by
  simp only [layout]
  split
  · exact ⟨leading_take hds hhead hne Nat.one_pos, fun c hc => hds c (List.mem_of_mem_drop hc)⟩
  · split
    · refine ⟨leading_zero, ?_⟩
      intro c hc
      rcases List.mem_append.1 hc with hc | hc
      · exact isDigit_replicate_zero _ c hc
      · exact hds c hc
    · split
      · refine ⟨⟨?_, Or.inr ⟨by simp [hne], ?_⟩⟩, by simp⟩
        · intro c hc
          rcases List.mem_append.1 hc with hc | hc
          · exact hds c hc
          · exact isDigit_replicate_zero _ c hc
        · rw [List.head?_append_of_ne_nil _ hne]
          exact hhead
      · exact ⟨leading_take hds hhead hne (by omega), fun c hc => hds c (List.mem_of_mem_drop hc)⟩

/-- The literal of `n * 10 ^ k`. -/
def decimal (neg scientific : Bool) (n : Nat) (hn : n ≠ 0) (k : Int) : Number :=
  let parts := layout scientific (Nat.toDigits 10 n) k
  literal neg parts.1 parts.2.1 parts.2.2
    (layout_ok scientific k (isDigit_toDigits n) (head_toDigits hn) Nat.toDigits_ne_nil).1
    (layout_ok scientific k (isDigit_toDigits n) (head_toDigits hn) Nat.toDigits_ne_nil).2

private theorem layout_value (scientific : Bool) {ds : List Char} (hne : ds ≠ []) (k : Int) :
    (digitsValue ((layout scientific ds k).1 ++ (layout scientific ds k).2.1) : ℚ) *
      (10 : ℚ) ^ ((layout scientific ds k).2.2.getD 0 - ((layout scientific ds k).2.1.length : Int)) =
    (digitsValue ds : ℚ) * (10 : ℚ) ^ k := by
  have hlen : 0 < ds.length := List.length_pos_iff.2 hne
  simp only [layout]
  split
  · rw [List.take_append_drop, List.length_drop]
    congr 2
    simp only [Option.getD_some]
    omega
  · split
    · have hzero : digitsValue (['0'] ++ (List.replicate (-((ds.length : Int) + k)).toNat '0' ++ ds)) =
          digitsValue ds := by
        have hfront : digitsValue ['0'] = 0 := rfl
        rw [digitsValue_append, hfront, digitsValue_append, digitsValue_replicate_zero]
        simp
      rw [hzero]
      congr 2
      simp only [Option.getD_none, List.length_append, List.length_replicate]
      omega
    · split
      · rename_i hk
        rw [List.append_nil, digitsValue_append, digitsValue_replicate_zero, List.length_replicate]
        obtain ⟨j, rfl⟩ := Int.eq_ofNat_of_zero_le hk
        simp
      · rw [List.take_append_drop, List.length_drop]
        congr 2
        simp only [Option.getD_none]
        omega

theorem abs_decimal (neg scientific : Bool) {n : Nat} (hn : n ≠ 0) (k : Int) :
    (decimal neg scientific n hn k).parts.abs = (n : ℚ) * (10 : ℚ) ^ k := by
  rw [decimal, parts_literal, Parts.abs, layout_value scientific Nat.toDigits_ne_nil, digitsValue_toDigits]

theorem neg_decimal (neg scientific : Bool) {n : Nat} (hn : n ≠ 0) (k : Int) :
    (decimal neg scientific n hn k).parts.neg = neg := by
  rw [decimal, parts_literal]

theorem readInt_decimal (neg : Bool) {n : Nat} (hn : n ≠ 0) (j : Nat) :
    readInt (decimal neg false n hn j).text =
      some (if neg then -((n * 10 ^ j : Nat) : Int) else ((n * 10 ^ j : Nat) : Int)) := by
  have hpoint : ¬ ((Nat.toDigits 10 n).length : Int) + (j : Int) ≤ 0 := by
    have hlen : 0 < (Nat.toDigits 10 n).length := List.length_pos_iff.2 Nat.toDigits_ne_nil
    omega
  have hlayout : layout false (Nat.toDigits 10 n) j = (Nat.toDigits 10 n ++ List.replicate j '0', [], none) := by
    rw [layout]
    simp only [Bool.false_eq_true, if_false, if_neg hpoint, if_pos (Int.natCast_nonneg j), Int.toNat_natCast]
  have hleading := (layout_ok false j (isDigit_toDigits n) (head_toDigits hn) Nat.toDigits_ne_nil).1
  have htext : (decimal neg false n hn j).text =
      literalText neg (Nat.toDigits 10 n ++ List.replicate j '0') [] none := by
    rw [decimal]
    simp only [literal, hlayout]
  rw [hlayout] at hleading
  rw [htext, readInt_literalText neg hleading, digitsValue_append, digitsValue_replicate_zero, digitsValue_toDigits,
    List.length_replicate, Nat.add_zero]

end Json
