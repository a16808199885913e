import Mathlib.Data.Int.Log
import Mathlib.Data.Rat.Floor
import Mathlib.Tactic.Linarith
import Tink.Lib.JsonNumber

/-!
# Doubles

The finite numbers of the format binary64, by their value: a rational number that rounding to the nearest one, and to
an even last digit in the middle of two, leaves as it is.  A number too large for the format is not read
(`Double.ofNumber`), one too small for it is zero, and zero has a sign.

`Double.format` writes the shortest decimal number that is read as the double, in the layout of `encoding/json`.
-/

namespace Json

/-! ### Rounding -/

def roundEven (q : ℚ) : ℤ :=
  if q - ⌊q⌋ < 1 / 2 then ⌊q⌋
  else if 1 / 2 < q - ⌊q⌋ then ⌊q⌋ + 1
  else if ⌊q⌋ % 2 = 0 then ⌊q⌋
  else ⌊q⌋ + 1

/-- The exponent of the last place of the doubles around a number. -/
def lastPlace (q : ℚ) : ℤ := max (Int.log 2 q - 52) (-1074)

def roundDouble (q : ℚ) : ℚ := roundEven (q / (2 : ℚ) ^ lastPlace q) * (2 : ℚ) ^ lastPlace q

private theorem roundEven_intCast (n : ℤ) : roundEven n = n := by
  have hlt : ((n : ℚ) - (n : ℚ)) < 1 / 2 := by
    rw [sub_self]
    norm_num
  rw [roundEven, Int.floor_intCast, if_pos hlt]

private theorem floor_le_roundEven (q : ℚ) : ⌊q⌋ ≤ roundEven q ∧ roundEven q ≤ ⌊q⌋ + 1 := by
  unfold roundEven
  split
  · omega
  · split
    · omega
    · split <;> omega

private theorem le_roundEven {q : ℚ} {n : ℤ} (h : (n : ℚ) ≤ q) : n ≤ roundEven q :=
  (Int.le_floor.2 h).trans (floor_le_roundEven q).1

private theorem roundEven_le {q : ℚ} {n : ℤ} (h : q ≤ n) : roundEven q ≤ n := by
  rcases h.eq_or_lt with heq | hlt
  · rw [heq, roundEven_intCast]
  · have hfloor : ⌊q⌋ < n := Int.floor_lt.2 hlt
    have hround := (floor_le_roundEven q).2
    omega

private theorem two_zpow_pos (e : ℤ) : (0 : ℚ) < (2 : ℚ) ^ e := zpow_pos (by norm_num) e

/-- A multiple of a power of two is not rounded, if the power is not below the last place. -/
private theorem roundDouble_of_lastPlace_le {q : ℚ} {m e : ℤ} (hq : q = m * (2 : ℚ) ^ e) (he : lastPlace q ≤ e) :
    roundDouble q = q := by
  obtain ⟨j, hj⟩ := Int.eq_ofNat_of_zero_le (sub_nonneg.2 he)
  have hpos := two_zpow_pos (lastPlace q)
  have hsplit : (2 : ℚ) ^ e = (2 : ℚ) ^ (j : ℤ) * (2 : ℚ) ^ lastPlace q := by
    rw [← zpow_add₀ (by norm_num)]
    congr 1
    omega
  have hint : q / (2 : ℚ) ^ lastPlace q = ((m * 2 ^ j : ℤ) : ℚ) := by
    rw [div_eq_iff hpos.ne']
    conv_lhs => rw [hq, hsplit]
    push_cast
    rw [zpow_natCast]
    ring
  rw [roundDouble, hint, roundEven_intCast, ← hint, div_mul_cancel₀ _ hpos.ne']

private theorem roundDouble_zero : roundDouble 0 = 0 := by
  have h : roundEven 0 = 0 := roundEven_intCast 0
  rw [roundDouble, zero_div, h]
  simp

private theorem roundDouble_nonneg {q : ℚ} (hq : 0 ≤ q) : 0 ≤ roundDouble q := by
  have hdiv : ((0 : ℤ) : ℚ) ≤ q / (2 : ℚ) ^ lastPlace q := by
    rw [Int.cast_zero]
    exact div_nonneg hq (two_zpow_pos _).le
  exact mul_nonneg (Int.cast_nonneg (le_roundEven hdiv)) (two_zpow_pos _).le

private theorem two_zpow_add_53 (e : ℤ) : (2 : ℚ) ^ (e + 53) = 9007199254740992 * (2 : ℚ) ^ e := by
  rw [zpow_add₀ (by norm_num), mul_comm]
  norm_num

/-- The number in front of the last place has at most 53 digits, but for the next power of two. -/
private theorem roundEven_le_pow (q : ℚ) : roundEven (q / (2 : ℚ) ^ lastPlace q) ≤ 9007199254740992 := by
  refine roundEven_le ?_
  have hlog := Int.lt_zpow_succ_log_self (b := 2) (by norm_num) q
  have hle : (2 : ℚ) ^ (Int.log 2 q + 1) ≤ (2 : ℚ) ^ (lastPlace q + 53) := by
    refine zpow_le_zpow_right₀ (by norm_num) ?_
    have : Int.log 2 q - 52 ≤ lastPlace q := le_max_left _ _
    omega
  rw [div_le_iff₀ (two_zpow_pos _)]
  rw [Nat.cast_ofNat] at hlog
  rw [two_zpow_add_53] at hle
  exact_mod_cast (hlog.trans_le hle).le

/-- What has been rounded is not rounded again. -/
private theorem roundDouble_roundDouble {q : ℚ} (hq : 0 ≤ q) : roundDouble (roundDouble q) = roundDouble q := by
  have hr : roundDouble q = roundEven (q / (2 : ℚ) ^ lastPlace q) * (2 : ℚ) ^ lastPlace q := rfl
  by_cases hle : lastPlace (roundDouble q) ≤ lastPlace q
  · exact roundDouble_of_lastPlace_le hr hle
  by_cases hzero : roundDouble q = 0
  · rw [hzero, roundDouble_zero]
  -- the last place has moved up, so the result is the next power of two
  have hmin : -1074 ≤ lastPlace q := le_max_right _ _
  have hlog : lastPlace q + 53 ≤ Int.log 2 (roundDouble q) := by
    have hmax : lastPlace (roundDouble q) = max (Int.log 2 (roundDouble q) - 52) (-1074) := rfl
    omega
  have hpos : 0 < roundDouble q := lt_of_le_of_ne (roundDouble_nonneg hq) (Ne.symm hzero)
  have hlow : (2 : ℚ) ^ (lastPlace q + 53) ≤ roundDouble q := by
    have hself := Int.zpow_log_le_self (b := 2) (by norm_num) hpos
    rw [Nat.cast_ofNat] at hself
    exact (zpow_le_zpow_right₀ (by norm_num) hlog).trans hself
  have hhigh : roundDouble q ≤ (2 : ℚ) ^ (lastPlace q + 53) := by
    have hm : ((roundEven (q / (2 : ℚ) ^ lastPlace q) : ℤ) : ℚ) ≤ 9007199254740992 := by
      exact_mod_cast roundEven_le_pow q
    rw [two_zpow_add_53, hr]
    exact mul_le_mul_of_nonneg_right hm (two_zpow_pos _).le
  have heq : roundDouble q = (2 : ℚ) ^ (lastPlace q + 53) := le_antisymm hhigh hlow
  have hplace : lastPlace (roundDouble q) ≤ lastPlace q + 53 := by
    have hpow := Int.log_zpow (R := ℚ) (b := 2) (by norm_num) (lastPlace q + 53)
    rw [Nat.cast_ofNat, ← heq] at hpow
    have hmax : lastPlace (roundDouble q) = max (Int.log 2 (roundDouble q) - 52) (-1074) := rfl
    omega
  refine roundDouble_of_lastPlace_le (m := 1) ?_ hplace
  rw [Int.cast_one, one_mul]
  exact heq

/-- A power of two bounds what is rounded, too. -/
theorem roundDouble_le_zpow {q : ℚ} {k : ℤ} (hq : 0 ≤ q) (hk : 0 ≤ k) (h : q ≤ (2 : ℚ) ^ k) :
    roundDouble q ≤ (2 : ℚ) ^ k := by
  have hlog : Int.log 2 q ≤ k := by
    rcases hq.eq_or_lt with rfl | hpos
    · rw [Int.log_zero_right]
      exact hk
    · have hself := Int.zpow_log_le_self (b := 2) (by norm_num) hpos
      rw [Nat.cast_ofNat] at hself
      exact (zpow_le_zpow_iff_right₀ (by norm_num)).1 (hself.trans h)
  have hplace : lastPlace q ≤ k := by
    have hmax : lastPlace q = max (Int.log 2 q - 52) (-1074) := rfl
    omega
  obtain ⟨j, hj⟩ := Int.eq_ofNat_of_zero_le (sub_nonneg.2 hplace)
  have hsplit : (2 : ℚ) ^ k = ((2 ^ j : ℤ) : ℚ) * (2 : ℚ) ^ lastPlace q := by
    push_cast
    rw [← zpow_natCast, ← zpow_add₀ (by norm_num)]
    congr 1
    omega
  have hdiv : q / (2 : ℚ) ^ lastPlace q ≤ ((2 ^ j : ℤ) : ℚ) := by
    rw [div_le_iff₀ (two_zpow_pos _), ← hsplit]
    exact h
  rw [roundDouble, hsplit]
  exact mul_le_mul_of_nonneg_right (Int.cast_le.2 (roundEven_le hdiv)) (two_zpow_pos _).le

/-- A power of two is a bound below, too. -/
private theorem zpow_le_roundDouble {q : ℚ} {k : ℤ} (hk : -1074 ≤ k) (h : (2 : ℚ) ^ k ≤ q) :
    (2 : ℚ) ^ k ≤ roundDouble q := by
  have hpos : 0 < q := (two_zpow_pos k).trans_le h
  have hlow := Int.zpow_log_le_self (b := 2) (by norm_num) hpos
  have hhigh := Int.lt_zpow_succ_log_self (b := 2) (by norm_num) q
  rw [Nat.cast_ofNat] at hlow hhigh
  have hlog : k ≤ Int.log 2 q := by
    have hlt := (zpow_lt_zpow_iff_right₀ (by norm_num)).1 (h.trans_lt hhigh)
    omega
  have hplace : lastPlace q ≤ Int.log 2 q := by
    have hmax : lastPlace q = max (Int.log 2 q - 52) (-1074) := rfl
    omega
  obtain ⟨j, hj⟩ := Int.eq_ofNat_of_zero_le (sub_nonneg.2 hplace)
  have hsplit : (2 : ℚ) ^ Int.log 2 q = ((2 ^ j : ℤ) : ℚ) * (2 : ℚ) ^ lastPlace q := by
    push_cast
    rw [← zpow_natCast, ← zpow_add₀ (by norm_num)]
    congr 1
    omega
  have hdiv : ((2 ^ j : ℤ) : ℚ) ≤ q / (2 : ℚ) ^ lastPlace q := by
    rw [le_div_iff₀ (two_zpow_pos _), ← hsplit]
    exact hlow
  calc (2 : ℚ) ^ k ≤ (2 : ℚ) ^ Int.log 2 q := zpow_le_zpow_right₀ (by norm_num) hlog
    _ = ((2 ^ j : ℤ) : ℚ) * (2 : ℚ) ^ lastPlace q := hsplit
    _ ≤ roundDouble q := mul_le_mul_of_nonneg_right (Int.cast_le.2 (le_roundEven hdiv)) (two_zpow_pos _).le

private theorem two_zpow_53 : (2 : ℚ) ^ (53 : ℤ) = ((9007199254740992 : ℕ) : ℚ) := by norm_num

/-- Integers below `2 ^ 53` are doubles. -/
theorem roundDouble_natCast {n : ℕ} (h : n < 9007199254740992) : roundDouble n = n := by
  refine roundDouble_of_lastPlace_le (m := n) (e := 0) (by simp) ?_
  have hlog : Int.log 2 (n : ℚ) < 53 := by
    rcases Nat.eq_zero_or_pos n with rfl | hpos
    · simp
    · have hpos' : (0 : ℚ) < n := Nat.cast_pos.2 hpos
      have hlow := Int.zpow_log_le_self (b := 2) (by norm_num) hpos'
      have hlt : (n : ℚ) < (2 : ℚ) ^ (53 : ℤ) := by
        rw [two_zpow_53]
        exact Nat.cast_lt.2 h
      rw [Nat.cast_ofNat] at hlow
      exact (zpow_lt_zpow_iff_right₀ (by norm_num)).1 (hlow.trans_lt hlt)
  have hmax : lastPlace n = max (Int.log 2 (n : ℚ) - 52) (-1074) := rfl
  omega

/-- No other integer is rounded to one of them. -/
private theorem eq_of_roundDouble_natCast {m n : ℕ} (h : n < 9007199254740992) (hround : roundDouble m = n) :
    m = n := by
  by_cases hm : m < 9007199254740992
  · rw [roundDouble_natCast hm] at hround
    exact Nat.cast_inj.1 hround
  · have hle : (2 : ℚ) ^ (53 : ℤ) ≤ (m : ℚ) := by
      rw [two_zpow_53]
      exact Nat.cast_le.2 (not_lt.1 hm)
    have hge := zpow_le_roundDouble (by norm_num) hle
    rw [hround, two_zpow_53, Nat.cast_le] at hge
    omega

/-! ### Doubles -/

/-- The powers of two from here on are too large. -/
def tooLarge : ℚ := (2 : ℚ) ^ (1024 : ℤ)

/-- A finite double. -/
structure Double where
  neg : Bool
  abs : ℚ
  nonneg : 0 ≤ abs
  exact : roundDouble abs = abs
  finite : abs < tooLarge

@[ext] theorem Double.ext {x y : Double} (hneg : x.neg = y.neg) (habs : x.abs = y.abs) : x = y := by
  cases x
  cases y
  cases hneg
  cases habs
  rfl

/-- `strconv.ParseFloat`. -/
def Double.ofNumber (n : Number) : Option Double :=
  if h : roundDouble n.parts.abs < tooLarge then
    some ⟨n.parts.neg, roundDouble n.parts.abs, roundDouble_nonneg n.parts.abs_nonneg,
      roundDouble_roundDouble n.parts.abs_nonneg, h⟩
  else none

def Double.zero : Double :=
  ⟨false, 0, le_rfl, roundDouble_zero, two_zpow_pos _⟩

theorem Double.ofNumber_eq_some {n : Number} {x : Double} :
    Double.ofNumber n = some x ↔ n.parts.neg = x.neg ∧ roundDouble n.parts.abs = x.abs := by
  unfold Double.ofNumber
  split
  · rename_i hlt
    rw [Option.some.injEq]
    constructor
    · rintro rfl
      exact ⟨rfl, rfl⟩
    · rintro ⟨hneg, habs⟩
      exact Double.ext hneg habs
  · rename_i hge
    refine iff_of_false nofun ?_
    rintro ⟨-, habs⟩
    exact hge (habs ▸ x.finite)

/-! ### The shortest decimal number -/

/-- The two decimal numbers next to `q` with so many digits, the nearer one first. -/
def candidates (q : ℚ) (digits : Nat) : List (Nat × Int) :=
  let k := Int.log 10 q + 1 - digits
  let x := q / (10 : ℚ) ^ k
  let near := (roundEven x).toNat
  let other := if near = ⌊x⌋.toNat then near + 1 else near - 1
  [near, other].map fun n => if n = 10 ^ digits then (1, k + digits) else (n, k)

/-- It is read as `q`. -/
def readsAs (q : ℚ) (p : Nat × Int) : Bool := roundDouble ((p.1 : ℚ) * (10 : ℚ) ^ p.2) = q

/-- All digits of a double. -/
def allDigits (q : ℚ) : Nat × Int :=
  let m := (roundEven (q / (2 : ℚ) ^ lastPlace q)).toNat
  if 0 ≤ lastPlace q then (m * 2 ^ (lastPlace q).toNat, 0) else (m * 5 ^ (-lastPlace q).toNat, lastPlace q)

/-- The shortest decimal number that is read as `q`; up to 17 digits are tried, which is enough. -/
def shortest (q : ℚ) : Nat × Int :=
  ((List.range 17).findSome? fun i => (candidates q (i + 1)).find? (readsAs q)).getD (allDigits q)

private theorem allDigits_value {q : ℚ} (hq : 0 ≤ q) (h : roundDouble q = q) :
    ((allDigits q).1 : ℚ) * (10 : ℚ) ^ (allDigits q).2 = q := by
  have hdiv : ((0 : ℤ) : ℚ) ≤ q / (2 : ℚ) ^ lastPlace q := by
    rw [Int.cast_zero]
    exact div_nonneg hq (two_zpow_pos _).le
  have hm : (((roundEven (q / (2 : ℚ) ^ lastPlace q)).toNat : ℕ) : ℚ) = roundEven (q / (2 : ℚ) ^ lastPlace q) := by
    exact_mod_cast Int.toNat_of_nonneg (le_roundEven hdiv)
  have hq' : (roundEven (q / (2 : ℚ) ^ lastPlace q) : ℚ) * (2 : ℚ) ^ lastPlace q = q := h
  simp only [allDigits]
  split
  · rename_i hge
    obtain ⟨j, hj⟩ := Int.eq_ofNat_of_zero_le hge
    push_cast
    rw [hm, mul_one]
    conv_rhs => rw [← hq']
    rw [hj, zpow_natCast]
    simp
  · rename_i hlt
    obtain ⟨j, hj⟩ := Int.eq_ofNat_of_zero_le (show 0 ≤ -lastPlace q by omega)
    have hplace : lastPlace q = -(j : ℤ) := by omega
    push_cast
    rw [hm]
    conv_rhs => rw [← hq']
    rw [hj, hplace, zpow_neg, zpow_neg, zpow_natCast, zpow_natCast]
    simp only [Int.toNat_natCast]
    have hten : (10 : ℚ) ^ j = 2 ^ j * 5 ^ j := by
      rw [← mul_pow]
      norm_num
    rw [hten]
    field_simp

private theorem shortest_readsAs {q : ℚ} (hq : 0 ≤ q) (h : roundDouble q = q) : readsAs q (shortest q) = true := by
  rw [shortest]
  cases hfind : (List.range 17).findSome? fun i => (candidates q (i + 1)).find? (readsAs q) with
  | none =>
    rw [Option.getD_none, readsAs, allDigits_value hq h]
    exact decide_eq_true h
  | some p =>
    obtain ⟨i, -, hi⟩ := List.exists_of_findSome?_eq_some hfind
    rw [Option.getD_some]
    exact List.find?_some hi

private theorem shortest_ne_zero {q : ℚ} (hq : 0 ≤ q) (h : roundDouble q = q) (hne : q ≠ 0) : (shortest q).1 ≠ 0 := by
  intro hzero
  have hreads := of_decide_eq_true (shortest_readsAs hq h)
  rw [hzero, Nat.cast_zero, zero_mul, roundDouble_zero] at hreads
  exact hne hreads.symm

/-- The decimal numbers with at most as many digits as an integer has are integers, too. -/
private theorem candidates_nonneg {q : ℚ} {digits : ℕ} (h : (digits : ℤ) ≤ Int.log 10 q + 1) {p : ℕ × ℤ}
    (hp : p ∈ candidates q digits) : 0 ≤ p.2 := by
  simp only [candidates, List.mem_map] at hp
  obtain ⟨n, -, rfl⟩ := hp
  split
  · simp only
    omega
  · simp only
    omega

/-- The shortest decimal number for an integer below `2 ^ 53` is the integer. -/
private theorem shortest_natCast {n : ℕ} (hpos : n ≠ 0) (h : n < 9007199254740992) :
    ∃ m j : ℕ, shortest n = (m, (j : ℤ)) ∧ m * 10 ^ j = n := by
  set digits := Nat.log 10 n with hdigits
  have hlog : Int.log 10 (n : ℚ) = digits := Int.log_natCast 10 n
  have hlt : digits < 17 := by
    have hpow := Nat.pow_log_le_self 10 hpos
    rw [← hdigits] at hpow
    by_contra hge
    have hle : 10 ^ 17 ≤ 10 ^ digits := Nat.pow_le_pow_right (by norm_num) (not_lt.1 hge)
    omega
  -- the search ends with all digits of the number at the latest
  have hself : (n, (0 : ℤ)) ∈ candidates n (digits + 1) := by
    have hten : n ≠ 10 ^ (digits + 1) := (Nat.lt_pow_succ_log_self (by norm_num) n).ne
    have hround : roundEven (n : ℚ) = n := roundEven_intCast n
    have hk : Int.log 10 (n : ℚ) + 1 - ((digits + 1 : ℕ) : ℤ) = 0 := by
      rw [hlog]
      push_cast
      ring
    simp only [candidates, hk, zpow_zero, div_one, hround, Int.toNat_natCast, List.map_cons, if_neg hten]
    exact List.mem_cons_self
  have hreads : readsAs n (n, 0) = true := by
    rw [readsAs, zpow_zero, mul_one]
    exact decide_eq_true (roundDouble_natCast h)
  have hfound : ((candidates n (digits + 1)).find? (readsAs n)).isSome = true :=
    List.find?_isSome.2 ⟨_, hself, hreads⟩
  have hsearch : ((List.range 17).findSome? fun i => (candidates n (i + 1)).find? (readsAs n)).isSome = true :=
    List.findSome?_isSome_iff.2 ⟨digits, List.mem_range.2 hlt, hfound⟩
  obtain ⟨p, hp⟩ := Option.isSome_iff_exists.1 hsearch
  have hshortest : shortest n = p := by rw [shortest, hp, Option.getD_some]
  obtain ⟨before, i, after, hrange, hi, hnone⟩ := List.findSome?_eq_some_iff.1 hp
  have hle : i ≤ digits := by
    by_contra hgt
    have hmem : digits ∈ before ++ i :: after := by
      rw [← hrange]
      exact List.mem_range.2 hlt
    have hsorted : (before ++ i :: after).Pairwise (· < ·) := by
      rw [← hrange]
      exact List.pairwise_lt_range
    rcases List.mem_append.1 hmem with hmem | hmem
    · rw [hnone digits hmem] at hfound
      cases hfound
    · have hafter := (List.pairwise_cons.1 (List.pairwise_append.1 hsorted).2.1).1
      rcases List.mem_cons.1 hmem with heq | hmem
      · omega
      · have := hafter digits hmem
        omega
  have hnonneg : 0 ≤ p.2 := by
    refine candidates_nonneg ?_ (List.mem_of_find?_eq_some hi)
    rw [hlog]
    push_cast
    omega
  obtain ⟨m, k⟩ := p
  obtain ⟨j, rfl⟩ := Int.eq_ofNat_of_zero_le hnonneg
  have hvalue : roundDouble ((m * 10 ^ j : ℕ) : ℚ) = n := by
    have htest : readsAs n (m, (j : ℤ)) = true := List.find?_some hi
    have hread := of_decide_eq_true htest
    rw [zpow_natCast] at hread
    push_cast
    exact hread
  exact ⟨m, j, hshortest, eq_of_roundDouble_natCast h hvalue⟩

/-- Written with an exponent: below the double next to `1e-6`, or `1e21` and more. -/
def Double.scientific (x : Double) : Bool := x.abs < roundDouble (1 / 1000000) || 1000000000000000000000 ≤ x.abs

/-- The literal `encoding/json` writes. -/
def Double.format (x : Double) : Number :=
  if h : x.abs = 0 then literal x.neg ['0'] [] none leading_zero digits_nil
  else decimal x.neg x.scientific (shortest x.abs).1 (shortest_ne_zero x.nonneg x.exact h) (shortest x.abs).2

/-- What is written is read again as the double. -/
@[simp] theorem Double.ofNumber_format (x : Double) : Double.ofNumber x.format = some x := by
  rw [Double.ofNumber_eq_some]
  unfold Double.format
  split
  · rename_i hzero
    rw [parts_literal, hzero]
    refine ⟨rfl, ?_⟩
    have habs : (⟨x.neg, ['0'], [], 0⟩ : Parts).abs = 0 := by
      simp [Parts.abs, digitsValue]
    rw [Option.getD_none, habs, roundDouble_zero]
  · rw [neg_decimal, abs_decimal]
    exact ⟨rfl, of_decide_eq_true (shortest_readsAs x.nonneg x.exact)⟩

/-- A double that is an integer below `2 ^ 53` is written as the integer. -/
theorem readInt_format {x : Double} {n : ℕ} (hx : x.abs = n) (h : n < 9007199254740992) :
    readInt x.format.text = some (if x.neg then -(n : ℤ) else (n : ℤ)) := by
  unfold Double.format
  split
  · rename_i hzero
    have hn : n = 0 := by
      rw [hx] at hzero
      exact_mod_cast hzero
    subst hn
    have hdigit : digitsValue ['0'] = 0 := rfl
    show readInt (literalText x.neg ['0'] [] none) = _
    rw [readInt_literalText x.neg leading_zero, hdigit]
  · rename_i hne
    have hpos : n ≠ 0 := by
      rintro rfl
      exact hne (by rw [hx, Nat.cast_zero])
    obtain ⟨m, j, hshortest, hvalue⟩ := shortest_natCast hpos h
    have hscientific : x.scientific = false := by
      have hone : (1 : ℚ) ≤ n := by exact_mod_cast Nat.one_le_iff_ne_zero.2 hpos
      have hround := roundDouble_le_zpow (q := 1 / 1000000) (k := 0) (by norm_num) le_rfl (by norm_num)
      have hsmall : ¬ (n : ℚ) < roundDouble (1 / 1000000) := by
        rw [not_lt]
        exact hround.trans (by rwa [zpow_zero])
      have hlarge : ¬ (1000000000000000000000 : ℚ) ≤ n := by
        rw [not_le]
        have hlt : (n : ℚ) < ((9007199254740992 : ℕ) : ℚ) := Nat.cast_lt.2 h
        exact hlt.trans (by norm_num)
      simp only [Double.scientific, hx, hsmall, hlarge, decide_false, Bool.or_self]
    have hm : m ≠ 0 := by
      rintro rfl
      exact hpos (by rw [← hvalue, Nat.zero_mul])
    rw [← hvalue, ← readInt_decimal x.neg hm j]
    simp only [hscientific, hx, hshortest]

def toDouble (n : Number) : Double := (Double.ofNumber n).getD Double.zero

/-- The literal that is written for a number after it has been read. -/
def reprint (n : Number) : Number := (toDouble n).format

/-- The number is not too large for a double. -/
def Finite (n : Number) : Prop := (Double.ofNumber n).isSome = true

instance (n : Number) : Decidable (Finite n) := inferInstanceAs (Decidable (_ = _))

end Json
