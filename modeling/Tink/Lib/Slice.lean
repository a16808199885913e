import Mathlib.Data.List.Basic
import Mathlib.Data.List.Infix
import Tink.Lib.Staged

/-!
# Slices of arrays

A heap of arrays, and slices as the language Go has them: a window of an array, with a length and a capacity.
Appending writes behind the window if there is room up to the capacity, and copies to a new array otherwise.  So two
appends to the same slice may write to the same cells.

What a slice reads is not changed by an append to another array (`Heap.read_append_of_ne`) or behind its own end
(`Heap.read_append_of_le`).  If several lists are appended to the same slice, each to the slice as it was, then each
result reads as it should exactly if, of any two lists that fit into the room, one is a prefix of the other
(`Heap.appendEach_iff`).
-/

namespace GoSlice

/-- Arrays by their addresses. -/
structure Heap (α : Type*) where
  arrays : List (List α) := []

/-- The cells `start, …, start + cap - 1` of an array, of which the first `len` are in use. -/
structure Slice where
  array : Nat
  start : Nat
  len : Nat
  cap : Nat
deriving DecidableEq

variable {α : Type*}

namespace Heap

variable (h : Heap α)

def array (a : Nat) : List α := h.arrays.getD a []

def read (s : Slice) : List α := ((h.array s.array).drop s.start).take s.len

/-- The slice is one of cells that there are. -/
structure Valid (s : Slice) : Prop where
  len_le : s.len ≤ s.cap
  cap_le : s.start + s.cap ≤ (h.array s.array).length

/-- The cells from position `i` on of the array at `a` are overwritten with `xs`. -/
def write (a i : Nat) (xs : List α) : Heap α :=
  ⟨h.arrays.modify a fun cells => cells.take i ++ (xs ++ cells.drop (i + xs.length))⟩

/-- A new array, at the first address that is not in use. -/
def alloc (cells : List α) : Heap α := ⟨h.arrays ++ [cells]⟩

/-- `append(s, xs...)`, where `growth` is the room that a new array of a given length gets. -/
def append [Inhabited α] (growth : Nat → Nat) (s : Slice) (xs : List α) : Heap α × Slice :=
  if s.len + xs.length ≤ s.cap then (h.write s.array (s.start + s.len) xs, { s with len := s.len + xs.length })
  else
    let cells := h.read s ++ xs
    (h.alloc (cells ++ List.replicate (growth cells.length) default),
      ⟨h.arrays.length, 0, cells.length, cells.length + growth cells.length⟩)

variable {h} {s t : Slice} {a i : Nat} {xs : List α}

/-! ### Reading after writing -/

theorem Valid.length_read (hs : h.Valid s) : (h.read s).length = s.len := by
  have h1 := hs.len_le
  have h2 := hs.cap_le
  rw [read, List.length_take, List.length_drop]
  omega

theorem getElem?_read (k : Nat) : (h.read s)[k]? = if k < s.len then (h.array s.array)[s.start + k]? else none := by
  rw [read, List.getElem?_take]
  split
  · rw [List.getElem?_drop]
  · rfl

theorem array_write_of_ne {b : Nat} (hne : b ≠ a) : (h.write a i xs).array b = h.array b := by
  simp [array, write, hne.symm]

theorem array_write_self (hroom : i + xs.length ≤ (h.array a).length) :
    (h.write a i xs).array a = (h.array a).take i ++ (xs ++ (h.array a).drop (i + xs.length)) := by
  by_cases ha : a < h.arrays.length
  · simp [array, write, ha]
  · -- there is no such array, so nothing is written
    have hnil : h.array a = [] := by simp [array, Nat.not_lt.1 ha]
    rw [hnil, List.length_nil] at hroom
    have hxs : xs = [] := List.length_eq_zero_iff.1 (by omega)
    simp [array, write, hxs, Nat.not_lt.1 ha]

/-- The cells after a write. -/
theorem getElem?_array_write (hroom : i + xs.length ≤ (h.array a).length) (k : Nat) :
    ((h.write a i xs).array a)[k]? = if i ≤ k ∧ k < i + xs.length then xs[k - i]? else (h.array a)[k]? := by
  rw [array_write_self hroom]
  by_cases h1 : k < i
  · rw [List.getElem?_append_left (by rw [List.length_take]; omega), List.getElem?_take_of_lt h1, if_neg (by omega)]
  · rw [List.getElem?_append_right (by rw [List.length_take]; omega), List.length_take, Nat.min_eq_left (by omega)]
    by_cases h2 : k < i + xs.length
    · rw [List.getElem?_append_left (by omega), if_pos (by omega)]
    · rw [List.getElem?_append_right (by omega), List.getElem?_drop, if_neg (by omega)]
      congr 1
      omega

theorem length_array_write (hroom : i + xs.length ≤ (h.array a).length) (b : Nat) :
    ((h.write a i xs).array b).length = (h.array b).length := by
  by_cases hb : b = a
  · subst hb
    rw [array_write_self hroom, List.length_append, List.length_append, List.length_take, List.length_drop]
    omega
  · rw [array_write_of_ne hb]

theorem read_write_of_ne (hne : s.array ≠ a) : (h.write a i xs).read s = h.read s := by
  rw [read, read, array_write_of_ne hne]

/-- A write behind the end of a slice. -/
theorem read_write_of_le (hroom : i + xs.length ≤ (h.array s.array).length) (hle : s.start + s.len ≤ i) :
    (h.write s.array i xs).read s = h.read s := by
  refine List.ext_getElem? fun k => ?_
  rw [getElem?_read, getElem?_read]
  split
  · rw [getElem?_array_write hroom, if_neg (by omega)]
  · rfl

theorem array_alloc_of_lt {cells : List α} (ha : a < h.arrays.length) : (h.alloc cells).array a = h.array a := by
  simp [array, alloc, List.getElem?_append_left ha]

theorem array_alloc_self (cells : List α) : (h.alloc cells).array h.arrays.length = cells := by
  simp [array, alloc]

theorem read_alloc {cells : List α} (hs : h.Valid s) : (h.alloc cells).read s = h.read s := by
  by_cases ha : s.array < h.arrays.length
  · rw [read, read, array_alloc_of_lt ha]
  · -- a slice of no array is empty
    have hnil : h.array s.array = [] := by simp [array, Nat.not_lt.1 ha]
    have h1 := hs.len_le
    have h2 := hs.cap_le
    rw [hnil, List.length_nil] at h2
    have hlen : s.len = 0 := by omega
    rw [read, read, hlen, List.take_zero, List.take_zero]

theorem Valid.alloc {cells : List α} (hs : h.Valid s) : (h.alloc cells).Valid s := by
  refine ⟨hs.len_le, ?_⟩
  by_cases ha : s.array < h.arrays.length
  · rw [array_alloc_of_lt ha]; exact hs.cap_le
  · have hnil : h.array s.array = [] := by simp [array, Nat.not_lt.1 ha]
    have h2 := hs.cap_le
    rw [hnil, List.length_nil] at h2
    omega

/-! ### Appending -/

theorem Valid.room (hs : h.Valid s) (hfit : s.len + xs.length ≤ s.cap) :
    s.start + s.len + xs.length ≤ (h.array s.array).length := by
  have := hs.cap_le
  omega

/-- There is such an array, or the slice has no cells. -/
theorem Valid.lt_or_full (hs : h.Valid s) : s.array < h.arrays.length ∨ s.cap = s.len := by
  by_cases ha : s.array < h.arrays.length
  · left; exact ha
  · right
    have hnil : h.array s.array = [] := by simp [array, Nat.not_lt.1 ha]
    have h1 := hs.len_le
    have h2 := hs.cap_le
    rw [hnil, List.length_nil] at h2
    omega

/-- What `t` reads is not touched by appends to `s`: it is of another array, it is `s` itself, or there is no room
behind `s`. -/
def Apart (s t : Slice) : Prop := t.array ≠ s.array ∨ t = s ∨ s.cap = s.len

/-- One of the lists is a prefix of the other. -/
def Comparable (xs ys : List α) : Prop := xs <+: ys ∨ ys <+: xs

/-- Of any two lists that fit into the room behind the slice, one is a prefix of the other. -/
def Compatible (s : Slice) (xss : List (List α)) : Prop :=
  xss.Pairwise fun xs ys => s.len + xs.length ≤ s.cap → s.len + ys.length ≤ s.cap → Comparable xs ys

theorem Comparable.getElem? {xs ys : List α} (hc : Comparable xs ys) {k : Nat} (hx : k < xs.length)
    (hy : k < ys.length) :
    xs[k]? = ys[k]? := by
  rcases hc with hp | hp
  · rw [List.prefix_iff_getElem?.1 hp k hx, List.getElem?_eq_getElem hx]
  · rw [List.prefix_iff_getElem?.1 hp k hy, List.getElem?_eq_getElem hy]

/-- Two windows of one array that begin at the same cell. -/
private theorem comparable_of_reads {xs ys : List α} {base : List α}
    (hx : h.read { s with len := s.len + xs.length } = base ++ xs)
    (hy : h.read { s with len := s.len + ys.length } = base ++ ys) : Comparable xs ys := by
  rcases Nat.le_total xs.length ys.length with hle | hle
  · left
    rw [← List.prefix_append_right_inj base, ← hx, ← hy]
    exact List.take_prefix_take_left (Nat.add_le_add_left hle s.len)
  · right
    rw [← List.prefix_append_right_inj base, ← hx, ← hy]
    exact List.take_prefix_take_left (Nat.add_le_add_left hle s.len)

section

variable [Inhabited α] {g : Nat → Nat}

theorem append_of_fits (hfit : s.len + xs.length ≤ s.cap) :
    h.append g s xs = (h.write s.array (s.start + s.len) xs, { s with len := s.len + xs.length }) :=
  if_pos hfit

theorem append_of_not_fits (hfit : ¬ s.len + xs.length ≤ s.cap) :
    h.append g s xs =
      (h.alloc (h.read s ++ xs ++ List.replicate (g (h.read s ++ xs).length) default),
        ⟨h.arrays.length, 0, (h.read s ++ xs).length, (h.read s ++ xs).length + g (h.read s ++ xs).length⟩) :=
  if_neg hfit

/-- The result of an append reads as the slice with the elements behind it. -/
theorem read_append (hs : h.Valid s) (xs : List α) :
    (h.append g s xs).1.read (h.append g s xs).2 = h.read s ++ xs := by
  by_cases hfit : s.len + xs.length ≤ s.cap
  · rw [append_of_fits hfit]
    refine List.ext_getElem? fun k => ?_
    rw [getElem?_read]
    show (if k < s.len + xs.length then ((h.write s.array (s.start + s.len) xs).array s.array)[s.start + k]?
      else none) = _
    rw [getElem?_array_write (hs.room hfit)]
    by_cases hk : k < s.len
    · rw [List.getElem?_append_left (by rw [hs.length_read]; exact hk), getElem?_read, if_pos hk, if_pos (by omega),
        if_neg (by omega)]
    · rw [List.getElem?_append_right (by rw [hs.length_read]; omega), hs.length_read]
      by_cases hk' : k < s.len + xs.length
      · rw [if_pos hk', if_pos (by omega)]
        congr 1
        omega
      · rw [if_neg hk', List.getElem?_eq_none (by omega)]
  · rw [append_of_not_fits hfit]
    simp only [read, array_alloc_self, List.drop_zero]
    rw [List.take_left']
    rfl

/-- An append does not change what other slices read, nor the slice itself. -/
theorem read_append_of_apart (hs : h.Valid s) (ht : h.Valid t) (hap : Apart s t) (xs : List α) :
    (h.append g s xs).1.read t = h.read t := by
  by_cases hfit : s.len + xs.length ≤ s.cap
  · rw [append_of_fits hfit]
    rcases hap with hne | rfl | hfull
    · exact read_write_of_ne hne
    · exact read_write_of_le (hs.room hfit) le_rfl
    · -- nothing fits but the empty list
      have hxs : xs = [] := List.length_eq_zero_iff.1 (by omega)
      subst hxs
      by_cases hne : t.array = s.array
      · rw [read, read, hne, array_write_self (hs.room hfit)]
        simp
      · exact read_write_of_ne hne
  · rw [append_of_not_fits hfit]; exact read_alloc ht

theorem Valid.append (ht : h.Valid t) (hs : h.Valid s) (xs : List α) : (h.append g s xs).1.Valid t := by
  by_cases hfit : s.len + xs.length ≤ s.cap
  · rw [append_of_fits hfit]
    exact ⟨ht.len_le, by rw [length_array_write (hs.room hfit)]; exact ht.cap_le⟩
  · rw [append_of_not_fits hfit]; exact ht.alloc

theorem valid_append (hs : h.Valid s) (xs : List α) : (h.append g s xs).1.Valid (h.append g s xs).2 := by
  by_cases hfit : s.len + xs.length ≤ s.cap
  · rw [append_of_fits hfit]
    exact ⟨hfit, by rw [length_array_write (hs.room hfit)]; exact hs.cap_le⟩
  · rw [append_of_not_fits hfit]
    refine ⟨Nat.le_add_right _ _, ?_⟩
    simp only [array_alloc_self, List.length_append, List.length_replicate, Nat.zero_add, le_refl]

/-- The result is a slice of the same array, or of one that is new. -/
theorem array_append (s : Slice) (xs : List α) :
    (h.append g s xs).2.array = s.array ∨ (h.append g s xs).2.array = h.arrays.length := by
  by_cases hfit : s.len + xs.length ≤ s.cap
  · rw [append_of_fits hfit]; left; rfl
  · rw [append_of_not_fits hfit]; right; rfl

theorem length_arrays_append (s : Slice) (xs : List α) : h.arrays.length ≤ (h.append g s xs).1.arrays.length := by
  by_cases hfit : s.len + xs.length ≤ s.cap
  · rw [append_of_fits hfit]; simp [write]
  · rw [append_of_not_fits hfit]; simp [alloc]

/-! ### Several appends to one slice -/

/-- Each of the lists is appended to the same slice. -/
def appendEach (growth : Nat → Nat) (s : Slice) : Heap α → List (List α) → Heap α × List Slice
  | h, [] => (h, [])
  | h, xs :: xss =>
    let (h₁, t) := h.append growth s xs
    let (h₂, ts) := appendEach growth s h₁ xss
    (h₂, t :: ts)

variable {xss : List (List α)}

theorem appendEach_cons (xs : List α) (xss : List (List α)) :
    appendEach g s h (xs :: xss) =
      ((appendEach g s (h.append g s xs).1 xss).1,
        (h.append g s xs).2 :: (appendEach g s (h.append g s xs).1 xss).2) := rfl

theorem appendEach_frame (hs : h.Valid s) (ht : h.Valid t) (hap : Apart s t) :
    (appendEach g s h xss).1.read t = h.read t ∧ (appendEach g s h xss).1.Valid t := by
  induction xss generalizing h with
  | nil => exact ⟨rfl, ht⟩
  | cons xs xss ih =>
    obtain ⟨hread, hvalid⟩ := ih (hs.append hs xs) (ht.append hs xs)
    exact ⟨hread.trans (read_append_of_apart hs ht hap xs), hvalid⟩

theorem Valid.appendEach (ht : h.Valid t) (hs : h.Valid s) : (appendEach g s h xss).1.Valid t := by
  induction xss generalizing h with
  | nil => exact ht
  | cons xs xss ih => exact ih (ht.append hs xs) (hs.append hs xs)

/-- The results are slices of the same array, or of new ones. -/
theorem appendEach_results (hs : h.Valid s) :
    ∀ t ∈ (Heap.appendEach g s h xss).2,
      (Heap.appendEach g s h xss).1.Valid t ∧ (t.array = s.array ∨ h.arrays.length ≤ t.array) := by
  induction xss generalizing h with
  | nil => intro t ht; cases ht
  | cons xs xss ih =>
    intro t ht
    rw [appendEach_cons] at ht
    rcases List.mem_cons.1 ht with rfl | ht
    · refine ⟨(valid_append hs xs).appendEach (hs.append hs xs), ?_⟩
      exact (array_append s xs).imp_right fun h => h.ge
    · obtain ⟨hvalid, harray⟩ := ih (hs.append (g := g) hs xs) t ht
      exact ⟨hvalid, harray.imp_right fun h => (length_arrays_append s xs).trans h⟩

/-- The results of the appends that fit are windows of the same array. -/
theorem appendEach_of_fits (xss : List (List α)) :
    List.Forall₂ (fun t xs => s.len + xs.length ≤ s.cap → t = { s with len := s.len + xs.length })
      (appendEach g s h xss).2 xss := by
  induction xss generalizing h with
  | nil => exact .nil
  | cons xs xss ih =>
    rw [appendEach_cons]
    exact .cons (fun hfit => by rw [append_of_fits hfit]) ih

/-- A list that was appended in place is not damaged by one that is comparable with it. -/
private theorem read_append_of_comparable (hs : h.Valid s) {xs ys : List α} (hfit : s.len + xs.length ≤ s.cap)
    (hread : h.read { s with len := s.len + xs.length } = h.read s ++ xs)
    (hc : s.len + ys.length ≤ s.cap → Comparable xs ys) :
    (h.append g s ys).1.read { s with len := s.len + xs.length } = h.read s ++ xs := by
  have ht : h.Valid { s with len := s.len + xs.length } := ⟨hfit, hs.cap_le⟩
  by_cases hfit' : s.len + ys.length ≤ s.cap
  · rw [append_of_fits hfit', ← hread]
    refine List.ext_getElem? fun k => ?_
    rw [getElem?_read, getElem?_read]
    show (if k < s.len + xs.length then ((h.write s.array (s.start + s.len) ys).array s.array)[s.start + k]?
      else none) =
      if k < s.len + xs.length then (h.array s.array)[s.start + k]? else none
    split
    · rename_i hk
      rw [getElem?_array_write (hs.room hfit')]
      split
      · -- a cell that both lists have
        have hold : (h.array s.array)[s.start + k]? = xs[k - s.len]? := by
          have := congrArg (·[k]?) hread
          simp only [getElem?_read, if_pos hk] at this
          rw [this, List.getElem?_append_right (by rw [hs.length_read]; omega), hs.length_read]
        rw [hold, (hc hfit').getElem? (by omega) (by omega)]
        congr 1
        omega
      · rfl
    · rfl
  · rw [append_of_not_fits hfit', read_alloc ht, hread]

private theorem appendEach_keeps (hs : h.Valid s) {xs : List α} (hfit : s.len + xs.length ≤ s.cap)
    (hread : h.read { s with len := s.len + xs.length } = h.read s ++ xs)
    (hc : ∀ ys ∈ xss, s.len + ys.length ≤ s.cap → Comparable xs ys) :
    (appendEach g s h xss).1.read { s with len := s.len + xs.length } = h.read s ++ xs := by
  induction xss generalizing h with
  | nil => exact hread
  | cons ys xss ih =>
    have hself := read_append_of_apart (g := g) hs hs (Or.inr (Or.inl rfl)) ys
    have hnext := read_append_of_comparable (g := g) hs hfit hread (hc ys (by simp))
    rw [← hself] at hnext ⊢
    exact ih (hs.append hs ys) hnext fun zs hzs => hc zs (by simp [hzs])

/-- Each result reads as the slice with its list behind it, exactly if the lists that fit are compatible. -/
theorem appendEach_iff (hs : h.Valid s) (xss : List (List α)) :
    List.Forall₂ (fun t xs => (appendEach g s h xss).1.read t = h.read s ++ xs) (appendEach g s h xss).2 xss ↔
      Compatible s xss := by
  induction xss generalizing h with
  | nil => exact iff_of_true .nil .nil
  | cons xs xss ih =>
    have hself := read_append_of_apart (g := g) hs hs (Or.inr (Or.inl rfl)) xs
    have ih := ih (hs.append (g := g) hs xs)
    rw [hself] at ih
    rw [appendEach_cons, List.forall₂_cons, ih, Compatible, Compatible, List.pairwise_cons]
    refine and_congr_left fun hpair => ?_
    by_cases hfit : s.len + xs.length ≤ s.cap
    · have ht : (h.append g s xs).2 = { s with len := s.len + xs.length } := by rw [append_of_fits hfit]
      have hread := read_append (g := g) hs xs
      rw [ht] at hread ⊢
      constructor
      · intro hx ys hys _ hfit'
        -- both lists are read from the array as it is in the end
        have htail : List.Forall₂ (fun _ ys => s.len + ys.length ≤ s.cap →
            (appendEach g s (h.append g s xs).1 xss).1.read { s with len := s.len + ys.length } = h.read s ++ ys)
            (appendEach g s (h.append g s xs).1 xss).2 xss := by
          refine List.Forall₂.mp (fun t ys hin ht hfit' => ?_) (appendEach_of_fits xss) (ih.2 hpair)
          rw [← hin hfit']; exact ht
        obtain ⟨-, -, hy⟩ := htail.exists_of_mem_right hys
        exact comparable_of_reads hx (hy hfit')
      · intro hc
        rw [← hself] at hread ⊢
        exact appendEach_keeps (hs.append hs xs) hfit hread fun ys hys => hc ys hys hfit
    · refine iff_of_true ?_ fun ys _ hfit' => absurd hfit' hfit
      have hap : Apart s (h.append g s xs).2 := by
        rcases hs.lt_or_full with hlt | hfull
        · left
          rw [append_of_not_fits hfit]
          exact hlt.ne'
        · right; right; exact hfull
      rw [(appendEach_frame (hs.append hs xs) (valid_append hs xs) hap).1, read_append hs xs]

end

end Heap

end GoSlice
