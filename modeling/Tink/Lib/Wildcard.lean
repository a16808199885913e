import Mathlib.Data.List.Infix

/-!
# Patterns with wildcards

A pattern is a list of tokens: any sequence, any one character, or a character up to an equivalence.  A text that
matches has at least as many characters as the pattern has tokens other than the first kind (`fixed_le_of_accepts`),
one for every character of the pattern among them (`exists_of_accepts`); and a pattern without characters that no text
may have is matched by its own characters (`accepts_fill`).
-/

namespace Wildcard

inductive Token (α : Type*) where
  | any
  | one
  | char (c : α)
deriving DecidableEq

variable {α : Type*} (same : α → α → Bool)

/-- The text matches the pattern. -/
def accepts : List (Token α) → List α → Bool
  | [], s => s.isEmpty
  | .any :: p, s => s.tails.any (accepts p)
  | .one :: p, s => match s with
    | [] => false
    | _ :: s => accepts p s
  | .char c :: p, s => match s with
    | [] => false
    | d :: s => same c d && accepts p s

/-- The number of characters that the tokens stand for at least. -/
def fixed : List (Token α) → Nat
  | [] => 0
  | .any :: p => fixed p
  | _ :: p => fixed p + 1

/-- The characters of a pattern, with `x` for any other one. -/
def fill (x : α) : List (Token α) → List α
  | [] => []
  | .any :: p => fill x p
  | .one :: p => x :: fill x p
  | .char c :: p => c :: fill x p

variable {same} {p : List (Token α)} {s : List α}

theorem fixed_le_of_accepts (h : accepts same p s = true) : fixed p ≤ s.length := by
  induction p generalizing s with
  | nil => exact Nat.zero_le _
  | cons t p ih =>
    cases t with
    | any =>
      obtain ⟨s', hs', hp⟩ := List.any_eq_true.1 h
      exact (ih hp).trans ((List.mem_tails s' s).1 hs').length_le
    | one =>
      cases s with
      | nil => cases h
      | cons d s => exact Nat.succ_le_succ (ih h)
    | char c =>
      cases s with
      | nil => cases h
      | cons d s => exact Nat.succ_le_succ (ih ((Bool.and_eq_true _ _).mp h).2)

theorem exists_of_accepts (h : accepts same p s = true) {c : α} (hc : .char c ∈ p) : ∃ d ∈ s, same c d = true := by
  induction p generalizing s with
  | nil => cases hc
  | cons t p ih =>
    cases t with
    | any =>
      obtain ⟨s', hs', hp⟩ := List.any_eq_true.1 h
      obtain ⟨d, hd, hsame⟩ := ih hp ((List.mem_cons.1 hc).resolve_left (by simp))
      exact ⟨d, ((List.mem_tails s' s).1 hs').subset hd, hsame⟩
    | one =>
      cases s with
      | nil => cases h
      | cons d s =>
        obtain ⟨e, he, hsame⟩ := ih h ((List.mem_cons.1 hc).resolve_left (by simp))
        exact ⟨e, List.mem_cons_of_mem d he, hsame⟩
    | char c' =>
      cases s with
      | nil => cases h
      | cons d s =>
        obtain ⟨hd, hp⟩ := (Bool.and_eq_true _ _).mp h
        rcases List.mem_cons.1 hc with heq | hc
        · cases heq
          exact ⟨d, List.mem_cons_self, hd⟩
        · obtain ⟨e, he, hsame⟩ := ih hp hc
          exact ⟨e, List.mem_cons_of_mem d he, hsame⟩

theorem accepts_fill (hrefl : ∀ c, same c c = true) (x : α) (p : List (Token α)) :
    accepts same p (fill x p) = true := by
  induction p with
  | nil => rfl
  | cons t p ih =>
    cases t with
    | any => exact List.any_eq_true.2 ⟨fill x p, (List.mem_tails _ _).2 (List.suffix_refl _), ih⟩
    | one => exact ih
    | char c => exact (Bool.and_eq_true _ _).mpr ⟨hrefl c, ih⟩

theorem length_fill (x : α) (p : List (Token α)) : (fill x p).length = fixed p := by
  induction p with
  | nil => rfl
  | cons t p ih =>
    cases t with
    | any => exact ih
    | one => exact congrArg Nat.succ ih
    | char c => exact congrArg Nat.succ ih

theorem mem_fill {x c : α} (h : c ∈ fill x p) : c = x ∨ .char c ∈ p := by
  induction p with
  | nil => cases h
  | cons t p ih =>
    cases t with
    | any => exact (ih h).imp id (List.mem_cons_of_mem _)
    | one =>
      rcases List.mem_cons.1 h with rfl | h
      · exact Or.inl rfl
      · exact (ih h).imp id (List.mem_cons_of_mem _)
    | char c' =>
      rcases List.mem_cons.1 h with rfl | h
      · exact Or.inr List.mem_cons_self
      · exact (ih h).imp id (List.mem_cons_of_mem _)

end Wildcard
