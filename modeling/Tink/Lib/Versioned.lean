import Mathlib.Data.List.Basic

/-!
# An object with versions

A store that keeps one object and numbers its versions, as an API server does: a write that changes nothing does not
make a new version, an update that names the version it was computed from is rejected if that version is no longer the
current one, and a read may return any version up to the current one.

Versions are never rewritten (`get?_put`), and an update that is not rejected was computed from the current value
(`eq_current_of_update`).
-/

/-- The versions of an object: the earlier ones, oldest first, and the current one. -/
structure Versioned (α : Type*) where
  past : List α
  current : α

namespace Versioned

variable {α : Type*} (s : Versioned α)

/-- The number of the current version. -/
def version : Nat := s.past.length

/-- All versions, oldest first. -/
def versions : List α := s.past ++ [s.current]

/-- The version with the given number. -/
def get? (v : Nat) : Option α := s.versions[v]?

section

variable [DecidableEq α]

/-- A write of the value `x`. -/
def put (x : α) : Versioned α := if x = s.current then s else ⟨s.versions, x⟩

/-- A write of `x`, computed from version `v`. -/
def update (v : Nat) (x : α) : Option (Versioned α) := if v = s.version then some (s.put x) else none

end

variable {s} {v : Nat} {x y : α}

theorem current_mem : s.current ∈ s.versions := by simp [versions]

theorem mem_of_get? (h : s.get? v = some x) : x ∈ s.versions := List.mem_of_getElem? h

@[simp] theorem get?_version : s.get? s.version = some s.current := by simp [get?, version, versions]

variable [DecidableEq α]

@[simp] theorem current_put : (s.put x).current = x := by
  unfold put
  split
  · rename_i h; exact h.symm
  · rfl

theorem mem_put : y ∈ (s.put x).versions ↔ y ∈ s.versions ∨ y = x := by
  unfold put
  split
  · rename_i h
    constructor
    · intro hy; exact Or.inl hy
    · rintro (hy | rfl)
      · exact hy
      · rw [h]; exact current_mem
  · rw [show (⟨s.versions, x⟩ : Versioned α).versions = s.versions ++ [x] from rfl, List.mem_append,
      List.mem_singleton]

/-- A write does not change the versions there are. -/
theorem get?_put (h : s.get? v = some y) : (s.put x).get? v = some y := by
  unfold put
  split
  · exact h
  · show (s.versions ++ [x])[v]? = some y
    have hv : v < s.versions.length := (List.getElem?_eq_some_iff.1 h).1
    rw [List.getElem?_append_left hv]; exact h

/-- An update that is not rejected was computed from the current value. -/
theorem eq_current_of_update {t : Versioned α} (hy : s.get? v = some y) (h : s.update v x = some t) :
    y = s.current ∧ t = s.put x := by
  unfold update at h
  split at h
  · rename_i hv
    rw [hv, get?_version] at hy
    exact ⟨(Option.some.inj hy).symm, (Option.some.inj h).symm⟩
  · cases h

end Versioned
