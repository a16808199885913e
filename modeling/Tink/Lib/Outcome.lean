import Mathlib.Data.List.Infix

/-!
# Calls that return, fail or panic

The outcome of a Go call: a value, a returned error, or a run-time panic (an index out of range, a nil pointer
dereferenced).  A panic is not an error: no caller in the path sees it.  `index` is the slice expression `xs[i]`.
-/

/-- The outcome of a call. -/
inductive Outcome (ε α : Type) where
  | ok (a : α)
  | error (e : ε)
  | panic
deriving DecidableEq, Repr

namespace Outcome

variable {ε α β : Type}

/-- Go on with the value; an error or a panic ends the call. -/
protected def bind (x : Outcome ε α) (f : α → Outcome ε β) : Outcome ε β :=
  match x with
  | ok a => f a
  | error e => error e
  | panic => panic

instance : Monad (Outcome ε) where
  pure := ok
  bind := Outcome.bind

/-- The slice expression `xs[i]`. -/
def index (xs : List α) (i : Int) : Outcome ε α :=
  if i < 0 then panic
  else match xs[i.toNat]? with
    | some a => ok a
    | none => panic

@[simp] theorem pure_def (a : α) : (pure a : Outcome ε α) = ok a := rfl

@[simp] theorem ok_bind (a : α) (f : α → Outcome ε β) : (ok a >>= f) = f a := rfl

@[simp] theorem error_bind (e : ε) (f : α → Outcome ε β) : ((error e : Outcome ε α) >>= f) = error e := rfl

@[simp] theorem panic_bind (f : α → Outcome ε β) : ((panic : Outcome ε α) >>= f) = panic := rfl

theorem bind_eq_ok {x : Outcome ε α} {f : α → Outcome ε β} {b : β} :
    (x >>= f) = ok b ↔ ∃ a, x = ok a ∧ f a = ok b := by
  cases x <;> simp

theorem bind_eq_panic {x : Outcome ε α} {f : α → Outcome ε β} :
    (x >>= f) = panic ↔ x = panic ∨ ∃ a, x = ok a ∧ f a = panic := by
  cases x <;> simp

theorem index_eq_ok {xs : List α} {i : Int} {a : α} :
    (index xs i : Outcome ε α) = ok a ↔ 0 ≤ i ∧ xs[i.toNat]? = some a := by
  unfold index
  split
  · simp; omega
  · cases h : xs[i.toNat]? with
    | none => simp
    | some b => simp; omega

theorem index_eq_panic {xs : List α} {i : Int} :
    (index xs i : Outcome ε α) = panic ↔ i < 0 ∨ (xs.length : Int) ≤ i := by
  unfold index
  split
  · simp_all
  · cases h : xs[i.toNat]? with
    | none =>
      rw [List.getElem?_eq_none_iff] at h
      simp; omega
    | some b =>
      obtain ⟨hi, -⟩ := List.getElem?_eq_some_iff.1 h
      simp; omega

/-- Reading an element and computing with it. -/
theorem index_bind_pure_eq_ok {xs : List α} {i : Int} {f : α → β} {b : β} :
    (index xs i >>= fun a => pure (f a) : Outcome ε β) = ok b ↔ 0 ≤ i ∧ ∃ a, xs[i.toNat]? = some a ∧ f a = b := by
  simp only [bind_eq_ok, index_eq_ok, pure_def, ok.injEq, and_assoc, exists_and_left]

end Outcome
