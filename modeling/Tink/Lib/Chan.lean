import Tink.Lib.Outcome

/-!
# Channels

A Go channel with a buffer: the values that were sent and not yet received, and whether it is closed.  Closing it
twice and sending to it after it was closed panic; receiving from it never does, and once it is closed and empty every
receive returns at once with no value.
-/

/-- A buffered channel. -/
structure Chan (α : Type) where
  buffer : List α := []
  closed : Bool := false
deriving DecidableEq

namespace Chan

variable {α : Type}

/-- `close(c)`. -/
def close (c : Chan α) : Outcome Empty (Chan α) := if c.closed then .panic else .ok { c with closed := true }

/-- `select { case c <- a: default: }` for a channel made with capacity `cap`: the value is dropped if there is no
room. -/
def trySend (cap : Nat) (a : α) (c : Chan α) : Outcome Empty (Chan α) :=
  if c.closed then .panic
  else if c.buffer.length < cap then .ok { c with buffer := c.buffer ++ [a] }
  else .ok c

/-- `a, ok := <-c`, with `none` while the receive blocks; `ok` is whether there is a value. -/
def receive? (c : Chan α) : Option (Option α × Chan α) :=
  match c.buffer with
  | a :: rest => some (some a, { c with buffer := rest })
  | [] => if c.closed then some (none, c) else none

variable {c c' : Chan α}

theorem close_eq_panic : c.close = .panic ↔ c.closed = true := by
  unfold close
  cases h : c.closed <;> simp

theorem trySend_eq_panic {cap : Nat} {a : α} : c.trySend cap a = .panic ↔ c.closed = true := by
  unfold trySend
  cases h : c.closed
  · simp only [Bool.false_eq_true, if_false, iff_false]
    split <;> simp
  · simp

theorem closed_of_trySend {cap : Nat} {a : α} (h : c.trySend cap a = .ok c') : c'.closed = c.closed := by
  unfold trySend at h
  split at h
  · cases h
  · split at h <;> cases h <;> rfl

/-- A receive leaves the channel as open or closed as it is, and one without a value comes from a closed channel. -/
theorem closed_of_receive {o : Option α} (h : c.receive? = some (o, c')) :
    c'.closed = c.closed ∧ (o = none → c.closed = true) := by
  unfold receive? at h
  split at h
  · cases h
    exact ⟨rfl, nofun⟩
  · split at h
    · rename_i hclosed
      cases h
      exact ⟨rfl, fun _ => hclosed⟩
    · cases h

end Chan
