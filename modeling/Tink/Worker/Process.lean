import Mathlib.Logic.Function.Basic
import Tink.Worker.Job

/-!
# Processes of workers

What a process of a worker has at hand between two steps, whichever server it talks to, and the processes there are,
at most one for each worker id.  A process is started if its worker has none, and what happens to it may end it; so
whoever has a process afterwards has had it before, or it is what was started or made of the one before (`of_start`,
`of_onProcess`).
-/

namespace Tink.Worker

/-- A process of a worker: the contexts sent and not taken, and the job at hand. -/
structure Process where
  retries : Nat
  sent : List WorkflowContext := []
  current : Option Job := none

/-- The stream breaks, and only the next `k` contexts get through. -/
def Process.cut (k : Nat) (p : Process) : Process := { p with sent := p.sent.take k }

/-- The process after a step of its job; an exit or a panic ends it. -/
def Process.resume (p : Process) : Outcome Empty Progress → Option Process
  | .ok (.job j) => some { p with current := some j }
  | .ok .next => some { p with current := none }
  | .ok .exit => none
  | .error e => e.elim
  | .panic => none

/-- The processes there are, by worker id. -/
abbrev Processes (P : Type) := String → Option P

namespace Processes

variable {P : Type} {live : Processes P} {v w : String} {p q : P} {f : P → Option P}

/-- A process starts, if there is none of this worker. -/
def start (live : Processes P) (w : String) (p : P) : Processes P :=
  match live w with
  | none => Function.update live w (some p)
  | some _ => live

/-- Something happens to the process of a worker, if there is one. -/
def onProcess (live : Processes P) (w : String) (f : P → Option P) : Processes P :=
  match live w with
  | none => live
  | some p => Function.update live w (f p)

theorem start_of_none (h : live w = none) (p : P) : live.start w p = Function.update live w (some p) := by
  simp only [start, h]

theorem onProcess_of_none (h : live w = none) (f : P → Option P) : live.onProcess w f = live := by
  simp only [onProcess, h]

theorem onProcess_of_some (h : live w = some p) (f : P → Option P) :
    live.onProcess w f = Function.update live w (f p) := by
  simp only [onProcess, h]

private theorem of_update {o : Option P} (h : Function.update live w o v = some q) :
    live v = some q ∨ v = w ∧ o = some q := by
  by_cases hv : v = w
  · rw [hv, Function.update_self] at h
    exact .inr ⟨hv, h⟩
  · rw [Function.update_of_ne hv] at h
    exact .inl h

theorem of_start (h : live.start w p v = some q) : live v = some q ∨ v = w ∧ q = p := by
  cases hlive : live w with
  | none =>
    rw [start_of_none hlive] at h
    exact (of_update h).imp_right fun ⟨hv, hq⟩ => ⟨hv, (Option.some.inj hq).symm⟩
  | some p' =>
    simp only [start, hlive] at h
    exact .inl h

theorem of_onProcess (h : live.onProcess w f v = some q) :
    live v = some q ∨ v = w ∧ ∃ p, live w = some p ∧ f p = some q := by
  cases hlive : live w with
  | none =>
    rw [onProcess_of_none hlive] at h
    exact .inl h
  | some p =>
    rw [onProcess_of_some hlive] at h
    exact (of_update h).imp_right fun ⟨hv, hq⟩ => ⟨hv, p, rfl, hq⟩

end Processes

end Tink.Worker
