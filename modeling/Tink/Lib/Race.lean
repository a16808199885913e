import Mathlib.Data.List.Count
import Mathlib.Logic.Function.Basic
import Tink.Lib.Run

/-!
# Two clients of one value

Each of two clients reads a shared value, takes a step of its own, and stores what it makes of the value it has read
(or nothing, if it makes nothing of it).  A schedule says whose step is next.

`inv_run` says where a schedule leads (`Inv.after`: once both have stored), by two things that can be read off the
schedule: who stores first, and whether at some moment both have read and neither has stored.  If not, the clients
have run one after the other; if so, both have read the value of the beginning, and the second has written over the
first.
-/

namespace Race

open Machine

/-- One of the two clients. -/
inductive Who where
  | first
  | second
deriving DecidableEq

def Who.other : Who → Who
  | first => second
  | second => first

@[simp] theorem Who.other_other (w : Who) : w.other.other = w := by cases w <;> rfl

theorem Who.other_ne (w : Who) : w.other ≠ w := by cases w <;> simp [other]

theorem Who.eq_or_eq_other (w u : Who) : u = w ∨ u = w.other := by cases w <;> cases u <;> simp [other]

theorem Who.forall_iff (w : Who) {P : Who → Prop} : (∀ u, P u) ↔ P w ∧ P w.other := by
  constructor
  · intro h
    exact ⟨h w, h w.other⟩
  · rintro ⟨h, h'⟩ u
    rcases w.eq_or_eq_other u with rfl | rfl
    · exact h
    · exact h'

/-- How far a client is, with the value it has read. -/
inductive Stage (R : Type*) where
  | fresh
  | viewed (v : R)
  | decided (v : R)
  | stored (v : R)

structure Sys (R : Type*) where
  value : R
  stage : Who → Stage R

variable {R : Type*} (f : Who → R → Option R)

/-- The step of client `w`. -/
def step (s : Sys R) (w : Who) : Sys R :=
  match s.stage w with
  | .fresh => { s with stage := Function.update s.stage w (.viewed s.value) }
  | .viewed v => { s with stage := Function.update s.stage w (.decided v) }
  | .decided v => { value := (f w v).getD s.value, stage := Function.update s.stage w (.stored v) }
  | .stored _ => s

def init (x : R) : Sys R where
  value := x
  stage _ := .fresh

/-- The value after client `w` has run alone. -/
def alone (w : Who) (x : R) : R := (f w x).getD x

/-- At some moment both clients have read and neither has stored. -/
def Overlap (is : List Who) : Prop := ∃ q, q <+: is ∧ ∀ w, 1 ≤ q.count w ∧ q.count w ≤ 2

/-- At some moment client `w` has stored and the other has not. -/
def First (w : Who) (is : List Who) : Prop := ∃ q, q <+: is ∧ 3 ≤ q.count w ∧ q.count w.other ≤ 2

theorem First.not_other {w : Who} {is : List Who} (h : First w is) : ¬ First w.other is := by
  rintro ⟨q', hq', h3', h2'⟩
  obtain ⟨q, hq, h3, h2⟩ := h
  rw [Who.other_other] at h2'
  rcases List.prefix_or_prefix_of_prefix hq hq' with hle | hle
  · have := hle.sublist.count_le w
    omega
  · have := hle.sublist.count_le w.other
    omega

theorem overlap_concat {w : Who} {is : List Who} :
    Overlap (is ++ [w]) ↔ Overlap is ∨ ∀ u, 1 ≤ (is ++ [w]).count u ∧ (is ++ [w]).count u ≤ 2 := by
  constructor
  · rintro ⟨q, hq, h⟩
    rcases List.prefix_concat_iff.1 hq with rfl | hq
    · right; exact h
    · left; exact ⟨q, hq, h⟩
  · rintro (⟨q, hq, h⟩ | h)
    · exact ⟨q, hq.trans (List.prefix_append is [w]), h⟩
    · exact ⟨_, List.prefix_refl _, h⟩

theorem First.concat {w u : Who} {is : List Who} (h : First w is) : First w (is ++ [u]) := by
  obtain ⟨q, hq, h⟩ := h
  exact ⟨q, hq.trans (List.prefix_append is [u]), h⟩

/-! ### The run -/

/-- The stage of a client after `n` steps. -/
def stageAt (n : Nat) (v : R) : Stage R :=
  match n with
  | 0 => .fresh
  | 1 => .viewed v
  | 2 => .decided v
  | _ => .stored v

theorem lt_three_of_not_stored {n : Nat} {v : R} (h : ∀ u, stageAt n v ≠ .stored u) : n < 3 := by
  by_contra hge
  obtain ⟨m, rfl⟩ : ∃ m, n = m + 3 := ⟨n - 3, by omega⟩
  exact h v rfl

/-- What the client that stores after `w` has read: the value of the beginning `x`, if the two overlap, and what `w`
has made of it, if they do not. -/
def Seen (w : Who) (x : R) (is : List Who) (v : R) : Prop :=
  (Overlap is → v = x) ∧ (¬ Overlap is → v = alone f w x)

/-- What holds after the steps `is`, begun with the value `x`, where `view` says what the clients have read. -/
structure Inv (x : R) (is : List Who) (view : Who → R) (s : Sys R) : Prop where
  stage : ∀ w, s.stage w = stageAt (is.count w) (view w)
  before : (∀ w, is.count w ≤ 2) → s.value = x ∧ ∀ w, 1 ≤ is.count w → view w = x
  between : ∀ w, 3 ≤ is.count w → is.count w.other ≤ 2 → view w = x ∧ s.value = alone f w x ∧
    (1 ≤ is.count w.other → Seen f w x is (view w.other))
  after : (∀ w, 3 ≤ is.count w) → ∃ w, First w is ∧ view w = x ∧
    Seen f w x is (view w.other) ∧ s.value = (f w.other (view w.other)).getD (alone f w x)

section

variable {f} {x : R} {is : List Who} {view : Who → R} {s : Sys R} {w : Who}

private theorem count_self (is : List Who) (w : Who) : (is ++ [w]).count w = is.count w + 1 := by
  rw [List.count_append, List.count_singleton_self]

private theorem count_other (is : List Who) (w : Who) : (is ++ [w]).count w.other = is.count w.other := by
  rw [List.count_append, List.count_singleton, if_neg (by simpa using (Who.other_ne w).symm), Nat.add_zero]

private theorem overlap_concat_of_lt {u : Who} (h : 2 < (is ++ [w]).count u) : Overlap (is ++ [w]) ↔ Overlap is := by
  rw [overlap_concat]
  constructor
  · rintro (ho | ho)
    · exact ho
    · have := (ho u).2
      omega
  · exact Or.inl

private theorem not_overlap_of_zero {u : Who} (h : is.count u = 0) : ¬ Overlap is := by
  rintro ⟨q, hq, hcount⟩
  have h1 := (hcount u).1
  have h2 := hq.sublist.count_le u
  omega

private theorem Seen.concat {u v : Who} {y : R} (h : Seen f u x is y) (hlt : 2 < (is ++ [w]).count v) :
    Seen f u x (is ++ [w]) y := by
  unfold Seen
  rw [overlap_concat_of_lt hlt]
  exact h

private theorem stage_update {st : Stage R} {view' : Who → R} (h : ∀ u, s.stage u = stageAt (is.count u) (view u))
    (hw : st = stageAt (is.count w + 1) (view' w)) (ho : view' w.other = view w.other) :
    ∀ u, Function.update s.stage w st u = stageAt ((is ++ [w]).count u) (view' u) := by
  rw [Who.forall_iff w, count_self, count_other, Function.update_self, Function.update_of_ne (Who.other_ne w), ho]
  exact ⟨hw, h w.other⟩

/-- The first step of a client: it reads the value. -/
private theorem Inv.read (h : Inv f x is view s) (hn : is.count w = 0) :
    Inv f x (is ++ [w]) (Function.update view w s.value) (step f s w) := by
  have hself := count_self is w
  have hother := count_other is w
  have hne := Who.other_ne w
  have hstep : step f s w = { s with stage := Function.update s.stage w (.viewed s.value) } := by
    rw [step, h.stage w, hn]; rfl
  rw [hstep]
  refine ⟨?_, ?_, ?_, ?_⟩
  · refine stage_update h.stage ?_ (Function.update_of_ne hne _ _)
    rw [hn, Function.update_self]; rfl
  · intro hle
    obtain ⟨hvalue, hview⟩ := h.before ((Who.forall_iff w).2 ⟨by omega, by rw [← hother]; exact hle _⟩)
    refine ⟨hvalue, (Who.forall_iff w).2 ⟨fun _ => ?_, fun h1 => ?_⟩⟩
    · rw [Function.update_self]; exact hvalue
    · rw [Function.update_of_ne hne]; exact hview _ (by rw [← hother]; exact h1)
  · rw [Who.forall_iff w]
    refine ⟨fun h3 => by omega, fun h3 _ => ?_⟩
    -- the other client has stored before this one has read
    obtain ⟨hview, hvalue, -⟩ := h.between w.other (by omega) (by rw [Who.other_other]; omega)
    rw [Who.other_other, Function.update_self, Function.update_of_ne hne]
    have hno : ¬ Overlap (is ++ [w]) := by
      rw [overlap_concat_of_lt (u := w.other) (by omega)]
      exact not_overlap_of_zero hn
    exact ⟨hview, hvalue, fun _ => ⟨fun ho => absurd ho hno, fun _ => hvalue⟩⟩
  · intro h3
    have := h3 w
    omega

/-- The second step of a client changes nothing but its stage. -/
private theorem Inv.decide (h : Inv f x is view s) (hn : is.count w = 1) :
    Inv f x (is ++ [w]) view (step f s w) := by
  have hself := count_self is w
  have hother := count_other is w
  have hstep : step f s w = { s with stage := Function.update s.stage w (.decided (view w)) } := by
    rw [step, h.stage w, hn]; rfl
  rw [hstep]
  refine ⟨?_, ?_, ?_, ?_⟩
  · refine stage_update h.stage ?_ rfl
    rw [hn]; rfl
  · intro hle
    obtain ⟨hvalue, hview⟩ := h.before ((Who.forall_iff w).2 ⟨by omega, by rw [← hother]; exact hle _⟩)
    refine ⟨hvalue, (Who.forall_iff w).2 ⟨fun _ => hview _ (by omega), fun h1 => hview _ ?_⟩⟩
    rw [← hother]; exact h1
  · rw [Who.forall_iff w]
    refine ⟨fun h3 => by omega, fun h3 _ => ?_⟩
    obtain ⟨hview, hvalue, hseen⟩ := h.between w.other (by omega) (by rw [Who.other_other]; omega)
    rw [Who.other_other] at hseen ⊢
    exact ⟨hview, hvalue, fun _ => (hseen (by omega)).concat (v := w.other) (by omega)⟩
  · intro h3
    have := h3 w
    omega

/-- The third step of a client: it stores. -/
private theorem Inv.store (h : Inv f x is view s) (hn : is.count w = 2) :
    Inv f x (is ++ [w]) view (step f s w) := by
  have hself := count_self is w
  have hother := count_other is w
  have hstep : step f s w =
      { value := (f w (view w)).getD s.value, stage := Function.update s.stage w (.stored (view w)) } := by
    rw [step, h.stage w, hn]; rfl
  rw [hstep]
  refine ⟨?_, ?_, ?_, ?_⟩
  · refine stage_update h.stage ?_ rfl
    rw [hn]; rfl
  · intro hle
    have := hle w
    omega
  · rw [Who.forall_iff w]
    refine ⟨fun _ h2 => ?_, fun _ h2 => by rw [Who.other_other] at h2; omega⟩
    -- it is the first to store
    obtain ⟨hvalue, hview⟩ := h.before ((Who.forall_iff w).2 ⟨by omega, by omega⟩)
    have hw := hview w (by omega)
    refine ⟨hw, by simp only [hw, hvalue, alone], fun h1 => ?_⟩
    have ho : Overlap is := ⟨is, List.prefix_refl _, (Who.forall_iff w).2 ⟨by omega, by omega⟩⟩
    exact ⟨fun _ => hview _ (by omega), fun hno => absurd ((overlap_concat_of_lt (u := w) (by omega)).2 ho) hno⟩
  · intro h3
    have h3' := h3 w.other
    -- it is the second to store
    obtain ⟨hview, hvalue, hseen⟩ := h.between w.other (by omega) (by rw [Who.other_other]; omega)
    rw [Who.other_other] at hseen
    refine ⟨w.other, ⟨is, List.prefix_append _ _, by omega, by rw [Who.other_other]; omega⟩, hview, ?_, ?_⟩
    · rw [Who.other_other]
      exact (hseen (by omega)).concat (v := w) (by omega)
    · simp only [Who.other_other, hvalue]

/-- A client that has stored does nothing. -/
private theorem Inv.idle (h : Inv f x is view s) (hn : 3 ≤ is.count w) : Inv f x (is ++ [w]) view (step f s w) := by
  have hself := count_self is w
  have hother := count_other is w
  obtain ⟨n, hcount⟩ : ∃ n, is.count w = n + 3 := ⟨is.count w - 3, by omega⟩
  have hstep : step f s w = s := by
    rw [step, h.stage w, hcount]; rfl
  rw [hstep]
  refine ⟨?_, ?_, ?_, ?_⟩
  · rw [Who.forall_iff w]
    refine ⟨?_, ?_⟩
    · rw [hself, h.stage w, hcount]; rfl
    · rw [hother, h.stage]
  · intro hle
    have := hle w
    omega
  · rw [Who.forall_iff w]
    refine ⟨fun _ h2 => ?_, fun _ h2 => by rw [Who.other_other] at h2; omega⟩
    obtain ⟨hview, hvalue, hseen⟩ := h.between w hn (by omega)
    exact ⟨hview, hvalue, fun h1 => (hseen (by omega)).concat (v := w) (by omega)⟩
  · intro h3
    have h3' := h3 w.other
    obtain ⟨u, hfirst, hview, hseen, hvalue⟩ := h.after ((Who.forall_iff w).2 ⟨hn, by omega⟩)
    exact ⟨u, hfirst.concat, hview, hseen.concat (v := w) (by omega), hvalue⟩

theorem inv_run (x : R) (is : List Who) : ∃ view, Inv f x is view (run (step f) (init x) is) := by
  induction is using List.reverseRecOn with
  | nil =>
    refine ⟨fun _ => x, fun _ => rfl, fun _ => ⟨rfl, fun _ _ => rfl⟩, fun w h => ?_, fun h => ?_⟩
    · simp at h
    · have := h .first
      simp at this
  | append_singleton is w ih =>
    obtain ⟨view, ih⟩ := ih
    rw [run_concat]
    obtain hn | hn | hn | hn : is.count w = 0 ∨ is.count w = 1 ∨ is.count w = 2 ∨ 3 ≤ is.count w := by omega
    · exact ⟨_, ih.read hn⟩
    · exact ⟨_, ih.decide hn⟩
    · exact ⟨_, ih.store hn⟩
    · exact ⟨_, ih.idle hn⟩

end

end Race
