import Mathlib.Data.List.Forall2
import Mathlib.Data.List.Infix

/-!
# Lists in stages

A list is staged from `a` to `b` if it reads `a … a`, then at most one entry of any value, then `b … b`: the shape of
a sequence of jobs worked off in order, where `b` is not started and `a` is finished.  Being staged is a condition on
pairs of positions (`staged_iff_pairwise`), and it survives a change of the first entry other than `a`
(`Staged.replace`) and a change of entries that keeps every `a` and every `b` (`Staged.map₂`).
-/

/-! ### Related lists -/

theorem List.Forall₂.exists_of_mem_left {α β : Type*} {R : α → β → Prop} {l : List α} {l' : List β}
    (h : List.Forall₂ R l l') {x : α} (hx : x ∈ l) : ∃ y ∈ l', R x y := by
  induction h with
  | nil => cases hx
  | @cons a b l l' hab _ ih =>
    rcases List.mem_cons.1 hx with rfl | hx
    · exact ⟨b, List.mem_cons_self, hab⟩
    · obtain ⟨y, hy, hxy⟩ := ih hx
      exact ⟨y, List.mem_cons_of_mem b hy, hxy⟩

theorem List.Forall₂.exists_of_mem_right {α β : Type*} {R : α → β → Prop} {l : List α} {l' : List β}
    (h : List.Forall₂ R l l') {y : β} (hy : y ∈ l') : ∃ x ∈ l, R x y :=
  List.Forall₂.exists_of_mem_left h.flip hy

/-! ### Stages -/

variable {α : Type*} {a b : α}

/-- `a … a`, at most one other entry, `b … b`. -/
def Staged (a b : α) (l : List α) : Prop :=
  ∃ k mid m, mid.length ≤ 1 ∧ l = List.replicate k a ++ mid ++ List.replicate m b

theorem staged_iff_pairwise {l : List α} : Staged a b l ↔ l.Pairwise (fun x y => x = a ∨ y = b) := by
  constructor
  · rintro ⟨k, mid, m, hmid, rfl⟩
    rw [List.pairwise_append, List.pairwise_append]
    refine ⟨⟨?_, ?_, ?_⟩, ?_, ?_⟩
    · rw [List.pairwise_replicate]; right; left; rfl
    · rcases mid with _ | ⟨x, _ | ⟨y, mid⟩⟩
      · exact List.Pairwise.nil
      · exact List.pairwise_singleton _ x
      · simp at hmid
    · intro x hx y _
      left; exact (List.mem_replicate.1 hx).2
    · rw [List.pairwise_replicate]; right; right; rfl
    · intro x _ y hy
      right; exact (List.mem_replicate.1 hy).2
  · intro h
    induction l with
    | nil => exact ⟨0, [], 0, by simp, rfl⟩
    | cons x l ih =>
      obtain ⟨hx, hl⟩ := List.pairwise_cons.1 h
      by_cases hxa : x = a
      · obtain ⟨k, mid, m, hmid, rfl⟩ := ih hl
        exact ⟨k + 1, mid, m, hmid, by simp [List.replicate_succ, hxa]⟩
      · -- every later entry is `b`
        have hb : ∀ y ∈ l, y = b := fun y hy => (hx y hy).resolve_left hxa
        refine ⟨0, [x], l.length, by simp, ?_⟩
        rw [← List.eq_replicate_of_mem hb]; rfl

/-- Behind the first entry other than `a` there are only `b`s. -/
theorem Staged.after {l₁ l₂ : List α} {x : α} (h : Staged a b (l₁ ++ x :: l₂)) (hx : x ≠ a) : ∀ y ∈ l₂, y = b := by
  rw [staged_iff_pairwise, List.pairwise_append, List.pairwise_cons] at h
  intro y hy
  exact (h.2.1.1 y hy).resolve_left hx

/-- In front of an entry other than `b` there are only `a`s. -/
theorem Staged.before {l₁ l₂ : List α} {x : α} (h : Staged a b (l₁ ++ x :: l₂)) (hx : x ≠ b) : ∀ y ∈ l₁, y = a := by
  rw [staged_iff_pairwise, List.pairwise_append] at h
  intro y hy
  exact (h.2.2 y hy x (by simp)).resolve_right hx

theorem Staged.replace {l₁ l₂ : List α} {x : α} (h : Staged a b (l₁ ++ x :: l₂)) (h₁ : ∀ y ∈ l₁, y = a) (hx : x ≠ a)
    (z : α) : Staged a b (l₁ ++ z :: l₂) := by
  have h₂ := h.after hx
  rw [staged_iff_pairwise, List.pairwise_append, List.pairwise_cons] at h ⊢
  refine ⟨h.1, ⟨fun y hy => Or.inr (h₂ y hy), h.2.1.2⟩, fun y hy _ _ => Or.inl (h₁ y hy)⟩

/-- A value other than `a` and `b` stands at most once. -/
theorem Staged.count_le_one [DecidableEq α] {l : List α} (h : Staged a b l) {x : α} (ha : x ≠ a) (hb : x ≠ b) :
    l.count x ≤ 1 := by
  obtain ⟨k, mid, m, hmid, rfl⟩ := h
  have h1 : (List.replicate k a).count x = 0 := by rw [List.count_replicate]; simp [ha.symm]
  have h2 : (List.replicate m b).count x = 0 := by rw [List.count_replicate]; simp [hb.symm]
  rw [List.count_append, List.count_append, h1, h2]
  have : mid.count x ≤ mid.length := List.count_le_length
  omega

theorem Staged.map₂ {R : α → α → Prop} {l l' : List α} (hR : List.Forall₂ R l l') (ha : ∀ x, R a x → x = a)
    (hb : ∀ x, R b x → x = b) (h : Staged a b l) : Staged a b l' := by
  rw [staged_iff_pairwise] at h ⊢
  induction hR with
  | nil => exact List.Pairwise.nil
  | @cons x x' l l' hx hl ih =>
    obtain ⟨h1, h2⟩ := List.pairwise_cons.1 h
    refine List.pairwise_cons.2 ⟨fun y' hy' => ?_, ih h2⟩
    obtain ⟨y, hy, hyy'⟩ := List.Forall₂.exists_of_mem_right hl hy'
    rcases h1 y hy with h | h
    · left; rw [h] at hx; exact ha _ hx
    · right; rw [h] at hyy'; exact hb _ hyy'
