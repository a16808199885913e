import Mathlib.Data.List.Infix

/-!
# Runs of a deterministic machine

A machine is a step function `step : σ → ι → σ`; a run is a list of inputs, read from left to right.  Three
properties of a run are used throughout: `Always P` (every state the run passes through satisfies `P`), `Every C`
(every step of the run is taken from a state and with an input satisfying `C`) and its dual `Once C`.  They are stated
over the prefixes of the input list, and unfold along the head of the list (`always_cons`, `every_cons`).

The rules: an invariant of the steps that meet `C` holds along every run whose steps meet `C` (`always_of_every`, and
`history_of_every` for an invariant that speaks of the inputs so far); if `C` decides step by step whether `P`
survives, then it decides it for the whole run (`always_iff_every`); an observation frozen from some point on is
frozen step by step (`frozen_iff_every`); and a machine that follows a partial one step by step follows its runs
(`follows_run`).
-/

namespace Machine

variable {σ ι ω : Type*} (step : σ → ι → σ)

/-- The state after the inputs `is`. -/
def run (s : σ) (is : List ι) : σ := is.foldl step s

/-- Every state the run passes through, the first and the last included, satisfies `P`. -/
def Always (P : σ → Prop) (s : σ) (is : List ι) : Prop := ∀ p, p <+: is → P (run step s p)

/-- Every step of the run is taken from a state and with an input satisfying `C`. -/
def Every (C : σ → ι → Prop) (s : σ) (is : List ι) : Prop := ∀ p i, p ++ [i] <+: is → C (run step s p) i

/-- Some step of the run is taken from a state and with an input satisfying `C`. -/
def Once (C : σ → ι → Prop) (s : σ) (is : List ι) : Prop := ∃ p i, p ++ [i] <+: is ∧ C (run step s p) i

variable {step} {P Q I : σ → Prop} {C : σ → ι → Prop} {s : σ} {i : ι} {is : List ι}

@[simp] theorem run_nil : run step s [] = s := rfl

@[simp] theorem run_cons : run step s (i :: is) = run step (step s i) is := rfl

theorem run_append (is' : List ι) : run step s (is ++ is') = run step (run step s is) is' := by
  unfold run; exact List.foldl_append

theorem run_concat : run step s (is ++ [i]) = step (run step s is) i := by
  rw [run_append]; rfl

/-- An invariant of every step holds after every run. -/
theorem run_inv (h0 : I s) (hstep : ∀ s i, I s → I (step s i)) : I (run step s is) := by
  induction is generalizing s with
  | nil => exact h0
  | cons i is ih => exact ih (hstep s i h0)

@[simp] theorem always_nil : Always step P s [] ↔ P s := by
  constructor
  · intro h; exact h [] (List.prefix_refl [])
  · intro h p hp
    rw [List.prefix_nil.1 hp]; exact h

@[simp] theorem always_cons : Always step P s (i :: is) ↔ P s ∧ Always step P (step s i) is := by
  constructor
  · intro h
    refine ⟨h [] List.nil_prefix, fun p hp => ?_⟩
    exact h (i :: p) (List.cons_prefix_cons.2 ⟨rfl, hp⟩)
  · rintro ⟨h0, h⟩ p hp
    rcases p with _ | ⟨j, p⟩
    · exact h0
    · obtain ⟨rfl, hp'⟩ := List.cons_prefix_cons.1 hp
      exact h p hp'

@[simp] theorem every_nil : Every step C s [] := by
  intro p i hp
  have := List.prefix_nil.1 hp
  simp at this

@[simp] theorem every_cons : Every step C s (i :: is) ↔ C s i ∧ Every step C (step s i) is := by
  constructor
  · intro h
    refine ⟨h [] i (by simp), fun p j hp => ?_⟩
    exact h (i :: p) j (List.cons_prefix_cons.2 ⟨rfl, hp⟩)
  · rintro ⟨h0, h⟩ p j hp
    rcases p with _ | ⟨k, p⟩
    · obtain ⟨rfl, -⟩ := List.cons_prefix_cons.1 hp
      exact h0
    · obtain ⟨rfl, hp'⟩ := List.cons_prefix_cons.1 hp
      exact h p j hp'

instance decidableEvery [∀ s i, Decidable (C s i)] : ∀ (s : σ) (is : List ι), Decidable (Every step C s is)
  | _, [] => isTrue every_nil
  | s, i :: is =>
    have := decidableEvery (step s i) is
    decidable_of_iff _ every_cons.symm

theorem once_iff_not_every : Once step C s is ↔ ¬ Every step (fun s i => ¬ C s i) s is := by
  simp [Once, Every]

@[simp] theorem once_nil : ¬ Once step C s [] := by
  rw [once_iff_not_every, not_not]
  exact every_nil

@[simp] theorem once_cons : Once step C s (i :: is) ↔ C s i ∨ Once step C (step s i) is := by
  rw [once_iff_not_every, once_iff_not_every, every_cons, not_and_or, not_not]

theorem Once.append (h : Once step C s is) (is' : List ι) : Once step C s (is ++ is') := by
  obtain ⟨p, i, hp, hC⟩ := h
  exact ⟨p, i, hp.trans (List.prefix_append is is'), hC⟩

theorem once_concat (h : C (run step s is) i) : Once step C s (is ++ [i]) :=
  ⟨is, i, List.prefix_refl _, h⟩

theorem Always.last (h : Always step P s is) : P (run step s is) := h is (List.prefix_refl is)

theorem Always.mono (h : Always step P s is) (hPQ : ∀ s, P s → Q s) : Always step Q s is :=
  fun p hp => hPQ _ (h p hp)

theorem every_of_forall_mem (h : ∀ i ∈ is, ∀ s, C s i) : Every step C s is := by
  intro p i hp
  exact h i (hp.subset (by simp)) _

/-- The invariant rule for a run whose steps meet `C`, where the invariant may speak of the inputs so far. -/
theorem history_of_every {J : List ι → σ → Prop} (h0 : J [] s) (hC : Every step C s is)
    (hstep : ∀ p i, J p (run step s p) → C (run step s p) i → J (p ++ [i]) (step (run step s p) i)) :
    ∀ p, p <+: is → J p (run step s p) := by
  intro p hp
  induction p using List.reverseRecOn with
  | nil => exact h0
  | append_singleton p i ih =>
    rw [run_concat]
    exact hstep p i (ih ((List.prefix_append p [i]).trans hp)) (hC p i hp)

/-- The invariant rule for a run whose steps meet `C`. -/
theorem always_of_every (h0 : I s) (hC : Every step C s is) (hstep : ∀ s i, I s → C s i → I (step s i)) :
    Always step I s is :=
  history_of_every (J := fun _ s => I s) h0 hC fun _ i h hi => hstep _ i h hi

/-- If, from the states of an invariant `I` that implies `P`, the condition `C` says exactly which steps keep `P`, and
these steps keep `I`, then `C` says exactly which runs keep `P`. -/
theorem always_iff_every (h0 : I s) (hP : ∀ s, I s → P s) (hI : ∀ s i, I s → C s i → I (step s i))
    (hstep : ∀ s i, I s → P (step s i) → C s i) : Always step P s is ↔ Every step C s is := by
  constructor
  · intro h
    induction is generalizing s with
    | nil => exact every_nil
    | cons i is ih =>
      obtain ⟨-, h⟩ := always_cons.1 h
      have hi : C s i := hstep s i h0 (h [] List.nil_prefix)
      exact every_cons.2 ⟨hi, ih (hI s i h0 hi) h⟩
  · intro h
    exact (always_of_every h0 h hI).mono hP

/-- Two conditions that agree on the states of an invariant agree on a run. -/
theorem every_congr {D C' : σ → ι → Prop} (h0 : I s) (hD : Every step D s is)
    (hI : ∀ s i, I s → D s i → I (step s i)) (h : ∀ s i, I s → D s i → (C s i ↔ C' s i)) :
    Every step C s is ↔ Every step C' s is := by
  have hinv := always_of_every h0 hD hI
  refine forall_congr' fun p => forall_congr' fun i => forall_congr' fun hp => ?_
  exact h _ i (hinv p ((List.prefix_append p [i]).trans hp)) (hD p i hp)

/-- An observation that never changes once it is in `F` is one that no step changes from `F`. -/
theorem frozen_iff_every (obs : σ → ω) (F : ω → Prop) :
    (∀ p q, p ++ q <+: is → F (obs (run step s p)) → obs (run step s (p ++ q)) = obs (run step s p)) ↔
      Every step (fun s i => F (obs s) → obs (step s i) = obs s) s is := by
  constructor
  · intro h p i hp hF
    have := h p [i] hp hF
    rwa [run_concat] at this
  · intro h p q hpq hF
    -- from the right: the last input of `q` is a step from a state with the frozen observation
    induction q using List.reverseRecOn with
    | nil => simp
    | append_singleton q i ih =>
      rw [← List.append_assoc] at hpq ⊢
      have hq : p ++ q <+: is := (List.prefix_append _ _).trans hpq
      have hobs := ih hq
      rw [run_concat, h (p ++ q) i hpq (by rw [hobs]; exact hF), hobs]

/-- The rule for a machine that follows a partial one: if every step of the partial machine is followed by a step that
meets `C`, then so is every run. -/
theorem follows_run {A κ : Type*} {next : A → κ → Option A} {R : A → σ → Prop} {a a' : A} {ks : List κ} (f : κ → ι)
    (h0 : R a s) (hrun : ks.foldlM next a = some a')
    (hstep : ∀ k ∈ ks, ∀ a s a', R a s → next a k = some a' → C s (f k) ∧ R a' (step s (f k))) :
    Every step C s (ks.map f) ∧ R a' (run step s (ks.map f)) := by
  induction ks generalizing a s with
  | nil =>
    cases hrun
    exact ⟨every_nil, h0⟩
  | cons k ks ih =>
    rw [List.foldlM_cons] at hrun
    obtain ⟨b, hb, hrun⟩ := Option.bind_eq_some_iff.1 hrun
    obtain ⟨hC, hR⟩ := hstep k List.mem_cons_self a s b h0 hb
    obtain ⟨hevery, hlast⟩ := ih hR hrun fun k hk => hstep k (List.mem_cons_of_mem _ hk)
    exact ⟨every_cons.2 ⟨hC, hevery⟩, hlast⟩

end Machine
