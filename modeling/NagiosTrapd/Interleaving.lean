/-
# Threads with a shared state

A program of threads: each step belongs to one thread and changes the shared state and the
local state of that thread.  `Outline` collects what has to be shown of a thread's step: that it
keeps what holds of the shared state and of the thread itself, and that it does not disturb what
holds of another thread or of the two together.  `Outline.reach` is the rule: all this then
holds in every state of every run, whatever the order in which the threads are scheduled.
-/
import Mathlib.Logic.Function.Basic
import NagiosTrapd.Transition

namespace Interleaving

open Transition

/-- Threads `ι` with local states `τ` and a shared state `σ`. -/
structure Program (ι σ α : Type*) (τ : ι → Type*) where
  init : σ → (∀ i, τ i) → Prop
  step : (i : ι) → σ → τ i → α → σ → τ i → Prop

variable {ι σ α : Type*} {τ : ι → Type*}

/-- The threads take their steps in any order. -/
def Program.system [DecidableEq ι] (p : Program ι σ α τ) :
    System (σ × ∀ i, τ i) (ι × α) where
  init s := p.init s.1 s.2
  step s a s' :=
    ∃ x, p.step a.1 s.1 (s.2 a.1) a.2 s'.1 x ∧ s'.2 = Function.update s.2 a.1 x

/-- What holds of a program: `G` of the shared state, `L` of a thread, `P` of two threads. -/
structure Outline (p : Program ι σ α τ) (ok : ι → α → Prop) (G : σ → Prop)
    (L : (i : ι) → σ → τ i → Prop) (P : (i j : ι) → τ i → τ j → Prop) : Prop where
  init : ∀ s l, p.init s l → G s ∧ (∀ i, L i s (l i)) ∧ ∀ i j, i ≠ j → P i j (l i) (l j)
  /-- The step of a thread, for the thread itself. -/
  own : ∀ {i s x a s' x'}, G s → L i s x → ok i a → p.step i s x a s' x' → G s' ∧ L i s' x'
  /-- The step of a thread, for another one. -/
  other : ∀ {i j s x a s' x' y}, i ≠ j → G s → L i s x → L j s y → P i j x y → ok i a →
    p.step i s x a s' x' → L j s' y ∧ P i j x' y
  symm : ∀ {i j x y}, P i j x y → P j i y x

/-- All that an outline is about. -/
structure Holds (G : σ → Prop) (L : (i : ι) → σ → τ i → Prop)
    (P : (i j : ι) → τ i → τ j → Prop) (s : σ × ∀ i, τ i) : Prop where
  shared : G s.1
  thread : ∀ i, L i s.1 (s.2 i)
  pair : ∀ i j, i ≠ j → P i j (s.2 i) (s.2 j)

variable [DecidableEq ι] {p : Program ι σ α τ} {ok : ι → α → Prop} {G : σ → Prop}
  {L : (i : ι) → σ → τ i → Prop} {P : (i j : ι) → τ i → τ j → Prop}

/-- A step keeps what the outline is about. -/
theorem Outline.step (o : Outline p ok G L P) {s s' : σ × ∀ i, τ i} {a : ι × α}
    (h : Holds G L P s) (hok : ok a.1 a.2) (hstep : p.system.step s a s') : Holds G L P s' := by
  obtain ⟨x, hx, hupd⟩ := hstep
  obtain ⟨hG, hL⟩ := o.own h.shared (h.thread a.1) hok hx
  have hother : ∀ j, a.1 ≠ j → L j s'.1 (s.2 j) ∧ P a.1 j x (s.2 j) := fun j hj =>
    o.other hj h.shared (h.thread a.1) (h.thread j) (h.pair a.1 j hj) hok hx
  have hself : s'.2 a.1 = x := by rw [hupd, Function.update_self]
  have hrest : ∀ j, a.1 ≠ j → s'.2 j = s.2 j := fun j hj => by
    rw [hupd, Function.update_of_ne (Ne.symm hj)]
  refine ⟨hG, fun j => ?_, fun j k hjk => ?_⟩
  · by_cases hj : a.1 = j
    · subst hj
      rw [hself]
      exact hL
    · rw [hrest j hj]
      exact (hother j hj).1
  · by_cases hj : a.1 = j
    · subst hj
      rw [hself, hrest k hjk]
      exact (hother k hjk).2
    · by_cases hk : a.1 = k
      · subst hk
        rw [hself, hrest j hj]
        exact o.symm (hother j hj).2
      · rw [hrest j hj, hrest k hk]
        exact h.pair j k hjk

/-- **The rule of interleavings**: an outline holds in every state reached. -/
theorem Outline.reach (o : Outline p ok G L P) {s : σ × ∀ i, τ i}
    (h : p.system.Reach (fun _ a => ok a.1 a.2) s) : Holds G L P s := by
  refine System.Reach.invariant ?_ (fun _ _ _ hI hok hstep => o.step hI hok hstep) h
  rintro ⟨s, l⟩ hinit
  obtain ⟨hG, hL, hP⟩ := o.init s l hinit
  exact ⟨hG, hL, hP⟩

end Interleaving
