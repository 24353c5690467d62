import ServiceSystem.Foundations.Interleaving
import Mathlib.Data.DFinsupp.WellFounded
import Mathlib.SetTheory.Cardinal.Order

namespace ServiceSystem.Foundations

namespace Interleaving

open Program

variable {ι J Op : Type} {Ans : Op → Type} {ρ σ : Type} [DecidableEq ι]
  {S : System J Op Ans ρ σ} {P : Config ι J Op Ans ρ σ → ι → Prop} {c : Config ι J Op Ans ρ σ}

variable (S) in
/-- A thread before and after a step of its own, whatever an operation answers. -/
inductive Moves : Thread J Op Ans ρ → Thread J Op Ans ρ → Prop
  | begin (j : J) (js : List J) (done : List (J × List (Event Ans) × ρ)) :
      Moves ⟨js, some (j, [], S.code j), done⟩ ⟨j :: js, none, done⟩
  | take (js : List J) (j : J) (es : List (Event Ans)) (op : Op) (k : Ans op → Program Op Ans ρ)
      (a : Ans op) (done : List (J × List (Event Ans) × ρ)) :
      Moves ⟨js, some (j, es ++ [⟨op, a⟩], k a), done⟩ ⟨js, some (j, es, .call op k), done⟩
  | finish (js : List J) (j : J) (es : List (Event Ans)) (r : ρ)
      (done : List (J × List (Event Ans) × ρ)) :
      Moves ⟨js, none, done ++ [(j, es, r)]⟩ ⟨js, some (j, es, .ret r), done⟩

theorem Moves.acc_current {js : List J} (h : ∀ done, Acc (Moves S) ⟨js, none, done⟩) (j : J)
    (p : Program Op Ans ρ) (es : List (Event Ans)) (done : List (J × List (Event Ans) × ρ)) :
    Acc (Moves S) ⟨js, some (j, es, p), done⟩ := by
  induction p generalizing es with
  | ret r =>
    constructor
    intro t ht
    cases ht
    exact h _
  | call op k ih =>
    constructor
    intro t ht
    cases ht
    exact ih _ _

theorem Moves.acc_idle (js : List J) (done : List (J × List (Event Ans) × ρ)) :
    Acc (Moves S) ⟨js, none, done⟩ := by
  induction js generalizing done with
  | nil =>
    constructor
    intro t ht
    cases ht
  | cons j js ih =>
    constructor
    intro t ht
    cases ht
    exact acc_current ih _ _ _ _

theorem Moves.wellFounded : WellFounded (Moves S) := by
  constructor
  intro t
  obtain ⟨js, current, done⟩ := t
  cases current with
  | none => exact acc_idle js done
  | some x => exact acc_current (acc_idle js) x.1 x.2.2 x.2.1 done

theorem Step.moves {c c' : Config ι J Op Ans ρ σ} {i : ι} (h : Step S c i c') :
    Moves S (c'.thread i) (c.thread i) ∧ ∀ k, k ≠ i → c'.thread k = c.thread k := by
  constructor
  · cases h with
    | begin h =>
      rw [update_self, h]
      exact .begin ..
    | take h hr =>
      rw [update_self, h]
      exact .take ..
    | finish h =>
      rw [update_self, h]
      exact .finish ..
  · intro k hk
    cases h <;> exact update_other _ _ _ hk

/-- Finitely many threads do not go on for ever, in whatever order they move. -/
theorem step_wellFounded [Finite ι] :
    WellFounded (fun c' c : Config ι J Op Ans ρ σ ↦ ∃ i, Step S c i c') := by
  have hlex : WellFounded (Pi.Lex WellOrderingRel (fun {_ : ι} ↦ Moves S)) :=
    Pi.Lex.wellFounded _ fun _ ↦ Moves.wellFounded
  refine Subrelation.wf ?_ (InvImage.wf Config.thread hlex)
  intro c' c h
  obtain ⟨i, h⟩ := h
  obtain ⟨hi, hothers⟩ := h.moves
  refine ⟨i, fun k hk ↦ hothers k ?_, hi⟩
  intro hki
  exact irrefl _ (hki ▸ hk)

omit [DecidableEq ι] in
theorem not_finished (h : ¬ Finished c) : ∃ i, (∃ j js done, c.thread i = ⟨j :: js, none, done⟩) ∨
    ∃ js j es p done, c.thread i = ⟨js, some (j, es, p), done⟩ := by
  simp only [Finished, not_forall] at h
  obtain ⟨i, hi⟩ := h
  refine ⟨i, ?_⟩
  rcases ht : c.thread i with ⟨_ | ⟨j, js⟩, _ | ⟨j', es, p⟩, done⟩
  · rw [ht] at hi
    exact absurd ⟨rfl, rfl⟩ hi
  · exact .inr ⟨_, _, _, _, _, rfl⟩
  · exact .inl ⟨_, _, _, rfl⟩
  · exact .inr ⟨_, _, _, _, _, rfl⟩

/-- A thread that does not wait can go on. -/
theorem step_of_ready (h : ¬ Finished c) (hready : ∀ i js j es op k done,
    c.thread i = ⟨js, some (j, es, .call op k), done⟩ → S.ready op c.shared) :
    ∃ i c', Step S c i c' := by
  obtain ⟨i, ⟨j, js, done, hi⟩ | ⟨js, j, es, p, done, hi⟩⟩ := not_finished h
  · exact ⟨i, _, .begin hi⟩
  · cases p with
    | ret r => exact ⟨i, _, .finish hi⟩
    | call op k => exact ⟨i, _, .take hi (hready _ _ _ _ _ _ _ hi)⟩

end Interleaving

end ServiceSystem.Foundations
