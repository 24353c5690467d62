import ServiceSystem.Foundations.Termination
import ServiceSystem.Metrics.Scrapes
import ServiceSystem.WebServer.Concurrency

namespace ServiceSystem.WebServer

open Foundations Program Interleaving Database

variable [Postgres] [Platform] {ι : Type} [DecidableEq ι] {s₀ : Shared}
  {calls : ι → List (Faults × Arrival)}
  {c : Config ι (Faults × Arrival) ServerOp ServerAns (Except Str Response) Shared}

omit [Postgres] [Platform] in
theorem ready_of_free {op : Metrics.Op} {sh : Metrics.Shared} (h : sh.locked = false) :
    Metrics.ready op sh := by
  cases op with
  | initializeMetrics => exact .inr h
  | getCounter | getHistogram | lock => exact h
  | increment | observe | printCounter | printHistogram | unlock => trivial

/-- Whoever holds the mutex of the registry can go on. -/
theorem never_stuck (hfree : s₀.metrics.locked = false)
    (h : Reaches server anyStep (initial s₀ calls) c) (hf : ¬ Finished c) :
    ∃ i c', Step server c i c' := by
  cases hl : c.shared.metrics.locked with
  | false =>
    refine step_of_ready hf ?_
    intro i js j es op k done _
    cases op with
    | metrics op => exact ready_of_free hl
    | database | log => trivial
  | true =>
    obtain ⟨calls₁, c₁, hc₁, hshared, hfollows⟩ :=
      followed (V := metricsPart) (Q := Measured) routine_measures h
    have hheld : c₁.shared.locked = true := by
      rw [hshared]
      exact hl
    obtain ⟨i, hi⟩ := Metrics.locked_scrapes hfree hc₁ hheld
    obtain ⟨es, op, k, hcurrent, hready⟩ := Metrics.scrapes_ready c.shared.metrics
      (fits hc₁ i) hi
    obtain ⟨js, j, es', k', done, hthread⟩ := (hfollows i).of_call hcurrent
    exact ⟨i, _, .take hthread hready⟩

/-- Whatever the order of the steps from here, they come to an end, and where no thread can make
another one, each has answered all its requests. -/
def ComesToAnswer (calls : ι → List (Faults × Arrival))
    (c : Config ι (Faults × Arrival) ServerOp ServerAns (Except Str Response) Shared) : Prop :=
  (¬ ∃ run : ℕ → Config ι (Faults × Arrival) ServerOp ServerAns (Except Str Response) Shared,
    run 0 = c ∧ ∀ n, ∃ i, Step server (run n) i (run (n + 1))) ∧
  ((∀ i c', ¬ Step server c i c') → ∀ i, (c.thread i).done.map Prod.fst = calls i)

theorem always_answered [Finite ι] (hfree : s₀.metrics.locked = false)
    (h : Reaches server anyStep (initial s₀ calls) c) : ComesToAnswer calls c := by
  constructor
  · intro hrun
    obtain ⟨run, -, hsteps⟩ := hrun
    exact (wellFounded_iff_isEmpty_descending_chain.mp step_wellFounded).false ⟨run, hsteps⟩
  · intro hstuck
    apply done_of_finished h
    by_contra hf
    obtain ⟨i, c', hs⟩ := never_stuck hfree h hf
    exact hstuck i c' hs

omit [Postgres] [Platform] in
theorem always_answered_visited :
    @ComesToAnswer isoDates submissionPlatform (Fin 2) _ visitors visited :=
  letI := isoDates
  letI := submissionPlatform
  always_answered (c := visited) rfl visited_reaches

end ServiceSystem.WebServer
