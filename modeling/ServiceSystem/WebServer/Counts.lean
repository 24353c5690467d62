import ServiceSystem.WebServer.Concurrency

namespace ServiceSystem.WebServer

open Foundations Program Interleaving Database
open Metrics (SeriesKey MetricsRegistry Counter)
open Metrics.MetricsRegistry (httpRequests authFailures)

section Registry

variable {ι : Type} [DecidableEq ι] [Fintype ι] {order : Metrics.IterationOrder}
  {P : Config ι Metrics.Call Metrics.Op Metrics.Ans (List Metrics.Printed) Metrics.Shared → ι → Prop} {sh₀ : Metrics.Shared} {calls : ι → List Metrics.Call}
  {c : Config ι Metrics.Call Metrics.Op Metrics.Ans (List Metrics.Printed) Metrics.Shared}

omit [DecidableEq ι] [Fintype ι] in
theorem sum_countP {α : Type} (p : α → Bool) (xs : List α) :
    (xs.map fun x ↦ if p x then 1 else 0).sum = xs.countP p := by
  induction xs with
  | nil => rfl
  | cons x xs ih => rw [List.map_cons, List.sum_cons, ih, List.countP_cons, Nat.add_comm]

theorem counted (h : Reaches (Metrics.system order) P (initial sh₀ calls) c) (hf : Finished c)
    {q : MetricsRegistry → ℕ} {w : Metrics.Op → ℕ} {cost : Metrics.Call → ℕ}
    (hq : ∀ op sh, Metrics.Held op sh →
      q (Metrics.exec order op sh).2.registry = q sh.registry + w op)
    (hcost : ∀ j es r, After (Metrics.exec order) (Metrics.code j) es (.ret r) →
      weigh w es = cost j) :
    q c.shared.registry = q sh₀.registry + ∑ i, ((calls i).map cost).sum := by
  rw [Metrics.raised_add h hq]
  congr 1
  exact Finset.sum_congr rfl fun i _ ↦ spent_of_finished hcost h hf i

end Registry

variable [Postgres] [Platform] {ι : Type} [DecidableEq ι] {s₀ : Shared}
  {calls : ι → List (Faults × Arrival)}
  {c : Config ι (Faults × Arrival) ServerOp ServerAns (Except Str Response) Shared}

section Requests

omit [Postgres]

def Arrival.isApi (a : Arrival) : Bool :=
  match a.route with
  | .api _ => true
  | .metrics | .index | .static _ => false

/-- A login without credentials, or with ones that are turned down. -/
def Arrival.turnedDown (a : Arrival) : Bool :=
  match a.route, Platform.parse a.request.body >>= readCredentials with
  | .api .login, .ok (username, password) => !Accepted username password
  | .api .login, .error _ => true
  | _, _ => false

/-- Of the calls for a request, one tells of the request itself, and one of a login that failed. -/
theorem recorded_countP {x : Faults × Arrival} {js : List Metrics.Call}
    {res : Except Str Response} (h : Recorded x js res) :
    js.countP Metrics.Call.isHttpRequest = (if x.2.isApi then 1 else 0) ∧
      js.countP Metrics.Call.isFailedAttempt = if x.2.turnedDown then 1 else 0 := by
  obtain ⟨f, route, req, clock⟩ := x
  cases route with
  | metrics | index | static _ =>
    obtain rfl : js = _ := h
    exact ⟨rfl, rfl⟩
  | api route =>
    cases route with
    | logout | createDevice | getDevices | getServiceTypes | getServiceHistory | getServiceRecords =>
      obtain rfl : js = _ := h
      exact ⟨rfl, rfl⟩
    | testDb =>
      obtain ⟨connected, rfl, -⟩ := h
      exact ⟨rfl, rfl⟩
    | createServiceRecord =>
      simp only [Recorded] at h
      split at h
      · obtain ⟨success, rfl, -⟩ := h
        exact ⟨rfl, rfl⟩
      · obtain ⟨rfl, -⟩ := h
        exact ⟨rfl, rfl⟩
    | login =>
      simp only [Recorded] at h
      cases hc : Platform.parse req.body >>= readCredentials with
      | error what =>
        rw [hc] at h
        obtain ⟨rfl, -⟩ := h
        refine ⟨rfl, ?_⟩
        rw [if_pos (by simp only [Arrival.turnedDown, hc])]
        rfl
      | ok credentials =>
        rw [hc] at h
        obtain ⟨rfl, -⟩ := h
        refine ⟨rfl, ?_⟩
        simp only [Arrival.turnedDown, hc, loginCalls]
        cases decide (Accepted credentials.1 credentials.2) <;> rfl

theorem ledger_countP {p : Metrics.Call → Bool} {p' : Arrival → Bool}
    (hp : ∀ (x : Faults × Arrival) js res, Recorded x js res →
      js.countP p = if p' x.2 then 1 else 0)
    {done : List ((Faults × Arrival) × List (Program.Event ServerAns) × Except Str Response)}
    {ledger : List (List Metrics.Call)}
    (h : List.Forall₂ (fun d js ↦ Recorded d.1 js d.2.2) done ledger) :
    ledger.flatten.countP p = done.countP (fun d ↦ p' d.1.2) := by
  induction h with
  | nil => rfl
  | @cons d js done ledger hd hrest ih =>
    rw [List.flatten_cons, List.countP_append, ih, hp _ _ _ hd, List.countP_cons, Nat.add_comm]

end Requests

/-- The sum over the threads of the requests that they have answered, and that are of a kind. -/
def answered [Fintype ι]
    (c : Config ι (Faults × Arrival) ServerOp ServerAns (Except Str Response) Shared)
    (p : Arrival → Bool) : ℕ :=
  ∑ i, (c.thread i).done.countP (fun d ↦ p d.1.2)

/-- What the registry has gained: every counter, as often as the calls behind the responses name it,
and on the whole one request for each that has come to a route of the API. -/
structure Tallied [Fintype ι] (s₀ : Shared)
    (c : Config ι (Faults × Arrival) ServerOp ServerAns (Except Str Response) Shared) : Prop where
  levels : ∃ ledger : ι → List (List Metrics.Call),
    (∀ i, List.Forall₂ (fun d js ↦ Recorded d.1 js d.2.2) (c.thread i).done (ledger i)) ∧
      ∀ s, c.shared.metrics.registry.counters.level Counter.value s =
        s₀.metrics.registry.counters.level Counter.value s +
          ∑ i, (ledger i).flatten.countP (fun j ↦ s ∈ j.names)
  requests : Metrics.requests c.shared.metrics.registry =
    Metrics.requests s₀.metrics.registry + answered c Arrival.isApi
  observed : Metrics.requestsObserved c.shared.metrics.registry =
    Metrics.requestsObserved s₀.metrics.registry + answered c Arrival.isApi
  failures : Metrics.failures c.shared.metrics.registry =
    Metrics.failures s₀.metrics.registry + answered c Arrival.turnedDown

/-- The registry's own run behind a run of the server that is over. -/
theorem registry_run (h : Reaches server anyStep (initial s₀ calls) c) (hf : Finished c) :
    ∃ (ledger : ι → List (List Metrics.Call)) (c₁ : Config ι Metrics.Call Metrics.Op Metrics.Ans
        (List Metrics.Printed) Metrics.Shared),
      (∀ i, List.Forall₂ (fun d js ↦ Recorded d.1 js d.2.2) (c.thread i).done (ledger i)) ∧
        Reaches (Metrics.system Platform.order) anyStep
          (initial s₀.metrics fun i ↦ (ledger i).flatten) c₁ ∧
        Finished c₁ ∧ c₁.shared = c.shared.metrics := by
  obtain ⟨calls₁, c₁, hc₁, hf₁, hshared, hmade⟩ :=
    (followed (V := metricsPart) (Q := Measured) routine_measures h).finished hf
  choose ls hls hreplies using hmade
  have hcalls : (fun i ↦ ((ls i).map (·.map Prod.fst)).flatten) = calls₁ := by
    funext i
    rw [← List.map_flatten, ← hreplies, ← done_of_finished hc₁ hf₁ i, replies, List.map_map]
    rfl
  refine ⟨fun i ↦ (ls i).map (·.map Prod.fst), c₁, fun i ↦ ?_, ?_, hf₁, hshared⟩
  · rw [List.forall₂_map_right_iff]
    exact hls i
  · rw [hcalls]
    exact hc₁

/-- A kind of calls of which a request leads to one or to none, by its own kind. -/
theorem gained [Fintype ι] {ledger : ι → List (List Metrics.Call)}
    {c₁ : Config ι Metrics.Call Metrics.Op Metrics.Ans (List Metrics.Printed) Metrics.Shared}
    (hledger : ∀ i, List.Forall₂ (fun d js ↦ Recorded d.1 js d.2.2) (c.thread i).done (ledger i))
    (hc₁ : Reaches (Metrics.system Platform.order) anyStep
      (initial s₀.metrics fun i ↦ (ledger i).flatten) c₁)
    (hf₁ : Finished c₁) {q : MetricsRegistry → ℕ} (w : Metrics.Op → ℕ) {p : Metrics.Call → Bool}
    {p' : Arrival → Bool}
    (hq : ∀ op sh, Metrics.Held op sh →
      q (Metrics.exec Platform.order op sh).2.registry = q sh.registry + w op)
    (hcost : ∀ j es r, After (Metrics.exec Platform.order) (Metrics.code j) es (.ret r) →
      weigh w es = if p j then 1 else 0)
    (hp : ∀ (x : Faults × Arrival) js res, Recorded x js res →
      js.countP p = if p' x.2 then 1 else 0) :
    q c₁.shared.registry = q s₀.metrics.registry + answered c p' := by
  rw [counted hc₁ hf₁ hq hcost, answered]
  congr 1
  refine Finset.sum_congr rfl fun i _ ↦ ?_
  rw [sum_countP, ledger_countP hp (hledger i)]

theorem metrics_exact [Fintype ι] (h : Reaches server anyStep (initial s₀ calls) c)
    (hf : Finished c) : Tallied s₀ c := by
  obtain ⟨ledger, c₁, hledger, hc₁, hf₁, hshared⟩ := registry_run h hf
  constructor
  all_goals rw [← hshared]
  · refine ⟨ledger, hledger, fun s ↦ ?_⟩
    have hlevel := counted hc₁ hf₁ (q := fun m ↦ m.counters.level Counter.value s)
      (fun op sh hheld ↦ Metrics.exec_level Platform.order hheld s)
      (fun _ _ _ ↦ Metrics.code_raised)
    rw [hlevel]
    congr 1
    exact Finset.sum_congr rfl fun i _ ↦ Metrics.countP_names s _
  · have he : Metrics.isRequests = fun s ↦ decide (s.name = httpRequests ∧ true = true) := by
      funext s
      simp [Metrics.isRequests]
    apply gained hledger hc₁ hf₁ (Metrics.raised Metrics.isRequests)
    · intro op sh hheld
      rw [he]
      exact Metrics.exec_sumOver Platform.order hheld httpRequests fun _ ↦ true
    · intro j es r ha
      rw [Metrics.code_raised ha, Metrics.countP_isRequests]
    · intro x js res hrecorded
      exact (recorded_countP hrecorded).1
  · apply gained hledger hc₁ hf₁ (Metrics.observed ⟨Metrics.MetricsRegistry.httpDuration, .empty⟩)
    · intro op sh hheld
      exact Metrics.exec_observed Platform.order hheld _
    · intro j es r ha
      exact Metrics.code_observed ha
    · intro x js res hrecorded
      exact (recorded_countP hrecorded).1
  · apply gained hledger hc₁ hf₁ (Metrics.raised (· = ⟨authFailures, .empty⟩))
    · intro op sh hheld
      exact Metrics.exec_level Platform.order hheld ⟨authFailures, .empty⟩
    · intro j es r ha
      rw [Metrics.code_raised ha, Metrics.countP_failures]
    · intro x js res hrecorded
      exact (recorded_countP hrecorded).2

omit [Postgres] [Platform] in
theorem metrics_exact_visited : @Tallied isoDates submissionPlatform (Fin 2) _ opened visited :=
  letI := isoDates
  letI := submissionPlatform
  metrics_exact (c := visited) visited_reaches visited_finished

end ServiceSystem.WebServer
