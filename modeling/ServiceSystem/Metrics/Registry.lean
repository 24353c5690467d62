import ServiceSystem.Metrics.Series

namespace ServiceSystem.Metrics

open Foundations

/-- The place of an entry in `counters_` or `histograms_`, which a reference handed out
by `getCounter` or `getHistogram` stands for: map nodes never move. -/
structure SeriesKey where
  name : Str
  labels : Labels
  deriving DecidableEq

abbrev Families (α : Type) := OrderedMap Str (OrderedMap Labels α)

namespace Families

variable {α : Type}

def get (f : Families α) (s : SeriesKey) : Option α := (f.get? s.name).bind (·.get? s.labels)

/-- `families[name].emplace(labels, fresh)`. -/
def emplaceSeries (f : Families α) (s : SeriesKey) (fresh : α) : Families α :=
  f.upsert s.name (fun m ↦ (m.getD .empty).emplace s.labels fresh)

def update (f : Families α) (s : SeriesKey) (g : α → α) : Families α :=
  f.modify s.name (·.modify s.labels g)

def tally (f : Families α) (name : Str) (g : Labels → α → ℕ) : ℕ :=
  (f.get? name).elim 0 (·.total g)

theorem emplaceSeries_get (f : Families α) (s s' : SeriesKey) (fresh : α) :
    (f.emplaceSeries s fresh).get s' =
      if s' = s then some ((f.get s).getD fresh) else f.get s' := by
  obtain ⟨n, l⟩ := s
  obtain ⟨n', l'⟩ := s'
  simp only [get, emplaceSeries, OrderedMap.upsert_get, SeriesKey.mk.injEq]
  by_cases hn : n' = n
  · subst hn
    by_cases hl : l' = l
    · cases h : f.get? n' <;> simp [OrderedMap.emplace_get, hl]
    · cases h : f.get? n' <;> simp [OrderedMap.emplace_get, hl]
  · simp [hn]

theorem update_get (f : Families α) (s s' : SeriesKey) (g : α → α) :
    (f.update s g).get s' = if s' = s then (f.get s).map g else f.get s' := by
  obtain ⟨n, l⟩ := s
  obtain ⟨n', l'⟩ := s'
  simp only [get, update, OrderedMap.modify_get, SeriesKey.mk.injEq]
  by_cases hn : n' = n
  · subst hn
    by_cases hl : l' = l
    · cases h : f.get? n' <;> simp [OrderedMap.modify_get, hl]
    · cases h : f.get? n' <;> simp [OrderedMap.modify_get, hl]
  · simp [hn]

theorem update_get_eq_some {f : Families α} {s s' : SeriesKey} {u : α → α} {a : α}
    (h : (f.update s u).get s' = some a) :
    f.get s' = some a ∨ ∃ b, f.get s' = some b ∧ a = u b := by
  rw [update_get] at h
  split_ifs at h with hs
  · subst hs
    obtain ⟨b, hb, rfl⟩ := Option.map_eq_some_iff.mp h
    exact .inr ⟨b, hb, rfl⟩
  · exact .inl h

theorem name_mem_keys {f : Families α} {s : SeriesKey} {a : α} (h : f.get s = some a) :
    s.name ∈ f.keys := by
  obtain ⟨labelMap, hf, -⟩ := Option.bind_eq_some_iff.mp h
  exact OrderedMap.mem_keys.mpr (Option.isSome_of_mem hf)

theorem mem_keys_emplaceSeries {f : Families α} {s : SeriesKey} {a : α} {name : Str} :
    name ∈ (f.emplaceSeries s a).keys ↔ name ∈ f.keys ∨ name = s.name := by
  rw [OrderedMap.mem_keys, OrderedMap.mem_keys, emplaceSeries, OrderedMap.upsert_get]
  split_ifs with h <;> simp [h]

theorem emplaceSeries_tally (f : Families α) (s : SeriesKey) {fresh : α} (name : Str)
    {g : Labels → α → ℕ} (h : g s.labels fresh = 0) :
    (f.emplaceSeries s fresh).tally name g = f.tally name g := by
  simp only [tally, emplaceSeries, OrderedMap.upsert_get]
  split_ifs with hn
  · subst hn
    cases hm : f.get? s.name with
    | none => simpa [h, OrderedMap.emplace] using
        OrderedMap.upsert_total .empty s.labels (·.getD fresh) g
    | some m =>
      have ht := OrderedMap.upsert_total m s.labels (·.getD fresh) g
      cases hl : m.get? s.labels <;> simp_all [OrderedMap.emplace]
  · rfl

theorem update_tally {f : Families α} {s : SeriesKey} {a : α} (ha : f.get s = some a) (u : α → α)
    (name : Str) (g : Labels → α → ℕ) :
    (f.update s u).tally name g + (if s.name = name then g s.labels a else 0) =
      f.tally name g + (if s.name = name then g s.labels (u a) else 0) := by
  obtain ⟨m, hm, hl⟩ := Option.bind_eq_some_iff.mp ha
  simp only [tally, update, OrderedMap.modify_get]
  by_cases hn : s.name = name
  · subst hn
    simpa [hm] using OrderedMap.modify_total hl u g
  · simp [hn, Ne.symm hn]

end Families

structure MetricsRegistry where
  counters : Families Counter
  histograms : Families Histogram
  counterHelps : OrderedMap Str Str
  histogramHelps : OrderedMap Str Str
  initialized : Bool

/-- The order in which an `unordered_map` is traversed, which the standard leaves open. -/
structure IterationOrder where
  permute : List Str → List Str
  perm (keys : List Str) : (permute keys).Perm keys

def IterationOrder.sorted : IterationOrder := ⟨id, fun _ ↦ .refl _⟩

namespace MetricsRegistry

def empty : MetricsRegistry := ⟨.empty, .empty, .empty, .empty, false⟩

def httpRequests : Str := "http_requests_total".toList
def httpRequestsHelp : Str := "Total number of HTTP requests".toList
def httpDuration : Str := "http_request_duration_seconds".toList
def httpDurationHelp : Str := "HTTP request duration in seconds".toList
def authAttempts : Str := "auth_attempts_total".toList
def authFailures : Str := "auth_failures_total".toList
def authFailuresHelp : Str := "Total number of authentication failures".toList

def durationBuckets : List ℚ :=
  [1 / 100, 25 / 1000, 5 / 100, 1 / 10, 25 / 100, 5 / 10, 1, 25 / 10, 5, 10]

def httpLabels (method path status : Str) : Labels :=
  .ofList [("method".toList, method), ("path".toList, path), ("status".toList, status)]

def methods : List Str := ["GET", "POST", "PUT", "DELETE", "PATCH"].map String.toList

def paths : List Str :=
  ["/", "/metrics", "/api/test-db", "/api/login", "/api/logout", "/api/devices",
    "/api/service-types", "/api/service-history", "/api/service-records"].map String.toList

def statuses : List ℤ := [200, 201, 400, 401, 403, 404, 500]

def expectedLabels : List Labels :=
  methods.flatMap fun method ↦ paths.flatMap fun path ↦ statuses.map fun status ↦
    httpLabels method path (Str.ofInt status)

def initializeMetrics (m : MetricsRegistry) : MetricsRegistry :=
  if m.initialized then m
  else
    let requests := expectedLabels.foldl (fun f l ↦
      f.emplaceSeries ⟨httpRequests, l⟩ (.new httpRequests httpRequestsHelp l)) m.counters
    { counters := Families.emplaceSeries requests ⟨authFailures, .empty⟩
        (.new authFailures authFailuresHelp .empty)
      histograms := m.histograms.emplaceSeries ⟨httpDuration, .empty⟩
        (.new httpDuration httpDurationHelp durationBuckets .empty)
      counterHelps := (m.counterHelps.assign httpRequests httpRequestsHelp).assign
        authFailures authFailuresHelp
      histogramHelps := m.histogramHelps.assign httpDuration httpDurationHelp
      initialized := true }

/-- The look-up shared by `getCounter` and `getHistogram`: find the family, then the
labels, and create what is missing. -/
def findOrCreate {α : Type} (f : Families α) (name : Str) (labels : Labels) (fresh : α) :
    Families α :=
  match f.get? name with
  | none => f.assign name (.emplace .empty labels fresh)
  | some metricMap =>
    match metricMap.get? labels with
    | none => f.assign name (metricMap.emplace labels fresh)
    | some _ => f

def storeHelp (helps : OrderedMap Str Str) (name help : Str) : OrderedMap Str Str :=
  if help = [] then helps else helps.assign name help

def getCounter (m : MetricsRegistry) (name help : Str) (labels : Labels) :
    SeriesKey × MetricsRegistry :=
  (⟨name, labels⟩,
    { m with
      counterHelps := storeHelp m.counterHelps name help
      counters := findOrCreate m.counters name labels (.new name help labels) })

def getHistogram (m : MetricsRegistry) (name help : Str) (buckets : List ℚ) (labels : Labels) :
    SeriesKey × MetricsRegistry :=
  (⟨name, labels⟩,
    { m with
      histogramHelps := storeHelp m.histogramHelps name help
      histograms := findOrCreate m.histograms name labels (.new name help buckets labels) })

def increment (m : MetricsRegistry) (s : SeriesKey) : MetricsRegistry :=
  { m with counters := m.counters.update s Counter.increment }

def observe (m : MetricsRegistry) (s : SeriesKey) (value : ℚ) : MetricsRegistry :=
  { m with histograms := m.histograms.update s (·.observe value) }

def familyText {α : Type} (f : Families α) (helps : OrderedMap Str Str) (kind : Str)
    (formatSeries : α → Str) (name : Str) : Str :=
  formatTypeHelp name ((helps.get? name).getD []) kind ++
    (f.get? name).elim [] (fun labelMap ↦ labelMap.entries.flatMap (fun p ↦ formatSeries p.2))

def format (order : IterationOrder) (m : MetricsRegistry) : Str :=
  (order.permute m.counters.keys).flatMap
      (familyText m.counters m.counterHelps "counter".toList Counter.format) ++
    (order.permute m.histograms.keys).flatMap
      (familyText m.histograms m.histogramHelps "histogram".toList Histogram.format)

theorem emplace_of_present {α : Type} {m : OrderedMap Labels α} {l : Labels} {a : α}
    (h : m.get? l = some a) (fresh : α) : m.emplace l fresh = m := by
  refine OrderedMap.ext_get (fun l' ↦ ?_)
  rw [OrderedMap.emplace_get]
  split_ifs with hl
  · rw [hl, h, Option.getD_some]
  · rfl

theorem findOrCreate_eq {α : Type} (f : Families α) (name : Str) (labels : Labels) (fresh : α) :
    findOrCreate f name labels fresh = f.emplaceSeries ⟨name, labels⟩ fresh := by
  unfold findOrCreate Families.emplaceSeries
  refine OrderedMap.ext_get (fun n ↦ ?_)
  rw [OrderedMap.upsert_get]
  split
  · rename_i hm
    rw [OrderedMap.assign_get, hm, Option.getD_none]
  · rename_i metricMap hm
    rw [hm, Option.getD_some]
    split
    · rw [OrderedMap.assign_get]
    · rename_i a hl
      rw [emplace_of_present hl]
      split_ifs with hn
      · rw [hn, hm]
      · rfl

end MetricsRegistry

end ServiceSystem.Metrics
