import ServiceSystem.Metrics.Keys
import Mathlib.Data.List.Induction

namespace ServiceSystem.Metrics

open Foundations

/-- `class Counter` under `increment(val)`, its double taken as an exact rational. -/
structure ExactCounter where
  name : Str
  help : Str
  labels : Labels
  value : ℚ
  deriving DecidableEq

namespace ExactCounter

def new (name help : Str) (labels : Labels) : ExactCounter := ⟨name, help, labels, 0⟩

def increment (c : ExactCounter) (val : ℚ) : ExactCounter := { c with value := c.value + val }

def key (c : ExactCounter) : SeriesKey := ⟨c.name, c.labels⟩

def line (c : ExactCounter) : Str := c.name ++ c.labels.toString ++ [' '] ++ Str.fixed 0 c.value

def format (c : ExactCounter) : Str := c.line ++ ['\n']

end ExactCounter

/-- `class MetricsRegistry` with counters that any amount may be added to. -/
structure ExactRegistry where
  counters : Families ExactCounter
  histograms : Families Histogram
  counterHelps : OrderedMap Str Str
  histogramHelps : OrderedMap Str Str
  initialized : Bool

namespace ExactRegistry

open MetricsRegistry

def empty : ExactRegistry := ⟨.empty, .empty, .empty, .empty, false⟩

def initializeMetrics (m : ExactRegistry) : ExactRegistry :=
  if m.initialized then m
  else
    let requests := expectedLabels.foldl (fun f l ↦
      f.emplaceSeries ⟨httpRequests, l⟩ (.new httpRequests httpRequestsHelp l)) m.counters
    { counters := Families.emplaceSeries requests ⟨authFailures, .empty⟩
        (.new authFailures authFailuresHelp .empty)
      histograms := m.histograms.emplaceSeries ⟨httpDuration, .empty⟩
        (.new httpDuration httpDurationHelp durationBuckets .empty)
      counterHelps := (m.counterHelps.assign httpRequests httpRequestsHelp).assign
        authFailures authFailuresHelp
      histogramHelps := m.histogramHelps.assign httpDuration httpDurationHelp
      initialized := true }

def getCounter (m : ExactRegistry) (name help : Str) (labels : Labels) : ExactRegistry :=
  { m with
    counterHelps := storeHelp m.counterHelps name help
    counters := findOrCreate m.counters name labels (.new name help labels) }

def getHistogram (m : ExactRegistry) (name help : Str) (buckets : List ℚ) (labels : Labels) :
    ExactRegistry :=
  { m with
    histogramHelps := storeHelp m.histogramHelps name help
    histograms := findOrCreate m.histograms name labels (.new name help buckets labels) }

def increment (m : ExactRegistry) (s : SeriesKey) (val : ℚ) : ExactRegistry :=
  { m with counters := m.counters.update s (·.increment val) }

def observe (m : ExactRegistry) (s : SeriesKey) (value : ℚ) : ExactRegistry :=
  { m with histograms := m.histograms.update s (·.observe value) }

def format (order : IterationOrder) (m : ExactRegistry) : Str :=
  (order.permute m.counters.keys).flatMap
      (familyText m.counters m.counterHelps "counter".toList ExactCounter.format) ++
    (order.permute m.histograms.keys).flatMap
      (familyText m.histograms m.histogramHelps "histogram".toList Histogram.format)

end ExactRegistry

/-- A call on the registry, or on a series through the reference that a call has returned. -/
inductive RegistryOp
  | initializeMetrics
  | getCounter (name help : Str) (labels : Labels)
  | getHistogram (name help : Str) (buckets : List ℚ) (labels : Labels)
  | increment (s : SeriesKey) (val : ℚ)
  | observe (s : SeriesKey) (value : ℚ)

namespace RegistryOp

def exec (m : ExactRegistry) : RegistryOp → ExactRegistry
  | initializeMetrics => m.initializeMetrics
  | getCounter name help labels => m.getCounter name help labels
  | getHistogram name help buckets labels => m.getHistogram name help buckets labels
  | increment s val => m.increment s val
  | observe s value => m.observe s value

def run (m : ExactRegistry) (ops : List RegistryOp) : ExactRegistry := ops.foldl exec m

theorem run_append (m : ExactRegistry) (ops ops' : List RegistryOp) :
    run m (ops ++ ops') = run (run m ops) ops' := List.foldl_append

/-- `getCounter` followed by `increment()`. -/
def raise (name help : Str) (labels : Labels) : List RegistryOp :=
  [getCounter name help labels, increment ⟨name, labels⟩ 1]

end RegistryOp

open MetricsRegistry RegistryOp in
/-- The calls that `initialize`, `format` and a `record*` function come down to. -/
def Call.steps : Call → List RegistryOp
  | .initializeMetrics => [.initializeMetrics]
  | .recordHttpRequest method path status d =>
    raise httpRequests httpRequestsHelp (httpLabels method path (Str.ofInt status)) ++
      [.getHistogram httpDuration httpDurationHelp durationBuckets .empty,
        .observe ⟨httpDuration, .empty⟩ d]
  | .recordDbOperation operation success =>
    raise dbOperations "Total number of database operations".toList (dbLabels operation success)
  | .recordAuthAttempt username success =>
    raise authAttempts "Total number of authentication attempts".toList
      (authLabels username success) ++
        if success then [] else raise authFailures authFailuresHelp .empty
  | .recordDeviceOperation operation id success =>
    raise deviceOperations "Total number of device operations".toList
      (deviceLabels operation id success)
  | .recordServiceOperation operation id success =>
    raise serviceOperations "Total number of service operations".toList
      (serviceLabels operation id success)
  | .format => []

section Exact

variable {α β : Type} (g : α → β) (f : Families α)

/-- The families with each entry replaced. -/
def Families.replace : Families β := f.map (·.map g)

theorem Families.replace_keys : (f.replace g).keys = f.keys := f.map_keys _

theorem Families.replace_emplaceSeries (s : SeriesKey) (fresh : α) :
    (f.emplaceSeries s fresh).replace g = (f.replace g).emplaceSeries s (g fresh) := by
  refine OrderedMap.ext_get (fun name ↦ ?_)
  rw [replace, OrderedMap.map_get, emplaceSeries, emplaceSeries, OrderedMap.upsert_get,
    OrderedMap.upsert_get, replace, OrderedMap.map_get]
  split_ifs with hn
  · refine congrArg some (OrderedMap.ext_get (fun l ↦ ?_))
    rw [OrderedMap.map_get, OrderedMap.emplace_get, OrderedMap.emplace_get]
    cases f.get? s.name with
    | none => split_ifs <;> rfl
    | some m =>
      simp only [Option.map_some, Option.getD_some, OrderedMap.map_get]
      split_ifs
      · cases m.get? s.labels <;> rfl
      · rfl
  · exact (OrderedMap.map_get ..).symm

theorem Families.replace_update {u : α → α} {v : β → β} (h : ∀ a, g (u a) = v (g a))
    (s : SeriesKey) : (f.update s u).replace g = (f.replace g).update s v := by
  refine OrderedMap.ext_get (fun name ↦ ?_)
  rw [replace, OrderedMap.map_get, update, update, OrderedMap.modify_get, OrderedMap.modify_get,
    replace, OrderedMap.map_get, OrderedMap.map_get]
  split_ifs with hn
  · cases f.get? s.name with
    | none => rfl
    | some m =>
      refine congrArg some (OrderedMap.ext_get (fun l ↦ ?_))
      simp only [OrderedMap.map_get, OrderedMap.modify_get]
      split_ifs
      · cases m.get? s.labels with
        | none => rfl
        | some a => exact congrArg some (h a)
      · rfl
  · rfl

end Exact

def Counter.exact (c : Counter) : ExactCounter := ⟨c.name, c.help, c.labels, c.value⟩

namespace MetricsRegistry

def exact (m : MetricsRegistry) : ExactRegistry where
  counters := m.counters.replace Counter.exact
  histograms := m.histograms
  counterHelps := m.counterHelps
  histogramHelps := m.histogramHelps
  initialized := m.initialized

variable (m : MetricsRegistry)

theorem exact_new (name help : Str) (labels : Labels) :
    (Counter.new name help labels).exact = .new name help labels := by
  rw [Counter.exact, Counter.new, Nat.cast_zero]
  rfl

theorem exact_initializeMetrics : m.initializeMetrics.exact = m.exact.initializeMetrics := by
  have hfold (labels : List Labels) (f : Families Counter) :
      (labels.foldl (fun f l ↦ f.emplaceSeries ⟨httpRequests, l⟩
        (.new httpRequests httpRequestsHelp l)) f).replace Counter.exact =
      labels.foldl (fun f l ↦ Families.emplaceSeries f ⟨httpRequests, l⟩
        (.new httpRequests httpRequestsHelp l)) (f.replace Counter.exact) := by
    induction labels generalizing f with
    | nil => rfl
    | cons l labels ih =>
      rw [List.foldl_cons, List.foldl_cons, ih, Families.replace_emplaceSeries, exact_new]
  rw [initializeMetrics, ExactRegistry.initializeMetrics]
  by_cases h : m.initialized = true
  · rw [if_pos h, if_pos (show m.exact.initialized = true from h)]
  · rw [if_neg h, if_neg (show ¬ m.exact.initialized = true from h)]
    simp only [exact, Families.replace_emplaceSeries, hfold, exact_new]

theorem exact_getCounter (name help : Str) (labels : Labels) :
    (m.getCounter name help labels).2.exact = m.exact.getCounter name help labels := by
  simp only [getCounter, exact, ExactRegistry.getCounter, findOrCreate_eq,
    Families.replace_emplaceSeries, exact_new]

theorem exact_increment (s : SeriesKey) : (m.increment s).exact = m.exact.increment s 1 := by
  have h (c : Counter) : c.increment.exact = c.exact.increment 1 := by
    rw [Counter.exact, Counter.increment, Nat.cast_succ]
    rfl
  rw [increment, exact,
    Families.replace_update Counter.exact _ (v := (ExactCounter.increment · 1)) h]
  rfl

theorem exact_raise (name help : Str) (labels : Labels) :
    (((m.getCounter name help labels).2).increment ⟨name, labels⟩).exact =
      RegistryOp.run m.exact (RegistryOp.raise name help labels) := by
  rw [exact_increment, exact_getCounter]
  rfl

/-- The registry that the service itself uses does what the exact one does. -/
theorem exact_perform (order : IterationOrder) (call : Call) :
    (perform order m call).exact = RegistryOp.run m.exact call.steps := by
  cases call with
  | initializeMetrics => exact m.exact_initializeMetrics
  | format =>
    rw [perform_format]
    rfl
  | recordHttpRequest method path status d =>
    rw [Call.steps, RegistryOp.run_append, ← exact_raise]
    rfl
  | recordDbOperation operation success => exact exact_raise ..
  | recordDeviceOperation operation id success => exact exact_raise ..
  | recordServiceOperation operation id success => exact exact_raise ..
  | recordAuthAttempt username success =>
    cases success with
    | true => exact exact_raise ..
    | false =>
      rw [Call.steps, RegistryOp.run_append, ← exact_raise]
      exact exact_raise ..

theorem exact_format (order : IterationOrder) : m.exact.format order = m.format order := by
  have htext (name : Str) : familyText m.exact.counters m.counterHelps "counter".toList
      ExactCounter.format name =
        familyText m.counters m.counterHelps "counter".toList Counter.format name := by
    rw [familyText, familyText, exact, Families.replace, OrderedMap.map_get]
    cases m.counters.get? name with
    | none => rfl
    | some labelMap =>
      rw [Option.map_some, Option.elim_some, Option.elim_some, OrderedMap.map, List.flatMap_map]
      rfl
  rw [ExactRegistry.format, format, show m.exact.counters.keys = m.counters.keys from
    Families.replace_keys ..]
  exact congrArg (· ++ _) (List.flatMap_congr (fun name _ ↦ htext name))

end MetricsRegistry

/-- Every entry carries the name and the labels that it is stored under. -/
structure ExactRegistry.KeysMatch (m : ExactRegistry) : Prop where
  counters : m.counters.Keyed ExactCounter.key
  histograms : m.histograms.Keyed Histogram.key

namespace RegistryOp

def raised (s : SeriesKey) : RegistryOp → Option ℚ
  | increment s' val => if s' = s then some val else none
  | _ => none

def observed (s : SeriesKey) : RegistryOp → Option ℚ
  | observe s' value => if s' = s then some value else none
  | _ => none

/-- Every entry of `m` is still there in `m'`, as the increments and observations among `ops`
have left it. -/
structure Keeps (m m' : ExactRegistry) (ops : List RegistryOp) : Prop where
  counters : ∀ s c, m.counters.get s = some c →
    m'.counters.get s = some ((ops.filterMap (raised s)).foldl ExactCounter.increment c)
  histograms : ∀ s h, m.histograms.get s = some h →
    m'.histograms.get s = some ((ops.filterMap (observed s)).foldl Histogram.observe h)

variable {m : ExactRegistry}

theorem emplaceSeries_kept {α : Type} {f : Families α} {s : SeriesKey} {a : α}
    (h : f.get s = some a) (s' : SeriesKey) (fresh : α) :
    (f.emplaceSeries s' fresh).get s = some a := by
  rw [Families.emplaceSeries_get]
  split_ifs with hs
  · rw [← hs, h, Option.getD_some]
  · exact h

theorem initializeMetrics_keysMatch (h : m.KeysMatch) : m.initializeMetrics.KeysMatch := by
  unfold ExactRegistry.initializeMetrics
  split_ifs
  · exact h
  · refine ⟨Families.Keyed.emplaceSeries ?_ rfl, h.histograms.emplaceSeries rfl⟩
    exact List.foldlRecOn (motive := Families.Keyed ExactCounter.key) MetricsRegistry.expectedLabels
      _ h.counters (fun f hf l _ ↦ hf.emplaceSeries rfl)

theorem exec_keysMatch (op : RegistryOp) (h : m.KeysMatch) : (op.exec m).KeysMatch := by
  cases op with
  | initializeMetrics => exact initializeMetrics_keysMatch h
  | getCounter name help labels =>
    refine ⟨?_, h.histograms⟩
    rw [exec, ExactRegistry.getCounter, MetricsRegistry.findOrCreate_eq]
    exact h.counters.emplaceSeries rfl
  | getHistogram name help buckets labels =>
    refine ⟨h.counters, ?_⟩
    rw [exec, ExactRegistry.getHistogram, MetricsRegistry.findOrCreate_eq]
    exact h.histograms.emplaceSeries rfl
  | increment s val => exact ⟨h.counters.update fun _ ↦ rfl, h.histograms⟩
  | observe s value => exact ⟨h.counters, h.histograms.update fun _ ↦ rfl⟩

theorem run_keysMatch (ops : List RegistryOp) (h : m.KeysMatch) : (run m ops).KeysMatch :=
  List.foldlRecOn (motive := ExactRegistry.KeysMatch) ops _ h (fun _ hm op _ ↦ op.exec_keysMatch hm)

theorem empty_keysMatch : ExactRegistry.empty.KeysMatch where
  counters _ _ h := by cases h
  histograms _ _ h := by cases h

theorem initializeMetrics_keeps (m : ExactRegistry) :
    Keeps m m.initializeMetrics [initializeMetrics] := by
  unfold ExactRegistry.initializeMetrics
  split_ifs
  · exact ⟨fun _ _ h ↦ h, fun _ _ h ↦ h⟩
  · refine ⟨fun s c h ↦ emplaceSeries_kept ?_ _ _, fun s x h ↦ emplaceSeries_kept h _ _⟩
    exact List.foldlRecOn (motive := fun f : Families ExactCounter ↦ f.get s = some c)
      MetricsRegistry.expectedLabels _ h (fun f hf l _ ↦ emplaceSeries_kept hf _ _)

theorem exec_keeps (op : RegistryOp) (m : ExactRegistry) : Keeps m (op.exec m) [op] := by
  cases op with
  | initializeMetrics => exact initializeMetrics_keeps m
  | getCounter name help labels =>
    refine ⟨fun s c h ↦ ?_, fun _ _ h ↦ h⟩
    rw [exec, ExactRegistry.getCounter, MetricsRegistry.findOrCreate_eq]
    exact emplaceSeries_kept h _ _
  | getHistogram name help buckets labels =>
    refine ⟨fun _ _ h ↦ h, fun s x h ↦ ?_⟩
    rw [exec, ExactRegistry.getHistogram, MetricsRegistry.findOrCreate_eq]
    exact emplaceSeries_kept h _ _
  | increment s' val =>
    refine ⟨fun s c h ↦ ?_, fun _ _ h ↦ h⟩
    rw [exec, ExactRegistry.increment, Families.update_get, List.filterMap_cons, raised]
    by_cases hs : s = s'
    · rw [if_pos hs, if_pos hs.symm, ← hs, h]
      rfl
    · rw [if_neg hs, if_neg (Ne.symm hs), h]
      rfl
  | observe s' value =>
    refine ⟨fun _ _ h ↦ h, fun s x h ↦ ?_⟩
    rw [exec, ExactRegistry.observe, Families.update_get, List.filterMap_cons, observed]
    by_cases hs : s = s'
    · rw [if_pos hs, if_pos hs.symm, ← hs, h]
      rfl
    · rw [if_neg hs, if_neg (Ne.symm hs), h]
      rfl

theorem run_keeps (ops : List RegistryOp) (m : ExactRegistry) : Keeps m (run m ops) ops := by
  induction ops using List.reverseRecOn with
  | nil => exact ⟨fun _ _ h ↦ h, fun _ _ h ↦ h⟩
  | append_singleton ops op ih =>
    have hop := op.exec_keeps (run m ops)
    rw [run_append]
    refine ⟨fun s c h ↦ ?_, fun s x h ↦ ?_⟩
    · rw [List.filterMap_append, List.foldl_append]
      exact hop.counters s _ (ih.counters s c h)
    · rw [List.filterMap_append, List.foldl_append]
      exact hop.histograms s _ (ih.histograms s x h)

end RegistryOp

end ServiceSystem.Metrics
