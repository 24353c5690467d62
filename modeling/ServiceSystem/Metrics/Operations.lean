import ServiceSystem.Metrics.Registry
import ServiceSystem.Foundations.Interleaving

namespace ServiceSystem.Metrics

open Foundations Program MetricsRegistry

/-- What `format` still has to print once it holds the registry mutex. -/
inductive Item
  | typeHelp (text : Str)
  | counter (s : SeriesKey)
  | histogram (s : SeriesKey)
  deriving DecidableEq

/-- What `format` has printed: comments, and series as it found them. -/
inductive Printed
  | typeHelp (text : Str)
  | counter (s : SeriesKey) (c : Counter)
  | histogram (s : SeriesKey) (h : Histogram)
  deriving DecidableEq

def Printed.text : Printed → Str
  | .typeHelp text => text
  | .counter _ c => c.format
  | .histogram _ h => h.format

def Printed.item : Printed → Item
  | .typeHelp text => .typeHelp text
  | .counter s _ => .counter s
  | .histogram s _ => .histogram s

/-- The sections that one mutex protects, each an atomic step. `format` holds the
registry mutex from `lock` to `unlock`, and a series' own mutex only to print it. -/
inductive Op
  | initializeMetrics
  | getCounter (name help : Str) (labels : Labels)
  | getHistogram (name help : Str) (buckets : List ℚ) (labels : Labels)
  | increment (s : SeriesKey)
  | observe (s : SeriesKey) (value : ℚ)
  | lock
  | printCounter (s : SeriesKey)
  | printHistogram (s : SeriesKey)
  | unlock

abbrev Ans : Op → Type
  | .getCounter .. | .getHistogram .. => SeriesKey
  | .lock => List Item
  | .printCounter _ => Counter
  | .printHistogram _ => Histogram
  | .initializeMetrics | .increment _ | .observe _ _ | .unlock => Unit

structure Shared where
  registry : MetricsRegistry
  locked : Bool

def familyItems {α : Type} (f : Families α) (helps : OrderedMap Str Str) (kind : Str)
    (item : SeriesKey → Item) (name : Str) : List Item :=
  .typeHelp (formatTypeHelp name ((helps.get? name).getD []) kind) ::
    (f.get? name).elim [] (fun labelMap ↦ labelMap.keys.map (fun l ↦ item ⟨name, l⟩))

def layout (order : IterationOrder) (m : MetricsRegistry) : List Item :=
  (order.permute m.counters.keys).flatMap
      (familyItems m.counters m.counterHelps "counter".toList .counter) ++
    (order.permute m.histograms.keys).flatMap
      (familyItems m.histograms m.histogramHelps "histogram".toList .histogram)

def counterAt (m : MetricsRegistry) (s : SeriesKey) : Counter :=
  (m.counters.get s).getD (.new [] [] .empty)

def histogramAt (m : MetricsRegistry) (s : SeriesKey) : Histogram :=
  (m.histograms.get s).getD (.new [] [] [] .empty)

def exec (order : IterationOrder) : ∀ op : Op, Shared → Ans op × Shared
  | .initializeMetrics, s => ((), { s with registry := s.registry.initializeMetrics })
  | .getCounter name help labels, s =>
    ((s.registry.getCounter name help labels).1,
      { s with registry := (s.registry.getCounter name help labels).2 })
  | .getHistogram name help buckets labels, s =>
    ((s.registry.getHistogram name help buckets labels).1,
      { s with registry := (s.registry.getHistogram name help buckets labels).2 })
  | .increment k, s => ((), { s with registry := s.registry.increment k })
  | .observe k v, s => ((), { s with registry := s.registry.observe k v })
  | .lock, s => (layout order s.registry, { s with locked := true })
  | .printCounter k, s => (counterAt s.registry k, s)
  | .printHistogram k, s => (histogramAt s.registry k, s)
  | .unlock, s => ((), { s with locked := false })

/-- Only the registry mutex is held across steps; an initialized registry is left alone
without it. -/
def ready : Op → Shared → Prop
  | .initializeMetrics, s => s.registry.initialized = true ∨ s.locked = false
  | .getCounter .., s | .getHistogram .., s | .lock, s => s.locked = false
  | _, _ => True

instance (op : Op) (s : Shared) : Decidable (ready op s) := by
  cases op <;> unfold ready <;> infer_instance

def ofBool (b : Bool) : Str := if b then "true".toList else "false".toList

def recordHttpRequest (method path : Str) (status : ℤ) (duration_seconds : ℚ) :
    Program Op Ans Unit := do
  let counter ← perform (Op.getCounter httpRequests httpRequestsHelp
    (httpLabels method path (Str.ofInt status)))
  perform (Op.increment counter)
  let histogram ← perform (Op.getHistogram httpDuration httpDurationHelp durationBuckets .empty)
  perform (Op.observe histogram duration_seconds)

def dbOperations : Str := "db_operations_total".toList

def dbLabels (operation : Str) (success : Bool) : Labels :=
  .ofList [("operation".toList, operation), ("success".toList, ofBool success)]

def recordDbOperation (operation : Str) (success : Bool) : Program Op Ans Unit := do
  let counter ← perform (Op.getCounter dbOperations "Total number of database operations".toList
    (dbLabels operation success))
  perform (Op.increment counter)

def authLabels (username : Str) (success : Bool) : Labels :=
  .ofList [("username".toList, username), ("success".toList, ofBool success)]

def recordAuthAttempt (username : Str) (success : Bool) : Program Op Ans Unit := do
  let counter ← perform (Op.getCounter authAttempts "Total number of authentication attempts".toList
    (authLabels username success))
  perform (Op.increment counter)
  if !success then
    let failCounter ← perform (Op.getCounter authFailures authFailuresHelp .empty)
    perform (Op.increment failCounter)

def deviceOperations : Str := "device_operations_total".toList

def deviceLabels (operation : Str) (device_id : ℤ) (success : Bool) : Labels :=
  .ofList [("operation".toList, operation), ("device_id".toList, Str.ofInt device_id),
    ("success".toList, ofBool success)]

def recordDeviceOperation (operation : Str) (device_id : ℤ) (success : Bool) :
    Program Op Ans Unit := do
  let counter ← perform (Op.getCounter deviceOperations "Total number of device operations".toList
    (deviceLabels operation device_id success))
  perform (Op.increment counter)

def serviceOperations : Str := "service_operations_total".toList

def serviceLabels (operation : Str) (record_id : ℤ) (success : Bool) : Labels :=
  .ofList [("operation".toList, operation), ("record_id".toList, Str.ofInt record_id),
    ("success".toList, ofBool success)]

def recordServiceOperation (operation : Str) (record_id : ℤ) (success : Bool) :
    Program Op Ans Unit := do
  let counter ← perform (Op.getCounter serviceOperations "Total number of service operations".toList
    (serviceLabels operation record_id success))
  perform (Op.increment counter)

theorem ne_authFailures : httpRequests ≠ authFailures ∧ dbOperations ≠ authFailures ∧
    authAttempts ≠ authFailures ∧ deviceOperations ≠ authFailures ∧
    serviceOperations ≠ authFailures := by decide

def printItems (printed : List Printed) : List Item → Program Op Ans (List Printed)
  | [] => .call .unlock (fun _ ↦ .ret printed)
  | .typeHelp text :: items => printItems (printed ++ [.typeHelp text]) items
  | .counter s :: items =>
    .call (.printCounter s) (fun c ↦ printItems (printed ++ [.counter s c]) items)
  | .histogram s :: items =>
    .call (.printHistogram s) (fun h ↦ printItems (printed ++ [.histogram s h]) items)

def formatProgram : Program Op Ans (List Printed) := .call .lock (printItems [])

inductive Call
  | initializeMetrics
  | recordHttpRequest (method path : Str) (status : ℤ) (duration_seconds : ℚ)
  | recordDbOperation (operation : Str) (success : Bool)
  | recordAuthAttempt (username : Str) (success : Bool)
  | recordDeviceOperation (operation : Str) (device_id : ℤ) (success : Bool)
  | recordServiceOperation (operation : Str) (record_id : ℤ) (success : Bool)
  | format
  deriving DecidableEq

def noReply (p : Program Op Ans Unit) : Program Op Ans (List Printed) := p >>= fun _ ↦ pure []

def code : Call → Program Op Ans (List Printed)
  | .initializeMetrics => noReply (perform Op.initializeMetrics)
  | .recordHttpRequest method path status d =>
    noReply (Metrics.recordHttpRequest method path status d)
  | .recordDbOperation operation success => noReply (Metrics.recordDbOperation operation success)
  | .recordAuthAttempt username success => noReply (Metrics.recordAuthAttempt username success)
  | .recordDeviceOperation operation id success =>
    noReply (Metrics.recordDeviceOperation operation id success)
  | .recordServiceOperation operation id success =>
    noReply (Metrics.recordServiceOperation operation id success)
  | .format => formatProgram

def perform (order : IterationOrder) (m : MetricsRegistry) (call : Call) : MetricsRegistry :=
  ((code call).run (exec order) ⟨m, false⟩).2.registry

def system (order : IterationOrder) : System Call Op Ans (List Printed) Shared :=
  ⟨code, ready, exec order⟩

instance (order : IterationOrder) (op : Op) (s : Shared) : Decidable ((system order).ready op s) :=
  inferInstanceAs (Decidable (ready op s))

def printItem (m : MetricsRegistry) : Item → Printed
  | .typeHelp text => .typeHelp text
  | .counter s => .counter s (counterAt m s)
  | .histogram s => .histogram s (histogramAt m s)

theorem printItems_run (order : IterationOrder) (m : MetricsRegistry) (printed : List Printed)
    (items : List Item) :
    (printItems printed items).run (exec order) ⟨m, true⟩ =
      (printed ++ items.map (printItem m), ⟨m, false⟩) := by
  induction items generalizing printed with
  | nil => simp [printItems, exec]
  | cons item items ih =>
    cases item with
    | typeHelp text =>
      have h := ih (printed ++ [.typeHelp text])
      rwa [List.append_assoc] at h
    | counter s =>
      have h := ih (printed ++ [.counter s (counterAt m s)])
      rwa [List.append_assoc] at h
    | histogram s =>
      have h := ih (printed ++ [.histogram s (histogramAt m s)])
      rwa [List.append_assoc] at h

theorem perform_format (order : IterationOrder) (m : MetricsRegistry) :
    perform order m .format = m := by
  simp [perform, code, formatProgram, exec, printItems_run]

theorem familyItems_text {α : Type} (m : MetricsRegistry) (f : Families α)
    (helps : OrderedMap Str Str) (kind : Str) (item : SeriesKey → Item) (formatSeries : α → Str)
    (h : ∀ s a, f.get s = some a → (printItem m (item s)).text = formatSeries a) (name : Str) :
    (familyItems f helps kind item name).flatMap (fun i ↦ (printItem m i).text) =
      familyText f helps kind formatSeries name := by
  rw [familyItems, familyText, List.flatMap_cons]
  congr 1
  cases hm : f.get? name with
  | none => rfl
  | some labelMap =>
    simp only [Option.elim_some, OrderedMap.keys, List.map_map, List.flatMap_map]
    refine List.flatMap_congr (fun p hp ↦ h ⟨name, p.1⟩ p.2 ?_)
    simp only [Families.get, hm, Option.bind_some]
    exact OrderedMap.mem_entries.mp hp

/-- Run alone, `format` prints the document of the registry as it stands. -/
theorem formatProgram_run (order : IterationOrder) (m : MetricsRegistry) :
    (formatProgram.run (exec order) ⟨m, false⟩).1.flatMap Printed.text = m.format order := by
  have hrun : (formatProgram.run (exec order) ⟨m, false⟩).1 =
      (layout order m).map (printItem m) := by
    simp [formatProgram, exec, printItems_run]
  have hc : ∀ s a, m.counters.get s = some a → (printItem m (.counter s)).text = a.format :=
    fun s a ha ↦ by simp [printItem, Printed.text, counterAt, ha]
  have hh : ∀ s a, m.histograms.get s = some a → (printItem m (.histogram s)).text = a.format :=
    fun s a ha ↦ by simp [printItem, Printed.text, histogramAt, ha]
  rw [hrun, List.flatMap_map, layout, List.flatMap_append, List.flatMap_assoc, List.flatMap_assoc,
    MetricsRegistry.format]
  simp only [familyItems_text m m.counters _ _ _ _ hc, familyItems_text m m.histograms _ _ _ _ hh]

end ServiceSystem.Metrics
