import ServiceSystem.Metrics.Operations

namespace ServiceSystem.Metrics

open Foundations

namespace Families

variable {α : Type}

def Keyed (key : α → SeriesKey) (f : Families α) : Prop := ∀ s a, f.get s = some a → key a = s

variable {key : α → SeriesKey} {f : Families α} {s : SeriesKey}

theorem Keyed.emplaceSeries (h : f.Keyed key) {fresh : α} (hfresh : key fresh = s) :
    (f.emplaceSeries s fresh).Keyed key := by
  intro s' a ha
  rw [emplaceSeries_get] at ha
  split_ifs at ha with hs
  · obtain ⟨rfl⟩ := ha
    subst hs
    cases hold : f.get s' with
    | none => exact hfresh
    | some a => exact h s' a hold
  · exact h s' a ha

theorem Keyed.update (h : f.Keyed key) {u : α → α} (hu : ∀ a, key (u a) = key a) :
    (f.update s u).Keyed key := by
  intro s' a ha
  rw [update_get] at ha
  split_ifs at ha with hs
  · subst hs
    obtain ⟨b, hb, rfl⟩ := Option.map_eq_some_iff.mp ha
    rw [hu]
    exact h s' b hb
  · exact h s' a ha

end Families

def Counter.key (c : Counter) : SeriesKey := ⟨c.name, c.labels⟩

def Histogram.key (h : Histogram) : SeriesKey := ⟨h.name, h.labels⟩

namespace MetricsRegistry

structure Keyed (m : MetricsRegistry) : Prop where
  counters : m.counters.Keyed Counter.key
  histograms : m.histograms.Keyed Histogram.key

namespace Keyed

variable {m : MetricsRegistry}

theorem empty : Keyed .empty where
  counters _ _ h := by cases h
  histograms _ _ h := by cases h

theorem initializeMetrics (h : Keyed m) : Keyed m.initializeMetrics := by
  unfold MetricsRegistry.initializeMetrics
  split_ifs
  · exact h
  · refine ⟨Families.Keyed.emplaceSeries ?_ rfl, h.histograms.emplaceSeries rfl⟩
    exact List.foldlRecOn (motive := Families.Keyed Counter.key) expectedLabels _ h.counters
      (fun f hf l _ ↦ hf.emplaceSeries rfl)

theorem exec (order : IterationOrder) (op : Op) (s : Shared) (h : Keyed s.registry) :
    Keyed (Metrics.exec order op s).2.registry := by
  cases op with
  | initializeMetrics => exact h.initializeMetrics
  | getCounter name help labels =>
    refine ⟨?_, h.histograms⟩
    rw [Metrics.exec, MetricsRegistry.getCounter, findOrCreate_eq]
    exact h.counters.emplaceSeries rfl
  | getHistogram name help buckets labels =>
    refine ⟨h.counters, ?_⟩
    rw [Metrics.exec, MetricsRegistry.getHistogram, findOrCreate_eq]
    exact h.histograms.emplaceSeries rfl
  | increment k => exact ⟨h.counters.update fun _ ↦ rfl, h.histograms⟩
  | observe k v => exact ⟨h.counters, h.histograms.update fun _ ↦ rfl⟩
  | lock | printCounter k | printHistogram k | unlock => exact h

theorem perform (h : Keyed m) (order : IterationOrder) (call : Call) :
    Keyed (Metrics.perform order m call) :=
  Program.run_preserves (P := fun s : Shared ↦ Keyed s.registry) (exec order) (code call) h

end Keyed

end MetricsRegistry

end ServiceSystem.Metrics
