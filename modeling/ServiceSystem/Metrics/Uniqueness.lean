import ServiceSystem.Metrics.Buckets
import ServiceSystem.Metrics.Printing
import Mathlib.Data.Finset.Dedup
import Mathlib.Data.Finset.Insert
import Mathlib.Data.List.Pairwise

namespace ServiceSystem.Metrics

open Foundations Exposition

abbrev SampleId := Str × Finset (Str × Str)

/-- What a line of the scrape is about. -/
inductive Mark
  | type (name : Str)
  | help (name : Str)
  | sample (id : SampleId)
  deriving DecidableEq

namespace Mark

def typeName : Mark → Option Str
  | .type name => some name
  | _ => none

def sampleId : Mark → Option SampleId
  | .sample id => some id
  | _ => none

end Mark

namespace Labels

def set (l : Labels) : Finset (Str × Str) := l.labels.entries.toFinset

theorem set_injective {l l' : Labels} (h : l.set = l'.set) : l = l' := by
  have hmem (p : Str × Str) : p ∈ l.labels.entries ↔ p ∈ l'.labels.entries := by
    have hp := Finset.ext_iff.mp h p
    rwa [set, set, List.mem_toFinset, List.mem_toFinset] at hp
  cases l
  cases l'
  refine congrArg Labels.mk (OrderedMap.ext_get (fun k ↦ Option.ext (fun v ↦ ?_)))
  rw [← OrderedMap.mem_entries, ← OrderedMap.mem_entries]
  exact hmem (k, v)

end Labels

def counterId (s : SeriesKey) : SampleId := (s.name, s.labels.set)

def bucketId (s : SeriesKey) (le : Str) : SampleId :=
  (s.name ++ "_bucket".toList, insert ("le".toList, le) s.labels.set)

def sumId (s : SeriesKey) : SampleId := (s.name ++ "_sum".toList, s.labels.set)

def countId (s : SeriesKey) : SampleId := (s.name ++ "_count".toList, s.labels.set)

def printedBounds (buckets : List ℚ) : List Str := buckets.map (Str.fixed 4) ++ ["+Inf".toList]

def histogramIds (s : SeriesKey) (buckets : List ℚ) : List SampleId :=
  (printedBounds buckets).map (bucketId s) ++ [sumId s, countId s]

def Counter.marks (c : Counter) : List (Str × Mark) :=
  [(c.line, .sample (counterId ⟨c.name, c.labels⟩))]

def Histogram.marks (h : Histogram) : List (Str × Mark) :=
  h.lines.zip ((histogramIds ⟨h.name, h.labels⟩ h.buckets).map .sample)

namespace MetricsRegistry

section Families

variable {α : Type}

def familyMarks (f : Families α) (helps : OrderedMap Str Str) (kind : Str)
    (marks : α → List (Str × Mark)) (name : Str) : List (Str × Mark) :=
  (typeHelpLines name ((helps.get? name).getD []) kind).zip [.type name, .help name] ++
    (f.get? name).elim [] (fun labelMap ↦ labelMap.entries.flatMap (fun p ↦ marks p.2))

end Families

/-- The lines of a scrape, each with what it is about. -/
def marks (order : IterationOrder) (m : MetricsRegistry) : List (Str × Mark) :=
  (order.permute m.counters.keys).flatMap
      (familyMarks m.counters m.counterHelps "counter".toList Counter.marks) ++
    (order.permute m.histograms.keys).flatMap
      (familyMarks m.histograms m.histogramHelps "histogram".toList Histogram.marks)

def typeNames (order : IterationOrder) (m : MetricsRegistry) : List Str :=
  (m.marks order).filterMap (·.2.typeName)

def sampleIds (order : IterationOrder) (m : MetricsRegistry) : List SampleId :=
  (m.marks order).filterMap (·.2.sampleId)

structure Unique (order : IterationOrder) (m : MetricsRegistry) : Prop where
  types : (m.typeNames order).Nodup
  samples : (m.sampleIds order).Nodup

end MetricsRegistry

theorem Counter.format_eq_marks (c : Counter) : c.format = c.marks.flatMap (·.1 ++ ['\n']) := by
  simp [format, marks]

theorem Histogram.map_marks (h : Histogram) : h.marks.map Prod.fst = h.lines ∧
    h.marks.map Prod.snd = (histogramIds ⟨h.name, h.labels⟩ h.buckets).map .sample := by
  have hlen : h.lines.length =
      ((histogramIds ⟨h.name, h.labels⟩ h.buckets).map Mark.sample).length := by
    simp [lines_eq, bucketLines, histogramIds, printedBounds]
  exact ⟨List.map_fst_zip hlen.le, List.map_snd_zip hlen.ge⟩

theorem Histogram.marks_eq (h : Histogram) : h.marks =
    h.buckets.map (fun b ↦ (h.bucketLine (Str.fixed 4 b) (atMost h.values b),
      .sample (bucketId ⟨h.name, h.labels⟩ (Str.fixed 4 b)))) ++
    [(h.bucketLine "+Inf".toList h.count, .sample (bucketId ⟨h.name, h.labels⟩ "+Inf".toList)),
      (h.name ++ "_sum".toList ++ h.labels.toString ++ [' '] ++ Str.fixed 6 h.sum,
        .sample (sumId ⟨h.name, h.labels⟩)),
      (h.name ++ "_count".toList ++ h.labels.toString ++ [' '] ++ Str.ofNat h.count,
        .sample (countId ⟨h.name, h.labels⟩))] := by
  have hids : (histogramIds ⟨h.name, h.labels⟩ h.buckets).map Mark.sample =
      h.buckets.map (fun b ↦ .sample (bucketId ⟨h.name, h.labels⟩ (Str.fixed 4 b))) ++
        [.sample (bucketId ⟨h.name, h.labels⟩ "+Inf".toList), .sample (sumId ⟨h.name, h.labels⟩),
          .sample (countId ⟨h.name, h.labels⟩)] := by
    simp [histogramIds, printedBounds, Function.comp_def]
  rw [marks, lines_eq, bucketLines, hids, List.zip_append (by simp), List.zip_map']
  rfl

theorem line_series {name v : Str} {ls : List (Str × Str)} {x : Value}
    (hname : ValidName isNameChar name) (h : Readable ls) (hn : (ls.map Prod.fst).Nodup)
    (hblank : ∀ c ∈ v, isBlank c = false ∧ c ≠ '\n') (hv : value v = some x) :
    line (name ++ labelsText ls ++ [' '] ++ v) = some (.sample ⟨name, ls, x, none⟩) := by
  have hs := sample_append hname h hn (fun c hc ↦ (hblank c hc).1) hv
  rw [List.append_assoc, List.singleton_append]
  exact line_sample hs

/-- Wherever the text of a counter or histogram line can be read, its mark is what is read. -/
def MarksRead (marks : List (Str × Mark)) : Prop :=
  ∀ p ∈ marks, ∀ s, Exposition.line p.1 = some (.sample s) →
    p.2 = .sample (s.name, s.labels.toFinset)

theorem Counter.marks_read {c : Counter} (hn : ValidName isNameChar c.name)
    (hl : Readable c.labels.labels.entries) : MarksRead c.marks := by
  intro p hp s hs
  obtain rfl := List.mem_singleton.mp hp
  have hread := line_series hn hl c.labels.labels.keys_nodup (unblank_fixed 0 c.value)
    (value_fixed 0 c.value)
  rw [← Labels.toString_eq] at hread
  rw [Counter.line, hread] at hs
  cases hs
  rfl

theorem Histogram.marks_read {h : Histogram} (hn : ValidName isNameChar h.name)
    (hl : Readable h.labels.labels.entries) : MarksRead h.marks := by
  have hname {suffix : Str} (hs : ∀ c ∈ suffix, isNameChar c = true) :
      ValidName isNameChar (h.name ++ suffix) := validName_append hn hs
  have hdigits (n : ℕ) : ∀ c ∈ Str.ofNat n, isBlank c = false ∧ c ≠ '\n' :=
    fun c hc ↦ unblank_of_isDigit (Str.isDigit_ofNat hc)
  have hbucket {le : Str} (hle : Plain le) (n : ℕ) {s : Sample}
      (hs : Exposition.line (h.bucketLine le n) = some (.sample s)) :
      (.sample (bucketId ⟨h.name, h.labels⟩ le) : Mark) = .sample (s.name, s.labels.toFinset) := by
    have hreadable : Readable (("le".toList, le) :: h.labels.labels.entries) :=
      List.forall_mem_cons.mpr ⟨⟨show ValidName isLabelChar "le".toList by decide, hle⟩, hl⟩
    by_cases hne : h.labels.labels.entries = []
    · have hline : h.bucketLine le n = h.name ++ "_bucket".toList ++
          labelsText [("le".toList, le)] ++ [' '] ++ Str.ofNat n := by
        simp [bucketLine, labelPart, Labels.toString, hne, labelsText, labelText]
      rw [hne] at hreadable
      rw [hline, line_series (hname (by decide)) hreadable (List.nodup_singleton _) (hdigits n)
        (value_ofNat n)] at hs
      cases hs
      simp [bucketId, Labels.set, hne]
    · rw [bucketLine_eq hne, line_closed_twice (hname (by decide)) hreadable
        (List.cons_ne_nil _ _)] at hs
      cases hs
  intro p hp s hs
  rw [Histogram.marks_eq] at hp
  rcases List.mem_append.mp hp with hp | hp
  · obtain ⟨b, -, rfl⟩ := List.mem_map.mp hp
    exact hbucket (plain_fixed 4 b) _ hs
  · simp only [List.mem_cons, List.not_mem_nil, or_false] at hp
    rcases hp with rfl | rfl | rfl
    · exact hbucket (by decide) _ hs
    · rw [Labels.toString_eq, line_series (hname (by decide)) hl h.labels.labels.keys_nodup
        (unblank_fixed 6 h.sum) (value_fixed 6 h.sum)] at hs
      cases hs
      rfl
    · rw [Labels.toString_eq, line_series (hname (by decide)) hl h.labels.labels.keys_nodup
        (hdigits h.count) (value_ofNat h.count)] at hs
      cases hs
      rfl

theorem Histogram.format_eq_marks (h : Histogram) :
    h.format = h.marks.flatMap (·.1 ++ ['\n']) := by
  rw [format, ← h.map_marks.1, List.flatMap_map]

namespace MetricsRegistry

variable {α : Type} (order : IterationOrder)

theorem familyText_eq_marks {f : Families α} {helps : OrderedMap Str Str} {kind : Str}
    {formatSeries : α → Str} {marks : α → List (Str × Mark)}
    (h : ∀ a, formatSeries a = (marks a).flatMap (·.1 ++ ['\n'])) (name : Str) :
    familyText f helps kind formatSeries name =
      (familyMarks f helps kind marks name).flatMap (·.1 ++ ['\n']) := by
  have htype : formatTypeHelp name ((helps.get? name).getD []) kind =
      ((typeHelpLines name ((helps.get? name).getD []) kind).zip
        [Mark.type name, .help name]).flatMap (·.1 ++ ['\n']) := by
    unfold formatTypeHelp typeHelpLines
    split_ifs <;> simp
  rw [familyText, familyMarks, List.flatMap_append, htype]
  cases f.get? name with
  | none => rfl
  | some labelMap =>
    simp only [Option.elim_some, List.flatMap_assoc, h]

theorem format_eq_marks (m : MetricsRegistry) :
    m.format order = (m.marks order).flatMap (·.1 ++ ['\n']) := by
  rw [format, marks, List.flatMap_append, List.flatMap_assoc, List.flatMap_assoc,
    funext (familyText_eq_marks Counter.format_eq_marks),
    funext (familyText_eq_marks Histogram.format_eq_marks)]

/-- The series of a map in the order of the scrape. -/
def seriesList (f : Families α) : List (SeriesKey × α) :=
  (order.permute f.keys).flatMap (fun name ↦ (f.get? name).elim [] (fun labelMap ↦
    labelMap.entries.map (fun p ↦ (⟨name, p.1⟩, p.2))))

theorem mem_seriesList {f : Families α} {s : SeriesKey} {a : α} :
    (s, a) ∈ seriesList order f ↔ f.get s = some a := by
  obtain ⟨name, labels⟩ := s
  rw [seriesList, List.mem_flatMap, Families.get, Option.bind_eq_some_iff]
  constructor
  · rintro ⟨n, -, hn⟩
    cases hf : f.get? n with
    | none => simp [hf] at hn
    | some labelMap =>
      rw [hf, Option.elim_some, List.mem_map] at hn
      obtain ⟨⟨l, b⟩, hp, he⟩ := hn
      simp only [Prod.mk.injEq, SeriesKey.mk.injEq] at he
      obtain ⟨⟨rfl, rfl⟩, rfl⟩ := he
      exact ⟨labelMap, hf, OrderedMap.mem_entries.mp hp⟩
  · rintro ⟨labelMap, hf, hl⟩
    refine ⟨name, (order.perm _).mem_iff.mpr (OrderedMap.mem_keys.mpr (by simp [hf])), ?_⟩
    rw [hf, Option.elim_some, List.mem_map]
    exact ⟨(labels, a), OrderedMap.mem_entries.mpr hl, rfl⟩

theorem seriesList_nodup (f : Families α) : ((seriesList order f).map Prod.fst).Nodup := by
  rw [seriesList, List.map_flatMap, List.nodup_flatMap]
  refine ⟨fun name _ ↦ ?_, ((order.perm _).nodup_iff.mpr f.keys_nodup).imp (fun {n n'} hne ↦ ?_)⟩
  · cases f.get? name with
    | none => exact List.nodup_nil
    | some labelMap =>
      rw [Option.elim_some, List.map_map]
      refine List.pairwise_map.mpr (labelMap.sorted.imp (fun hlt he ↦ ?_))
      exact hlt.ne (SeriesKey.mk.inj he).2
  · have hname {n : Str} {s : SeriesKey} (hs : s ∈ ((f.get? n).elim [] (fun labelMap ↦
        labelMap.entries.map (fun p ↦ ((⟨n, p.1⟩ : SeriesKey), p.2)))).map Prod.fst) :
        s.name = n := by
      cases hf : f.get? n with
      | none => simp [hf] at hs
      | some labelMap =>
        rw [hf, Option.elim_some, List.map_map, List.mem_map] at hs
        obtain ⟨p, -, rfl⟩ := hs
        rfl
    exact fun s hs hs' ↦ hne ((hname hs).symm.trans (hname hs'))

section Reading

variable {f : Families α} {helps : OrderedMap Str Str} {kind : Str} {marks : α → List (Str × Mark)}

theorem familyMarks_typeName (h : ∀ a, (marks a).filterMap (·.2.typeName) = []) (name : Str) :
    (familyMarks f helps kind marks name).filterMap (·.2.typeName) = [name] := by
  have hseries : ((f.get? name).elim [] (fun labelMap ↦
      labelMap.entries.flatMap (fun p ↦ marks p.2))).filterMap (·.2.typeName) = [] := by
    cases f.get? name with
    | none => rfl
    | some labelMap => simp [List.filterMap_flatMap, h]
  rw [familyMarks, List.filterMap_append, hseries]
  unfold typeHelpLines
  split_ifs <;> rfl

theorem familyMarks_sampleId (name : Str) :
    (familyMarks f helps kind marks name).filterMap (·.2.sampleId) =
      (f.get? name).elim [] (fun labelMap ↦
        labelMap.entries.flatMap (fun p ↦ (marks p.2).filterMap (·.2.sampleId))) := by
  have htype : ((typeHelpLines name ((helps.get? name).getD []) kind).zip
      [Mark.type name, .help name]).filterMap (·.2.sampleId) = [] := by
    unfold typeHelpLines
    split_ifs <;> rfl
  rw [familyMarks, List.filterMap_append, htype, List.nil_append]
  cases f.get? name with
  | none => rfl
  | some labelMap => simp only [Option.elim_some, List.filterMap_flatMap]

theorem flatMap_seriesList (ids : α → List SampleId) :
    (order.permute f.keys).flatMap (fun name ↦ (f.get? name).elim [] (fun labelMap ↦
      labelMap.entries.flatMap (fun p ↦ ids p.2))) =
        (seriesList order f).flatMap (fun p ↦ ids p.2) := by
  rw [seriesList, List.flatMap_assoc]
  refine List.flatMap_congr (fun name _ ↦ ?_)
  cases f.get? name with
  | none => rfl
  | some labelMap => simp only [Option.elim_some, List.flatMap_map]

end Reading

theorem histogram_marks (h : Histogram) :
    h.marks.filterMap (·.2.typeName) = [] ∧
      h.marks.filterMap (·.2.sampleId) = histogramIds ⟨h.name, h.labels⟩ h.buckets := by
  have hread {β : Type} (r : Mark → Option β) : h.marks.filterMap (fun p ↦ r p.2) =
      (h.marks.map Prod.snd).filterMap r := by
    rw [List.filterMap_map]
    rfl
  rw [hread Mark.typeName, hread Mark.sampleId, h.map_marks.2, List.filterMap_map,
    List.filterMap_map]
  constructor
  · exact List.filterMap_eq_nil_iff.mpr (fun _ _ ↦ rfl)
  · exact List.filterMap_some

theorem typeNames_eq (m : MetricsRegistry) :
    m.typeNames order = order.permute m.counters.keys ++ order.permute m.histograms.keys := by
  have hcounter (c : Counter) : c.marks.filterMap (·.2.typeName) = [] := rfl
  rw [typeNames, marks, List.filterMap_append, List.filterMap_flatMap, List.filterMap_flatMap,
    funext (familyMarks_typeName hcounter),
    funext (familyMarks_typeName (fun h ↦ (histogram_marks h).1)), List.flatMap_singleton',
    List.flatMap_singleton']

theorem sampleIds_eq (m : MetricsRegistry) : m.sampleIds order =
    (seriesList order m.counters).map (fun p ↦ counterId ⟨p.2.name, p.2.labels⟩) ++
      (seriesList order m.histograms).flatMap
        (fun p ↦ histogramIds ⟨p.2.name, p.2.labels⟩ p.2.buckets) := by
  have hcounter (c : Counter) : c.marks.filterMap (·.2.sampleId) =
      [counterId ⟨c.name, c.labels⟩] := rfl
  rw [sampleIds, marks, List.filterMap_append, List.filterMap_flatMap, List.filterMap_flatMap,
    funext familyMarks_sampleId, funext familyMarks_sampleId,
    flatMap_seriesList order (fun c : Counter ↦ c.marks.filterMap (·.2.sampleId)),
    flatMap_seriesList order (fun h : Histogram ↦ h.marks.filterMap (·.2.sampleId))]
  simp only [hcounter, (histogram_marks _).2, List.map_eq_flatMap]

end MetricsRegistry

inductive Registration
  | counter (name help : Str) (labels : Labels)
  | histogram (name help : Str) (buckets : List ℚ) (labels : Labels)

namespace Registration

def apply (m : MetricsRegistry) : Registration → MetricsRegistry
  | .counter name help labels => (m.getCounter name help labels).2
  | .histogram name help buckets labels => (m.getHistogram name help buckets labels).2

def counterKey : Registration → Option SeriesKey
  | .counter name _ labels => some ⟨name, labels⟩
  | .histogram .. => none

def bucketsFor (s : SeriesKey) : Registration → Option (List ℚ)
  | .counter .. => none
  | .histogram name _ buckets labels => if ⟨name, labels⟩ = s then some buckets else none

end Registration

def registered (rs : List Registration) : MetricsRegistry := rs.foldl Registration.apply .empty

def counterKeys (rs : List Registration) : List SeriesKey := rs.filterMap Registration.counterKey

/-- Only the first registration of a histogram series sets its buckets. -/
def firstBuckets (rs : List Registration) (s : SeriesKey) : Option (List ℚ) :=
  rs.findSome? (Registration.bucketsFor s)

/-- No counter shares its name with a histogram or is one of the samples that a histogram
generates, the bounds of a series stay apart when they are printed, and the label sets of two
series of one histogram stay apart when `le` is added. -/
structure Separate (rs : List Registration) : Prop where
  families : ∀ c ∈ counterKeys rs, ∀ s b, firstBuckets rs s = some b → c.name ≠ s.name
  suffixes : ∀ c ∈ counterKeys rs, ∀ s b, firstBuckets rs s = some b →
    (c.name = s.name ++ "_bucket".toList → ∀ le ∈ printedBounds b,
      c.labels.set ≠ insert ("le".toList, le) s.labels.set) ∧
    (c.name = s.name ++ "_sum".toList ∨ c.name = s.name ++ "_count".toList → c.labels ≠ s.labels)
  bounds : ∀ s b, firstBuckets rs s = some b → (b.map (Str.fixed 4)).Nodup
  labels : ∀ s s' b b', firstBuckets rs s = some b → firstBuckets rs s' = some b' → s ≠ s' →
    s.name = s'.name → ∀ le ∈ printedBounds b, ∀ le' ∈ printedBounds b',
      insert ("le".toList, le) s.labels.set ≠ insert ("le".toList, le') s'.labels.set

theorem counterKeys_append (rs : List Registration) (r : Registration) :
    counterKeys (rs ++ [r]) = counterKeys rs ++ r.counterKey.toList := by
  rw [counterKeys, counterKeys, List.filterMap_append, List.filterMap_cons, List.filterMap_nil]
  cases r.counterKey <;> rfl

theorem firstBuckets_append (rs : List Registration) (r : Registration) (s : SeriesKey) :
    firstBuckets (rs ++ [r]) s = (firstBuckets rs s).or (r.bucketsFor s) := by
  rw [firstBuckets, List.findSome?_append, firstBuckets, List.findSome?_singleton]

theorem registered_append (rs : List Registration) (r : Registration) :
    registered (rs ++ [r]) = r.apply (registered rs) := by
  rw [registered, List.foldl_append]
  rfl

theorem Families.emplaceSeries_get_map {α β : Type} (f : Families α) (s s' : SeriesKey) (a : α)
    (g : α → β) : ((f.emplaceSeries s a).get s').map g =
      if s' = s then some (((f.get s).map g).getD (g a)) else (f.get s').map g := by
  rw [emplaceSeries_get]
  split_ifs
  · cases f.get s <;> rfl
  · rfl

theorem counters_apply_counter (m : MetricsRegistry) (name help : Str) (labels : Labels) :
    (Registration.apply m (.counter name help labels)).counters =
      m.counters.emplaceSeries ⟨name, labels⟩ (.new name help labels) :=
  MetricsRegistry.findOrCreate_eq ..

theorem histograms_apply_histogram (m : MetricsRegistry) (name help : Str) (buckets : List ℚ)
    (labels : Labels) : (Registration.apply m (.histogram name help buckets labels)).histograms =
      m.histograms.emplaceSeries ⟨name, labels⟩ (.new name help buckets labels) :=
  MetricsRegistry.findOrCreate_eq ..

theorem registered_counter (rs : List Registration) (s : SeriesKey) :
    ((registered rs).counters.get s).map (fun c ↦ (⟨c.name, c.labels⟩ : SeriesKey)) =
      if s ∈ counterKeys rs then some s else none := by
  induction rs using List.reverseRecOn with
  | nil => rfl
  | append_singleton rs r ih =>
    rw [registered_append, counterKeys_append]
    cases r with
    | histogram name help buckets labels =>
      rw [Registration.counterKey, Option.toList_none, List.append_nil]
      exact ih
    | counter name help labels =>
      rw [counters_apply_counter, Families.emplaceSeries_get_map, Registration.counterKey,
        Option.toList_some]
      by_cases hs : s = ⟨name, labels⟩
      · subst hs
        rw [if_pos rfl, if_pos (List.mem_append_right _ (List.mem_singleton_self _)), ih]
        split_ifs <;> rfl
      · have hmem : s ∈ counterKeys rs ++ [⟨name, labels⟩] ↔ s ∈ counterKeys rs := by simp [hs]
        rw [if_neg hs, ih]
        simp only [hmem]

theorem registered_histogram (rs : List Registration) (s : SeriesKey) :
    ((registered rs).histograms.get s).map
        (fun h ↦ ((⟨h.name, h.labels⟩ : SeriesKey), h.buckets)) =
      (firstBuckets rs s).map (fun b ↦ (s, b)) := by
  induction rs using List.reverseRecOn with
  | nil => rfl
  | append_singleton rs r ih =>
    rw [registered_append, firstBuckets_append]
    cases r with
    | counter name help labels =>
      rw [Registration.bucketsFor, Option.or_none]
      exact ih
    | histogram name help buckets labels =>
      rw [histograms_apply_histogram, Families.emplaceSeries_get_map, Registration.bucketsFor]
      by_cases hs : s = ⟨name, labels⟩
      · subst hs
        rw [if_pos rfl, if_pos rfl, ih]
        cases firstBuckets rs ⟨name, labels⟩ <;> rfl
      · rw [if_neg hs, if_neg (Ne.symm hs), Option.or_none, ih]

theorem registered_counters_keys (rs : List Registration) (name : Str) :
    name ∈ (registered rs).counters.keys ↔ ∃ s ∈ counterKeys rs, s.name = name := by
  induction rs using List.reverseRecOn with
  | nil => simp [registered, counterKeys, MetricsRegistry.empty, OrderedMap.empty, OrderedMap.keys]
  | append_singleton rs r ih =>
    rw [registered_append, counterKeys_append]
    cases r with
    | histogram n help buckets labels =>
      rw [Registration.counterKey, Option.toList_none, List.append_nil]
      exact ih
    | counter n help labels =>
      rw [counters_apply_counter, Families.mem_keys_emplaceSeries, ih, Registration.counterKey]
      simp only [Option.toList_some, List.mem_append, List.mem_singleton, or_and_right, exists_or,
        exists_eq_left, eq_comm]

theorem registered_histograms_keys (rs : List Registration) (name : Str) :
    name ∈ (registered rs).histograms.keys ↔ ∃ s b, firstBuckets rs s = some b ∧ s.name = name := by
  induction rs using List.reverseRecOn with
  | nil => simp [registered, firstBuckets, MetricsRegistry.empty, OrderedMap.empty, OrderedMap.keys]
  | append_singleton rs r ih =>
    rw [registered_append]
    simp only [firstBuckets_append]
    cases r with
    | counter n help labels =>
      simp only [Registration.bucketsFor, Option.or_none]
      exact ih
    | histogram n help buckets labels =>
      rw [histograms_apply_histogram, Families.mem_keys_emplaceSeries, ih]
      simp only [Registration.bucketsFor]
      constructor
      · rintro (⟨s, b, hb, rfl⟩ | rfl)
        · exact ⟨s, b, by rw [hb, Option.some_or], rfl⟩
        · cases hf : firstBuckets rs ⟨name, labels⟩ with
          | none => exact ⟨⟨name, labels⟩, buckets, by rw [hf, if_pos rfl]; rfl, rfl⟩
          | some b => exact ⟨⟨name, labels⟩, b, by rw [hf, Option.some_or], rfl⟩
      · rintro ⟨s, b, hb, rfl⟩
        rcases Option.or_eq_some_iff.mp hb with hb | ⟨-, hb⟩
        · exact .inl ⟨s, b, hb, rfl⟩
        · split_ifs at hb with hs
          exact .inr (congrArg SeriesKey.name hs.symm)

def suffixes : List Str := ["_bucket".toList, "_sum".toList, "_count".toList]

theorem suffix_inj {name name' a a' : Str} (ha : a ∈ suffixes) (ha' : a' ∈ suffixes)
    (h : name ++ a = name' ++ a') : a = a' ∧ name = name' := by
  have hreverse := congrArg List.reverse h
  rw [List.reverse_append, List.reverse_append] at hreverse
  simp only [suffixes, List.mem_cons, List.not_mem_nil, or_false] at ha ha'
  rcases ha with rfl | rfl | rfl <;> rcases ha' with rfl | rfl | rfl <;> simp_all

theorem bucketId_injective (s : SeriesKey) : Function.Injective (bucketId s) := by
  intro le le' h
  have hset : insert ("le".toList, le) s.labels.set = insert ("le".toList, le') s.labels.set :=
    (Prod.mk.inj h).2
  by_contra hne
  have hmem {x y : Str} (hxy : x ≠ y) (he : insert ("le".toList, x) s.labels.set =
      insert ("le".toList, y) s.labels.set) : s.labels.labels.get? "le".toList = some x := by
    have hx := Finset.ext_iff.mp he ("le".toList, x)
    rw [← OrderedMap.mem_entries, ← List.mem_toFinset]
    simpa [hxy, Labels.set] using hx
  have hle := (hmem hne hset).symm.trans (hmem (Ne.symm hne) hset.symm)
  exact hne (Option.some.inj hle)

theorem mem_histogramIds {s : SeriesKey} {b : List ℚ} {id : SampleId} :
    id ∈ histogramIds s b ↔
      (∃ le ∈ printedBounds b, bucketId s le = id) ∨ id = sumId s ∨ id = countId s := by
  simp [histogramIds]

theorem infinity_notMem_fixed (b : List ℚ) : "+Inf".toList ∉ b.map (Str.fixed 4) := by
  intro h
  obtain ⟨q, -, hq⟩ := List.mem_map.mp h
  have hplus : '+' ∈ Str.fixed 4 q := by rw [hq]; decide
  have hcases := Str.mem_fixed hplus
  revert hcases
  decide

theorem histogramIds_nodup (s : SeriesKey) (b : List ℚ) :
    (histogramIds s b).Nodup ↔ (b.map (Str.fixed 4)).Nodup := by
  have hrest : [sumId s, countId s].Nodup := by
    rw [List.nodup_cons, List.mem_singleton]
    refine ⟨fun h ↦ ?_, List.nodup_singleton _⟩
    exact absurd (suffix_inj (by decide) (by decide) (Prod.mk.inj h).1).1 (by decide)
  have hdisjoint : ∀ a ∈ (printedBounds b).map (bucketId s), ∀ c ∈ [sumId s, countId s], a ≠ c := by
    intro a ha c hc h
    obtain ⟨le, -, rfl⟩ := List.mem_map.mp ha
    rcases List.mem_pair.mp hc with rfl | rfl
    · exact absurd (suffix_inj (by decide) (by decide) (Prod.mk.inj h).1).1 (by decide)
    · exact absurd (suffix_inj (by decide) (by decide) (Prod.mk.inj h).1).1 (by decide)
  rw [histogramIds, List.nodup_append, List.nodup_map_iff (bucketId_injective s), printedBounds,
    List.nodup_append]
  have hinf := infinity_notMem_fixed b
  constructor
  · exact fun h ↦ h.1.1
  · refine fun h ↦ ⟨⟨h, List.nodup_singleton _, fun x hx y hy he ↦ ?_⟩, hrest, hdisjoint⟩
    rw [List.mem_singleton.mp hy] at he
    exact hinf (he ▸ hx)

theorem disjoint_histogramIds {s s' : SeriesKey} (hne : s ≠ s') (b b' : List ℚ) :
    (histogramIds s b).Disjoint (histogramIds s' b') ↔ (s.name = s'.name →
      ∀ le ∈ printedBounds b, ∀ le' ∈ printedBounds b',
        insert ("le".toList, le) s.labels.set ≠ insert ("le".toList, le') s'.labels.set) := by
  have hlabels {a : Str} (ha : a ∈ suffixes)
      (h : (s.name ++ a, s.labels.set) = (s'.name ++ a, s'.labels.set)) : False := by
    obtain ⟨hn, hl⟩ := Prod.mk.inj h
    have hname := (suffix_inj ha ha hn).2
    have hset := Labels.set_injective hl
    cases s
    cases s'
    exact hne (SeriesKey.mk.injEq .. ▸ ⟨hname, hset⟩)
  have hsuffix {a a' : Str} {l l' : Finset (Str × Str)} (ha : a ∈ suffixes) (ha' : a' ∈ suffixes)
      (hd : a ≠ a') (h : (s.name ++ a, l) = (s'.name ++ a', l')) : False :=
    hd (suffix_inj ha ha' (Prod.mk.inj h).1).1
  constructor
  · intro hd hn le hle le' hle' he
    refine hd (mem_histogramIds.mpr (.inl ⟨le, hle, rfl⟩))
      (mem_histogramIds.mpr (.inl ⟨le', hle', ?_⟩))
    rw [bucketId, bucketId, hn, he]
  · intro h id hid hid'
    rcases mem_histogramIds.mp hid with ⟨le, hle, rfl⟩ | rfl | rfl <;>
      rcases mem_histogramIds.mp hid' with ⟨le', hle', he⟩ | he | he
    · obtain ⟨hn, hl⟩ := Prod.mk.inj he
      exact h (suffix_inj (by decide) (by decide) hn).2.symm le hle le' hle' hl.symm
    · exact hsuffix (by decide) (by decide) (by decide) he
    · exact hsuffix (by decide) (by decide) (by decide) he
    · exact hsuffix (by decide) (by decide) (by decide) he.symm
    · exact hlabels (by decide) he
    · exact hsuffix (by decide) (by decide) (by decide) he
    · exact hsuffix (by decide) (by decide) (by decide) he.symm
    · exact hsuffix (by decide) (by decide) (by decide) he
    · exact hlabels (by decide) he

theorem counterId_notMem_histogramIds {c s : SeriesKey} {b : List ℚ} :
    counterId c ∉ histogramIds s b ↔
      (c.name = s.name ++ "_bucket".toList → ∀ le ∈ printedBounds b,
        c.labels.set ≠ insert ("le".toList, le) s.labels.set) ∧
      (c.name = s.name ++ "_sum".toList ∨ c.name = s.name ++ "_count".toList →
        c.labels ≠ s.labels) := by
  rw [mem_histogramIds]
  constructor
  · intro h
    refine ⟨fun hn le hle he ↦ h (.inl ⟨le, hle, ?_⟩), fun hn he ↦ h (.inr ?_)⟩
    · rw [bucketId, counterId, hn, he]
    · rcases hn with hn | hn
      · exact .inl (by rw [counterId, sumId, hn, he])
      · exact .inr (by rw [counterId, countId, hn, he])
  · rintro ⟨hb, hr⟩ (⟨le, hle, he⟩ | he | he)
    · obtain ⟨hn, hl⟩ := Prod.mk.inj he
      exact hb hn.symm le hle hl.symm
    · obtain ⟨hn, hl⟩ := Prod.mk.inj he
      exact hr (.inl hn) (Labels.set_injective hl)
    · obtain ⟨hn, hl⟩ := Prod.mk.inj he
      exact hr (.inr hn) (Labels.set_injective hl)

section Registered

variable {order : IterationOrder} {rs : List Registration}

theorem mem_registered_counters {s : SeriesKey} :
    s ∈ (MetricsRegistry.seriesList order (registered rs).counters).map Prod.fst ↔
      s ∈ counterKeys rs := by
  have h := registered_counter rs s
  constructor
  · intro hs
    obtain ⟨⟨s', c⟩, hp, rfl⟩ := List.mem_map.mp hs
    rw [MetricsRegistry.mem_seriesList] at hp
    by_contra hmem
    rw [hp, if_neg hmem] at h
    cases h
  · intro hs
    rw [if_pos hs] at h
    obtain ⟨c, hc, -⟩ := Option.map_eq_some_iff.mp h
    exact List.mem_map.mpr ⟨(s, c), (MetricsRegistry.mem_seriesList order).mpr hc, rfl⟩

/-- The histogram series of a scrape, each with the buckets it was first registered with. -/
def histogramSeries (order : IterationOrder) (rs : List Registration) :
    List (SeriesKey × List ℚ) :=
  (MetricsRegistry.seriesList order (registered rs).histograms).map (fun p ↦ (p.1, p.2.buckets))

theorem mem_histogramSeries {s : SeriesKey} {b : List ℚ} :
    (s, b) ∈ histogramSeries order rs ↔ firstBuckets rs s = some b := by
  have h := registered_histogram rs s
  constructor
  · intro hs
    obtain ⟨⟨s', h'⟩, hp, he⟩ := List.mem_map.mp hs
    obtain ⟨rfl, rfl⟩ := Prod.mk.inj he
    rw [(MetricsRegistry.mem_seriesList order).mp hp] at h
    obtain ⟨b, hb, he⟩ := Option.map_eq_some_iff.mp h.symm
    rw [hb, (Prod.mk.inj he).2]
  · intro hb
    rw [hb] at h
    obtain ⟨h', hh', he⟩ := Option.map_eq_some_iff.mp h
    obtain ⟨-, rfl⟩ := Prod.mk.inj he
    exact List.mem_map.mpr ⟨(s, h'), (MetricsRegistry.mem_seriesList order).mpr hh', rfl⟩

theorem histogramSeries_nodup : ((histogramSeries order rs).map Prod.fst).Nodup := by
  rw [histogramSeries, List.map_map]
  exact MetricsRegistry.seriesList_nodup order _

theorem registered_sampleIds : (registered rs).sampleIds order =
    ((MetricsRegistry.seriesList order (registered rs).counters).map Prod.fst).map counterId ++
      (histogramSeries order rs).flatMap (fun p ↦ histogramIds p.1 p.2) := by
  rw [MetricsRegistry.sampleIds_eq, List.map_map, histogramSeries, List.flatMap_map]
  congr 1
  · refine List.map_congr_left (fun p hp ↦ congrArg counterId ?_)
    have h := registered_counter rs p.1
    rw [(MetricsRegistry.mem_seriesList order).mp hp, Option.map_some] at h
    split_ifs at h
    exact Option.some.inj h
  · refine List.flatMap_congr (fun p hp ↦ ?_)
    have h := registered_histogram rs p.1
    rw [(MetricsRegistry.mem_seriesList order).mp hp, Option.map_some] at h
    obtain ⟨b, -, he⟩ := Option.map_eq_some_iff.mp h.symm
    rw [← (Prod.mk.inj he).1]

theorem registered_types_nodup : ((registered rs).typeNames order).Nodup ↔
    ∀ c ∈ counterKeys rs, ∀ s b, firstBuckets rs s = some b → c.name ≠ s.name := by
  have hnodup {ν : Type} (m : OrderedMap Str ν) : (order.permute m.keys).Nodup :=
    (order.perm _).nodup_iff.mpr m.keys_nodup
  rw [MetricsRegistry.typeNames_eq, List.nodup_append]
  simp only [hnodup, true_and, (order.perm _).mem_iff, registered_counters_keys,
    registered_histograms_keys]
  constructor
  · exact fun h c hc s b hb ↦ h c.name ⟨c, hc, rfl⟩ s.name ⟨s, b, hb, rfl⟩
  · rintro h _ ⟨c, hc, rfl⟩ _ ⟨s, b, hb, rfl⟩
    exact h c hc s b hb

theorem registered_counterIds_nodup :
    (((MetricsRegistry.seriesList order (registered rs).counters).map Prod.fst).map
      counterId).Nodup := by
  refine (MetricsRegistry.seriesList_nodup order _).map (fun s s' h ↦ ?_)
  obtain ⟨hn, hl⟩ := Prod.mk.inj h
  have hlabels := Labels.set_injective hl
  cases s
  cases s'
  rw [SeriesKey.mk.injEq]
  exact ⟨hn, hlabels⟩

theorem registered_histogramIds_nodup :
    ((histogramSeries order rs).flatMap (fun p ↦ histogramIds p.1 p.2)).Nodup ↔
      (∀ s b, firstBuckets rs s = some b → (b.map (Str.fixed 4)).Nodup) ∧
      ∀ s s' b b', firstBuckets rs s = some b → firstBuckets rs s' = some b' → s ≠ s' →
        s.name = s'.name → ∀ le ∈ printedBounds b, ∀ le' ∈ printedBounds b',
          insert ("le".toList, le) s.labels.set ≠ insert ("le".toList, le') s'.labels.set := by
  rw [List.nodup_flatMap]
  refine and_congr ?_ ?_
  · simp only [histogramIds_nodup, Prod.forall, mem_histogramSeries]
  · constructor
    · intro h s s' b b' hb hb' hne
      have hsymm : Std.Symm (Function.onFun List.Disjoint
          (fun p : SeriesKey × List ℚ ↦ histogramIds p.1 p.2)) := ⟨fun _ _ h ↦ h.symm⟩
      have hd := h.forall (mem_histogramSeries.mpr hb) (mem_histogramSeries.mpr hb')
        (fun he ↦ hne (Prod.mk.inj he).1)
      exact (disjoint_histogramIds hne b b').mp hd
    · intro h
      refine (List.Nodup.of_map _ histogramSeries_nodup).pairwise_of_forall_ne
        (fun p hp p' hp' hne ↦ ?_)
      have hs : p.1 ≠ p'.1 := fun he ↦
        hne (List.inj_on_of_nodup_map histogramSeries_nodup hp hp' he)
      exact (disjoint_histogramIds hs p.2 p'.2).mpr
        (h _ _ _ _ (mem_histogramSeries.mp hp) (mem_histogramSeries.mp hp') hs)

end Registered

end ServiceSystem.Metrics
