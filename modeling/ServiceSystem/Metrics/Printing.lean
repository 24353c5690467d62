import ServiceSystem.Foundations.Decimals
import ServiceSystem.Metrics.Updates

namespace ServiceSystem.Metrics

open Foundations Exposition MetricsRegistry

def counterNames : List Str :=
  [httpRequests, dbOperations, authAttempts, authFailures, deviceOperations, serviceOperations]

/-- The registry holds nothing that reads otherwise than it is written. -/
structure Printable (m : MetricsRegistry) : Prop where
  counter_keys : ∀ name ∈ m.counters.keys, name ∈ counterNames
  counters : ∀ s c, m.counters.get s = some c →
    c.name = s.name ∧ c.labels = s.labels ∧ Readable s.labels.labels.entries
  histogram_keys : ∀ name ∈ m.histograms.keys, name = httpDuration
  histograms : ∀ s h, m.histograms.get s = some h → h.name = httpDuration ∧ h.labels = .empty
  counter_helps : ∀ name help, m.counterHelps.get? name = some help → PlainHelp help
  histogram_helps : ∀ name help, m.histogramHelps.get? name = some help → PlainHelp help

namespace Counter

def sample (c : Counter) : Sample := ⟨c.name, c.labels.labels.entries, .number c.value, none⟩

theorem format_reads {c : Counter} (hn : ValidName isNameChar c.name)
    (hl : Readable c.labels.labels.entries) : Reads c.format [.sample c.sample] := by
  have h := Reads.sample hn hl c.labels.labels.keys_nodup
    (fun d hd ↦ unblank_of_isDigit (Str.isDigit_ofNat hd)) (value_ofNat c.value)
  have he : c.format = c.name ++ labelsText c.labels.labels.entries ++ ' ' :: Str.ofNat c.value ++
      ['\n'] := by
    simp [format, line, Labels.toString_eq, Str.fixed_zero_natCast]
  rw [he]
  exact h

end Counter

def histogramSamples (name : Str) : List Str :=
  [name ++ "_bucket".toList, name ++ "_sum".toList, name ++ "_count".toList]

def HistogramLine (name : Str) : Line → Prop
  | .type n kind => n = name ∧ kind = "histogram".toList
  | .help n _ => n = name
  | .sample s => s.name ∈ histogramSamples name
  | .blank | .comment => False

theorem validName_append {name suffix : Str} (hn : ValidName isNameChar name)
    (hs : ∀ c ∈ suffix, isNameChar c = true) : ValidName isNameChar (name ++ suffix) := by
  obtain ⟨hne, hall, hhead⟩ := hn
  obtain ⟨c, t, rfl⟩ := List.exists_cons_of_ne_nil hne
  exact ⟨by simp, List.forall_mem_append.mpr ⟨hall, hs⟩, hhead⟩

theorem sample_readsAll {name suffix v : Str} {ls : List (Str × Str)} {x : Value}
    (hn : ValidName isNameChar name)
    (hs : suffix ∈ ["_bucket".toList, "_sum".toList, "_count".toList])
    (hls : Readable ls) (hnodup : (ls.map Prod.fst).Nodup)
    (hblank : ∀ c ∈ v, isBlank c = false ∧ c ≠ '\n') (hv : value v = some x) :
    ReadsAll (HistogramLine name) (name ++ suffix ++ labelsText ls ++ ' ' :: v ++ ['\n']) := by
  have hsuffix : ∀ t ∈ ["_bucket".toList, "_sum".toList, "_count".toList], ∀ c ∈ t,
      isNameChar c = true := by decide
  refine ⟨_, Reads.sample (validName_append hn (hsuffix _ hs)) hls hnodup hblank hv, ?_⟩
  simpa [HistogramLine, histogramSamples] using hs

namespace Histogram

variable {h : Histogram}

theorem bucketLine_reads (hn : ValidName isNameChar h.name) (hl : h.labels = .empty) {le : Str}
    (hle : Plain le) (n : ℕ) : ReadsAll (HistogramLine h.name) (h.bucketLine le n ++ ['\n']) := by
  have hpart : h.labelPart = [] := by
    rw [labelPart, hl]
    rfl
  have he : h.bucketLine le n ++ ['\n'] = h.name ++ "_bucket".toList ++
      labelsText [("le".toList, le)] ++ ' ' :: Str.ofNat n ++ ['\n'] := by
    simp [bucketLine, hpart, labelsText, labelText]
  have hreadable : Readable [("le".toList, le)] :=
    List.forall_mem_singleton.mpr ⟨show ValidName isLabelChar "le".toList by decide, hle⟩
  rw [he]
  exact sample_readsAll hn (by decide) hreadable (by simp)
    (fun c hc ↦ unblank_of_isDigit (Str.isDigit_ofNat hc)) (value_ofNat n)

theorem format_reads (hn : ValidName isNameChar h.name) (hl : h.labels = .empty) :
    ReadsAll (HistogramLine h.name) h.format := by
  have hlabels : h.labels.toString = labelsText [] := by
    rw [hl]
    rfl
  refine ReadsAll.flatMap (fun l hmem ↦ ?_)
  rw [lines, ← List.map_uncurry_zip_eq_zipWith] at hmem
  rcases List.mem_append.mp hmem with hmem | hmem
  · obtain ⟨⟨b, n⟩, -, rfl⟩ := List.mem_map.mp hmem
    exact bucketLine_reads hn hl (plain_fixed 4 b) n
  · simp only [List.mem_cons, List.not_mem_nil, or_false] at hmem
    rcases hmem with rfl | rfl | rfl
    · exact bucketLine_reads hn hl (by decide) _
    · have hsum : "_sum".toList ∈ ["_bucket".toList, "_sum".toList, "_count".toList] := by decide
      have hr := sample_readsAll hn hsum (List.forall_mem_nil _) List.nodup_nil
        (unblank_fixed 6 h.sum) (value_fixed 6 h.sum)
      simpa [hlabels] using hr
    · have hcount : "_count".toList ∈
        ["_bucket".toList, "_sum".toList, "_count".toList] := by decide
      have hr := sample_readsAll hn hcount (List.forall_mem_nil _) List.nodup_nil
        (fun c hc ↦ unblank_of_isDigit (Str.isDigit_ofNat hc)) (value_ofNat h.count)
      simpa [hlabels] using hr

end Histogram

def typeHelp (name help kind : Str) : List Line :=
  .type name kind :: if help = [] then [] else [.help name help]

theorem typeHelp_reads {name help kind : Str} (hn : ValidName isNameChar name) (hk : kind ∈ kinds)
    (hh : PlainHelp help) : Reads (formatTypeHelp name help kind) (typeHelp name help kind) := by
  have hnewline := hn.newline_notMem (by decide)
  have hkinds : ∀ k ∈ kinds, '\n' ∉ k := by decide
  have htype := Reads.single (x := .type name kind) (by simp [hnewline, hkinds kind hk])
    (line_type hn hk)
  unfold formatTypeHelp typeHelpLines typeHelp
  split_ifs with hnil
  · simpa using htype
  · have hhelp : '\n' ∉ help := fun hc ↦ (hh.1 _ hc).2 rfl
    have h := htype.append (Reads.single (x := .help name help)
      (by simp [hnewline, hhelp]) (line_help hn hh))
    simpa using h

def familyDoc (m : MetricsRegistry) (name : Str) : List Line :=
  typeHelp name ((m.counterHelps.get? name).getD []) "counter".toList ++
    (m.counters.get? name).elim [] (fun labelMap ↦
      labelMap.entries.map (fun p ↦ .sample p.2.sample))

def counterDoc (order : IterationOrder) (m : MetricsRegistry) : List Line :=
  (order.permute m.counters.keys).flatMap (familyDoc m)

def counterSamples (m : MetricsRegistry) : List Sample :=
  m.counters.entries.flatMap fun family ↦ family.2.entries.map fun p ↦
    ⟨family.1, p.1.labels.entries, .number p.2.value, none⟩

theorem plainHelp_getD {helps : OrderedMap Str Str}
    (h : ∀ name help, helps.get? name = some help → PlainHelp help) (name : Str) :
    PlainHelp ((helps.get? name).getD []) := by
  cases hn : helps.get? name with
  | none => decide
  | some help => exact h name help hn

theorem validName_counter {name : Str} (h : name ∈ counterNames) : ValidName isNameChar name := by
  have hall : ∀ n ∈ counterNames, ValidName isNameChar n := by decide
  exact hall name h

namespace Printable

variable {order : IterationOrder} {m : MetricsRegistry}

theorem counters_reads (h : Printable m) :
    Reads ((order.permute m.counters.keys).flatMap
      (familyText m.counters m.counterHelps "counter".toList Counter.format))
        (counterDoc order m) := by
  refine Reads.flatMap (fun name hname ↦ ?_)
  have hkey := h.counter_keys name ((order.perm _).subset hname)
  have hvalid := validName_counter hkey
  refine (typeHelp_reads hvalid (by decide) (plainHelp_getD h.counter_helps name)).append ?_
  cases hf : m.counters.get? name with
  | none => exact .nil
  | some labelMap =>
    rw [Option.elim_some, Option.elim_some, List.map_eq_flatMap]
    refine Reads.flatMap (fun p hp ↦ ?_)
    have hget : m.counters.get ⟨name, p.1⟩ = some p.2 := by
      simp only [Families.get, hf, Option.bind_some]
      exact OrderedMap.mem_entries.mp hp
    obtain ⟨hn, hl, hreadable⟩ := h.counters _ _ hget
    exact Counter.format_reads (hn ▸ hvalid) (hl ▸ hreadable)

theorem histograms_reads (h : Printable m) (order : IterationOrder) :
    ReadsAll (fun x ↦ ∃ name ∈ m.histograms.keys, HistogramLine name x)
      ((order.permute m.histograms.keys).flatMap
      (familyText m.histograms m.histogramHelps "histogram".toList Histogram.format)) := by
  have hvalid : ValidName isNameChar httpDuration := by decide
  refine ReadsAll.flatMap (fun name hname ↦ ?_)
  have hkey := (order.perm _).subset hname
  obtain rfl := h.histogram_keys name hkey
  refine ReadsAll.mono (P := HistogramLine httpDuration) ?_ (fun x hx ↦ ⟨_, hkey, hx⟩)
  refine ReadsAll.append ⟨_, typeHelp_reads hvalid (by decide)
    (plainHelp_getD h.histogram_helps httpDuration), ?_⟩ ?_
  · unfold typeHelp
    split_ifs <;> simp [HistogramLine]
  · cases hf : m.histograms.get? httpDuration with
    | none => exact ⟨[], .nil, by simp⟩
    | some labelMap =>
      refine ReadsAll.flatMap (fun p hp ↦ ?_)
      have hget : m.histograms.get ⟨httpDuration, p.1⟩ = some p.2 := by
        simp only [Families.get, hf, Option.bind_some]
        exact OrderedMap.mem_entries.mp hp
      obtain ⟨hn, hl⟩ := h.histograms _ _ hget
      have hreads := Histogram.format_reads (hn ▸ hvalid) hl
      rwa [hn] at hreads

end Printable

section FamilyDoc

variable (m : MetricsRegistry) (name : Str)

theorem samples_map (cs : List Counter) :
    samples (cs.map (fun c ↦ .sample c.sample)) = cs.map Counter.sample := by
  induction cs with
  | nil => rfl
  | cons c cs ih => exact congrArg (c.sample :: ·) ih

theorem families_map (kind : Str) (cs : List Counter) :
    families kind (cs.map (fun c ↦ .sample c.sample)) = [] := by
  induction cs with
  | nil => rfl
  | cons c cs ih => exact ih

theorem samples_familyDoc : samples (familyDoc m name) =
    (m.counters.get? name).elim [] (fun labelMap ↦ labelMap.entries.map (fun p ↦ p.2.sample)) := by
  have htype : ∀ help, samples (typeHelp name help "counter".toList) = [] := by
    intro help
    unfold typeHelp
    split_ifs <;> rfl
  rw [familyDoc, samples_append, htype, List.nil_append]
  cases m.counters.get? name with
  | none => rfl
  | some labelMap =>
    have hmap := samples_map (labelMap.entries.map Prod.snd)
    rw [List.map_map, List.map_map] at hmap
    exact hmap

theorem families_familyDoc : families "counter".toList (familyDoc m name) = [name] := by
  have htype : ∀ help,
      families "counter".toList (typeHelp name help "counter".toList) = [name] := by
    intro help
    unfold typeHelp
    split_ifs <;> rfl
  rw [familyDoc, families_append, htype]
  cases m.counters.get? name with
  | none => rfl
  | some labelMap =>
    have hmap := families_map "counter".toList (labelMap.entries.map Prod.snd)
    rw [List.map_map] at hmap
    exact congrArg (name :: ·) hmap

end FamilyDoc

/-- The text parses, and says of the counters what the registry holds; all other samples
stand for its histograms. -/
def RoundTrips (m : MetricsRegistry) (text : Str) : Prop :=
  ∃ doc, parse text = some doc ∧
    (families "counter".toList doc).Perm m.counters.keys ∧
    ((samples doc).filter (·.name ∈ families "counter".toList doc)).Perm (counterSamples m) ∧
    ∀ s ∈ samples doc, s.name ∉ families "counter".toList doc →
      ∃ name ∈ m.histograms.keys, s.name ∈ histogramSamples name

namespace Printable

variable {order : IterationOrder} {m : MetricsRegistry}

theorem counters_eq (h : Printable m) : (samples (counterDoc order m)).Perm (counterSamples m) := by
  have hall : samples (counterDoc order m) =
      (order.permute m.counters.keys).flatMap (fun name ↦ samples (familyDoc m name)) :=
    List.filterMap_flatMap
  rw [hall]
  refine ((order.perm _).flatMap_right _).trans (.of_eq ?_)
  rw [OrderedMap.keys, List.flatMap_map, counterSamples]
  refine List.flatMap_congr (fun family hfamily ↦ ?_)
  have hf := OrderedMap.mem_entries.mp (show (family.1, family.2) ∈ m.counters.entries from hfamily)
  rw [samples_familyDoc, hf, Option.elim_some]
  refine List.map_congr_left (fun p hp ↦ ?_)
  have hget : m.counters.get ⟨family.1, p.1⟩ = some p.2 := by
    simp only [Families.get, hf, Option.bind_some]
    exact OrderedMap.mem_entries.mp hp
  obtain ⟨hn, hl, -⟩ := h.counters _ _ hget
  rw [Counter.sample, hn, hl]

theorem counter_names (h : Printable m) :
    ∀ s ∈ samples (counterDoc order m), s.name ∈ m.counters.keys := by
  intro s hs
  obtain ⟨family, hfamily, hs⟩ := List.mem_flatMap.mp (h.counters_eq.subset hs)
  obtain ⟨p, -, rfl⟩ := List.mem_map.mp hs
  exact List.mem_map.mpr ⟨family, hfamily, rfl⟩

theorem roundTrips (h : Printable m) (order : IterationOrder) : RoundTrips m (m.format order) := by
  obtain ⟨doc, hreads, hlines⟩ := h.histograms_reads order
  have hkeys := order.perm m.counters.keys
  have hcounters : families "counter".toList (counterDoc order m) =
      order.permute m.counters.keys := by
    have hall : families "counter".toList (counterDoc order m) =
        (order.permute m.counters.keys).flatMap
          (fun name ↦ families "counter".toList (familyDoc m name)) := List.filterMap_flatMap
    simpa only [families_familyDoc, List.flatMap_singleton'] using hall
  have hnone : families "counter".toList doc = [] := by
    refine List.filterMap_eq_nil_iff.mpr (fun x hx ↦ ?_)
    obtain ⟨name, -, hline⟩ := hlines x hx
    cases x with
    | type n kind =>
      rw [hline.2]
      rfl
    | blank | comment | help | sample => rfl
  have hfamilies : families "counter".toList (counterDoc order m ++ doc) =
      order.permute m.counters.keys := by
    rw [families_append, hcounters, hnone, List.append_nil]
  have hothers : ∀ s ∈ samples doc, ∃ name ∈ m.histograms.keys, s.name ∈ histogramSamples name :=
    fun s hs ↦ hlines _ (mem_samples.mp hs)
  have hforeign : ∀ s ∈ samples doc, s.name ∉ m.counters.keys := by
    intro s hs hmem
    obtain ⟨name, hname, hs⟩ := hothers s hs
    obtain rfl := h.histogram_keys name hname
    have hdisjoint : ∀ n ∈ histogramSamples httpDuration, n ∉ counterNames := by decide
    exact hdisjoint _ hs (h.counter_keys _ hmem)
  refine ⟨_, (h.counters_reads.append hreads).parse_eq, ?_, ?_, ?_⟩
  · rw [hfamilies]
    exact hkeys
  · have hown : (samples (counterDoc order m)).filter (·.name ∈ order.permute m.counters.keys) =
        samples (counterDoc order m) :=
      List.filter_eq_self.mpr fun s hs ↦ by simpa using hkeys.symm.subset (h.counter_names s hs)
    have hrest : (samples doc).filter (·.name ∈ order.permute m.counters.keys) = [] :=
      List.filter_eq_nil_iff.mpr fun s hs ↦ by simpa using fun hn ↦ hforeign s hs (hkeys.subset hn)
    rw [hfamilies, samples_append, List.filter_append, hown, hrest, List.append_nil]
    exact h.counters_eq
  · rw [hfamilies, samples_append]
    intro s hs hname
    rcases List.mem_append.mp hs with hs | hs
    · exact absurd (hkeys.symm.subset (h.counter_names s hs)) hname
    · exact hothers s hs

end Printable

section Unreadable

theorem formatTypeHelp_ended (name help kind : Str) :
    (Str.splitLines (formatTypeHelp name help kind)).2 = [] :=
  Str.ended_flatMap fun l _ ↦ Str.ended_newline l

theorem counterFamily_ended (m : MetricsRegistry) (name : Str) :
    (Str.splitLines (familyText m.counters m.counterHelps "counter".toList Counter.format name)).2 =
      [] := by
  refine Str.ended_append (formatTypeHelp_ended ..) ?_
  cases m.counters.get? name with
  | none => rfl
  | some labelMap => exact Str.ended_flatMap fun p _ ↦ Str.ended_newline p.2.line

theorem format_unreadable {m : MetricsRegistry} {s : SeriesKey} {c : Counter}
    (hget : m.counters.get s = some c) (hn : '\n' ∉ c.line) (hline : line c.line = none)
    (order : IterationOrder) : parse (m.format order) = none := by
  obtain ⟨labelMap, hf, hc⟩ := Option.bind_eq_some_iff.mp hget
  have hname : s.name ∈ order.permute m.counters.keys :=
    (order.perm _).mem_iff.mpr (Families.name_mem_keys hget)
  obtain ⟨ns, ns', hns⟩ := List.append_of_mem hname
  obtain ⟨es, es', hes⟩ := List.append_of_mem (OrderedMap.mem_entries.mpr hc)
  have htext : familyText m.counters m.counterHelps "counter".toList Counter.format s.name =
      (formatTypeHelp s.name ((m.counterHelps.get? s.name).getD []) "counter".toList ++
        es.flatMap (fun p ↦ p.2.format)) ++ c.line ++ '\n' :: es'.flatMap (fun p ↦ p.2.format) := by
    simp [familyText, hf, hes, Counter.format]
  have hbefore : (Str.splitLines (ns.flatMap
      (familyText m.counters m.counterHelps "counter".toList Counter.format) ++
        (formatTypeHelp s.name ((m.counterHelps.get? s.name).getD []) "counter".toList ++
          es.flatMap (fun p ↦ p.2.format)))).2 = [] :=
    Str.ended_append (Str.ended_flatMap fun n _ ↦ counterFamily_ended m n)
      (Str.ended_append (formatTypeHelp_ended ..)
        (Str.ended_flatMap fun p _ ↦ Str.ended_newline p.2.line))
  rw [MetricsRegistry.format, hns, List.flatMap_append, List.flatMap_cons, htext]
  simpa only [List.append_assoc, List.cons_append] using parse_eq_none hbefore hn hline

end Unreadable

section Preservation

theorem readable_ofList {pairs : List (Str × Str)} (h : Readable pairs) :
    Readable (Labels.ofList pairs).labels.entries := by
  refine List.foldlRecOn (motive := fun l : OrderedMap Str Str ↦ Readable l.entries) pairs _
    (by simp [Readable, OrderedMap.empty]) (fun l hl p hp q hq ↦ ?_)
  rcases OrderedMap.mem_upsertIn hq with ⟨_, rfl⟩ | hq
  · exact h p hp
  · exact hl q hq

theorem storeHelp_plain {helps : OrderedMap Str Str} {name help : Str} (hh : PlainHelp help)
    (h : ∀ n t, helps.get? n = some t → PlainHelp t) :
    ∀ n t, (storeHelp helps name help).get? n = some t → PlainHelp t := by
  intro n t ht
  unfold storeHelp at ht
  split_ifs at ht
  · exact h n t ht
  · rw [OrderedMap.assign_get] at ht
    split_ifs at ht
    · obtain ⟨rfl⟩ := ht
      exact hh
    · exact h n t ht

namespace Printable

variable {m : MetricsRegistry}

theorem emplace_counters (h : Printable m) {s : SeriesKey} (help : Str) (hn : s.name ∈ counterNames)
    (hl : Readable s.labels.labels.entries) :
    Printable { m with counters := m.counters.emplaceSeries s (.new s.name help s.labels) } where
  counter_keys name hname := by
    rcases Families.mem_keys_emplaceSeries.mp hname with hname | rfl
    · exact h.counter_keys name hname
    · exact hn
  counters s' c hc := by
    simp only [Families.emplaceSeries_get] at hc
    split_ifs at hc with hs
    · subst hs
      obtain ⟨rfl⟩ := hc
      cases hold : m.counters.get s' with
      | none => exact ⟨rfl, rfl, hl⟩
      | some c => exact h.counters s' c hold
    · exact h.counters s' c hc
  histogram_keys := h.histogram_keys
  histograms := h.histograms
  counter_helps := h.counter_helps
  histogram_helps := h.histogram_helps

theorem emplace_histograms (h : Printable m) (help : Str) (buckets : List ℚ) :
    Printable { m with
      histograms := m.histograms.emplaceSeries ⟨httpDuration, .empty⟩
        (.new httpDuration help buckets .empty) } where
  counter_keys := h.counter_keys
  counters := h.counters
  histogram_keys name hname := by
    rcases Families.mem_keys_emplaceSeries.mp hname with hname | rfl
    · exact h.histogram_keys name hname
    · rfl
  histograms s' a ha := by
    simp only [Families.emplaceSeries_get] at ha
    split_ifs at ha with hs
    · subst hs
      obtain ⟨rfl⟩ := ha
      cases hold : m.histograms.get ⟨httpDuration, .empty⟩ with
      | none => exact ⟨rfl, rfl⟩
      | some a => exact h.histograms _ a hold
    · exact h.histograms s' a ha
  counter_helps := h.counter_helps
  histogram_helps := h.histogram_helps

theorem getCounter (h : Printable m) {name help : Str} {labels : Labels} (hn : name ∈ counterNames)
    (hh : PlainHelp help) (hl : Readable labels.labels.entries) :
    Printable (m.getCounter name help labels).2 := by
  have he := h.emplace_counters (s := ⟨name, labels⟩) help hn hl
  rw [MetricsRegistry.getCounter, findOrCreate_eq]
  exact ⟨he.counter_keys, he.counters, he.histogram_keys, he.histograms,
    storeHelp_plain hh h.counter_helps, he.histogram_helps⟩

theorem getHistogram (h : Printable m) (help : Str) (hh : PlainHelp help) (buckets : List ℚ) :
    Printable (m.getHistogram httpDuration help buckets .empty).2 := by
  have he := h.emplace_histograms help buckets
  rw [MetricsRegistry.getHistogram, findOrCreate_eq]
  exact ⟨he.counter_keys, he.counters, he.histogram_keys, he.histograms, he.counter_helps,
    storeHelp_plain hh h.histogram_helps⟩

theorem increment (h : Printable m) (s : SeriesKey) : Printable (m.increment s) where
  counter_keys name hname := by
    refine h.counter_keys name ?_
    rwa [MetricsRegistry.increment, Families.update, OrderedMap.modify_keys] at hname
  counters s' c hc := by
    rcases Families.update_get_eq_some hc with hc | ⟨b, hb, rfl⟩
    · exact h.counters s' c hc
    · exact h.counters s' b hb
  histogram_keys := h.histogram_keys
  histograms := h.histograms
  counter_helps := h.counter_helps
  histogram_helps := h.histogram_helps

theorem observe (h : Printable m) (s : SeriesKey) (v : ℚ) : Printable (m.observe s v) where
  counter_keys := h.counter_keys
  counters := h.counters
  histogram_keys name hname := by
    refine h.histogram_keys name ?_
    rwa [MetricsRegistry.observe, Families.update, OrderedMap.modify_keys] at hname
  histograms s' a ha := by
    rcases Families.update_get_eq_some ha with ha | ⟨b, hb, rfl⟩
    · exact h.histograms s' a ha
    · exact h.histograms s' b hb
  counter_helps := h.counter_helps
  histogram_helps := h.histogram_helps

theorem empty : Printable MetricsRegistry.empty where
  counter_keys := by simp [MetricsRegistry.empty, OrderedMap.empty, OrderedMap.keys]
  counters _ _ h := by cases h
  histogram_keys := by simp [MetricsRegistry.empty, OrderedMap.empty, OrderedMap.keys]
  histograms _ _ h := by cases h
  counter_helps _ _ h := by cases h
  histogram_helps _ _ h := by cases h

end Printable

theorem readable_httpLabels {method path : Str} (hm : Plain method) (hp : Plain path) (status : ℤ) :
    Readable (httpLabels method path (Str.ofInt status)).labels.entries := by
  refine readable_ofList ?_
  simp only [Readable, List.forall_mem_cons]
  exact ⟨⟨by decide, hm⟩, ⟨by decide, hp⟩, ⟨by decide, plain_ofInt status⟩, by simp⟩

theorem readable_expectedLabels : ∀ l ∈ expectedLabels, Readable l.labels.entries := by
  have hmethods : ∀ method ∈ methods, Plain method := by decide
  have hpaths : ∀ path ∈ paths, Plain path := by decide
  intro l hl
  obtain ⟨method, hm, hl⟩ := List.mem_flatMap.mp hl
  obtain ⟨path, hp, hl⟩ := List.mem_flatMap.mp hl
  obtain ⟨status, -, rfl⟩ := List.mem_map.mp hl
  exact readable_httpLabels (hmethods method hm) (hpaths path hp) status

theorem plain_ofBool (b : Bool) : Plain (ofBool b) := by
  cases b <;> decide

def Call.Plainly : Call → Prop
  | .recordHttpRequest method path _ _ => Plain method ∧ Plain path
  | .recordDbOperation operation _ | .recordDeviceOperation operation _ _
  | .recordServiceOperation operation _ _ => Plain operation
  | .recordAuthAttempt username _ => Plain username
  | .initializeMetrics | .format => True

namespace Printable

variable {m : MetricsRegistry}

theorem initializeMetrics (h : Printable m) : Printable m.initializeMetrics := by
  unfold MetricsRegistry.initializeMetrics
  split_ifs
  · exact h
  · have hfold : Printable { m with
        counters := expectedLabels.foldl (fun f l ↦ Families.emplaceSeries f ⟨httpRequests, l⟩
          (.new httpRequests httpRequestsHelp l)) m.counters } := by
      refine List.foldlRecOn (motive := fun f : Families Counter ↦
        Printable { m with counters := f })
        expectedLabels _ h (fun f hf l hl ↦ ?_)
      have hname : httpRequests ∈ counterNames := by decide
      exact hf.emplace_counters (s := ⟨httpRequests, l⟩) httpRequestsHelp hname
        (readable_expectedLabels l hl)
    have hfailures := hfold.emplace_counters (s := ⟨authFailures, .empty⟩)
      authFailuresHelp (by decide) (by simp [Labels.empty, OrderedMap.empty, Readable])
    have hduration := hfailures.emplace_histograms httpDurationHelp durationBuckets
    have hassign : ∀ {helps : OrderedMap Str Str} {name help : Str}, PlainHelp help →
        (∀ n t, helps.get? n = some t → PlainHelp t) →
          ∀ n t, (helps.assign name help).get? n = some t → PlainHelp t := by
      intro helps name help hh hall n t ht
      rw [OrderedMap.assign_get] at ht
      split_ifs at ht
      · obtain ⟨rfl⟩ := ht
        exact hh
      · exact hall n t ht
    exact ⟨hduration.counter_keys, hduration.counters, hduration.histogram_keys,
      hduration.histograms, hassign (by decide) (hassign (by decide) h.counter_helps),
      hassign (by decide) h.histogram_helps⟩

/-- A record call whose texts are plain keeps the registry printable. -/
theorem perform (h : Printable m) (order : IterationOrder) {call : Call} (hc : call.Plainly) :
    Printable (Metrics.perform order m call) := by
  have hsuccess : ∀ b, ValidName isLabelChar "success".toList ∧ Plain (ofBool b) :=
    fun b ↦ ⟨by decide, plain_ofBool b⟩
  have hraise : ∀ {m : MetricsRegistry} (name help : Str) {labels : Labels}, Printable m →
      name ∈ counterNames → PlainHelp help → Readable labels.labels.entries →
        Printable ((m.getCounter name help labels).2.increment ⟨name, labels⟩) :=
    fun _ _ _ hm hn hh hl ↦ (hm.getCounter hn hh hl).increment _
  cases call with
  | initializeMetrics => exact h.initializeMetrics
  | format =>
    rw [perform_format]
    exact h
  | recordHttpRequest method path status d =>
    have hcount := hraise httpRequests httpRequestsHelp h (by decide) (by decide)
      (readable_httpLabels hc.1 hc.2 status)
    exact (hcount.getHistogram httpDurationHelp (by decide) durationBuckets).observe _ d
  | recordDbOperation operation success =>
    refine hraise dbOperations _ h (by decide) (by decide) (readable_ofList ?_)
    simp only [Readable, List.forall_mem_cons]
    exact ⟨⟨by decide, hc⟩, hsuccess success, by simp⟩
  | recordDeviceOperation operation id success =>
    refine hraise deviceOperations _ h (by decide) (by decide) (readable_ofList ?_)
    simp only [Readable, List.forall_mem_cons]
    exact ⟨⟨by decide, hc⟩, ⟨by decide, plain_ofInt id⟩, hsuccess success, by simp⟩
  | recordServiceOperation operation id success =>
    refine hraise serviceOperations _ h (by decide) (by decide) (readable_ofList ?_)
    simp only [Readable, List.forall_mem_cons]
    exact ⟨⟨by decide, hc⟩, ⟨by decide, plain_ofInt id⟩, hsuccess success, by simp⟩
  | recordAuthAttempt username success =>
    have hattempt : Printable ((m.getCounter authAttempts
        "Total number of authentication attempts".toList (authLabels username success)).2.increment
          ⟨authAttempts, authLabels username success⟩) := by
      refine hraise _ _ h (by decide) (by decide) (readable_ofList ?_)
      simp only [Readable, List.forall_mem_cons]
      exact ⟨⟨by decide, hc⟩, hsuccess success, by simp⟩
    cases success with
    | true => exact hattempt
    | false =>
      exact hraise _ authFailuresHelp hattempt (by decide) (by decide)
        (by simp [Labels.empty, OrderedMap.empty, Readable])

end Printable

end Preservation

end ServiceSystem.Metrics
