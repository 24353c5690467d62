import ServiceSystem.Metrics.Buckets
import ServiceSystem.Metrics.Entries
import ServiceSystem.Metrics.Printing

namespace ServiceSystem.Metrics

open Foundations

inductive Kind
  | counter
  | histogram
  deriving DecidableEq

def Kind.word : Kind → Str
  | counter => "counter".toList
  | histogram => "histogram".toList

structure Family where
  name : Str
  kind : Kind
  deriving DecidableEq

namespace Family

def sampleNames (f : Family) : List Str :=
  match f.kind with
  | .counter => [f.name]
  | .histogram => histogramSamples f.name

/-- The family that a line is the `TYPE` line of. -/
def ofLine (l : Str) : Option Family :=
  if "# TYPE ".toList <+: l then
    let rest := l.drop 7
    if " counter".toList <:+ rest then some ⟨rest.take (rest.length - 8), .counter⟩
    else if " histogram".toList <:+ rest then some ⟨rest.take (rest.length - 10), .histogram⟩
    else none
  else none

/-- The line is a sample of the family: one of its names, then labels or a blank. -/
def Names (f : Family) (l : Str) : Prop :=
  ∃ n ∈ f.sampleNames, n ++ ['{'] <+: l ∨ n ++ [' '] <+: l

instance (f : Family) (l : Str) : Decidable (f.Names l) :=
  inferInstanceAs (Decidable (∃ n ∈ f.sampleNames, _))

end Family

/-- Every line that is neither blank nor a comment is a sample of the family whose `TYPE`
line came last. -/
def Grouped (current : Option Family) : List Str → Prop
  | [] => True
  | l :: ls =>
    (Family.ofLine l = none → l = [] ∨ l.head? = some '#' ∨ ∃ f ∈ current, f.Names l) ∧
      Grouped ((Family.ofLine l).or current) ls

instance decidableGrouped : ∀ current ls, Decidable (Grouped current ls)
  | _, [] => .isTrue trivial
  | current, l :: ls =>
    let _ := decidableGrouped ((Family.ofLine l).or current) ls
    inferInstanceAs (Decidable (_ ∧ _))

namespace Family

theorem ofLine_typeLine (f : Family) :
    ofLine ("# TYPE ".toList ++ f.name ++ [' '] ++ f.kind.word) = some f := by
  obtain ⟨name, kind⟩ := f
  have hstart (k : Str) : "# TYPE ".toList <+: "# TYPE ".toList ++ name ++ [' '] ++ k := by
    rw [List.append_assoc, List.append_assoc]
    exact List.prefix_append _ _
  have hdrop (k : Str) :
      ("# TYPE ".toList ++ name ++ [' '] ++ k).drop 7 = name ++ ([' '] ++ k) := by
    rw [List.append_assoc, List.append_assoc]
    rfl
  have hcounter : [' '] ++ "counter".toList = " counter".toList := by decide
  have hhistogram : [' '] ++ "histogram".toList = " histogram".toList := by decide
  have htake (k : Str) : (name ++ k).take ((name ++ k).length - k.length) = name := by
    rw [List.length_append, Nat.add_sub_cancel, List.take_left]
  cases kind with
  | counter =>
    have hsuffix := List.suffix_append name " counter".toList
    have htype : ofLine ("# TYPE ".toList ++ name ++ [' '] ++ "counter".toList) =
        some ⟨(name ++ " counter".toList).take ((name ++ " counter".toList).length - 8),
          .counter⟩ := by
      rw [ofLine, if_pos (hstart _), hdrop, hcounter, if_pos hsuffix]
    exact htype.trans (congrArg (fun n ↦ some (Family.mk n .counter)) (htake " counter".toList))
  | histogram =>
    have hsuffix := List.suffix_append name " histogram".toList
    have hne : ¬ " counter".toList <:+ name ++ " histogram".toList := by
      intro h
      have hc := List.suffix_of_suffix_length_le h hsuffix (by decide)
      revert hc
      decide
    have htype : ofLine ("# TYPE ".toList ++ name ++ [' '] ++ "histogram".toList) =
        some ⟨(name ++ " histogram".toList).take ((name ++ " histogram".toList).length - 10),
          .histogram⟩ := by
      rw [ofLine, if_pos (hstart _), hdrop, hhistogram, if_neg hne, if_pos hsuffix]
    exact htype.trans (congrArg (fun n ↦ some (Family.mk n .histogram)) (htake " histogram".toList))

theorem ofLine_helpLine (name help : Str) :
    ofLine ("# HELP ".toList ++ name ++ [' '] ++ help) = none := by
  rw [ofLine, if_neg]
  simp

/-- No sample is taken for a `TYPE` line: it ends in a digit. -/
theorem ofLine_of_digit {l : Str} {d : Char} (hd : d.isDigit = true) (hl : l.getLast? = some d) :
    ofLine l = none := by
  have hlast {k : Str} {c : Char} (hc : k.getLast? = some c) (hk : k <:+ l.drop 7) : d = c := by
    obtain ⟨s, hs⟩ := hk.trans (List.drop_suffix 7 l)
    rw [← hs, List.getLast?_append, hc] at hl
    exact (Option.some.inj hl).symm
  have hcounter : ¬ " counter".toList <:+ l.drop 7 := by
    intro h
    obtain rfl := hlast (c := 'r') (by decide) h
    exact absurd hd (by decide)
  have hhistogram : ¬ " histogram".toList <:+ l.drop 7 := by
    intro h
    obtain rfl := hlast (c := 'm') (by decide) h
    exact absurd hd (by decide)
  rw [ofLine, if_neg hcounter, if_neg hhistogram, ite_self]

end Family

theorem grouped_append {f : Family} {ls rest : List Str}
    (hls : ∀ l ∈ ls, Family.ofLine l = none ∧ f.Names l) (hrest : Grouped (some f) rest) :
    Grouped (some f) (ls ++ rest) := by
  induction ls with
  | nil => exact hrest
  | cons l ls ih =>
    obtain ⟨⟨hnone, hnames⟩, hls⟩ := List.forall_mem_cons.mp hls
    refine ⟨fun _ ↦ .inr (.inr ⟨f, rfl, hnames⟩), ?_⟩
    rw [hnone, Option.none_or]
    exact ih hls

/-- The lines of one family can stand anywhere. -/
theorem grouped_family (f : Family) (help : Str) {ls rest : List Str}
    (hls : ∀ l ∈ ls, Family.ofLine l = none ∧ f.Names l) (hrest : ∀ current, Grouped current rest)
    (current : Option Family) :
    Grouped current (typeHelpLines f.name help f.kind.word ++ ls ++ rest) := by
  have hsamples := grouped_append hls (hrest (some f))
  rw [List.append_assoc, typeHelpLines, List.cons_append]
  refine ⟨fun h ↦ ?_, ?_⟩
  · rw [f.ofLine_typeLine] at h
    cases h
  · rw [f.ofLine_typeLine, Option.some_or]
    split_ifs
    · exact hsamples
    · refine ⟨fun _ ↦ .inr (.inl rfl), ?_⟩
      rw [Family.ofLine_helpLine, Option.none_or]
      exact hsamples

section Lines

theorem getLast_ofNat (n : ℕ) : ∃ d, d.isDigit = true ∧ (Str.ofNat n).getLast? = some d := by
  obtain ⟨d, hd⟩ := Option.ne_none_iff_exists'.mp
    (mt List.getLast?_eq_none_iff.mp (Str.ofNat_ne_nil n))
  exact ⟨d, Str.isDigit_ofNat (List.mem_of_getLast? hd), hd⟩

theorem getLast_fixed (precision : ℕ) (q : ℚ) :
    ∃ d, d.isDigit = true ∧ (Str.fixed precision q).getLast? = some d := by
  obtain ⟨sign, whole, frac, he, -, hne, hwhole, hfrac⟩ := Str.fixed_shape precision q
  have hlast {ds : Str} (hds : ds ≠ []) (hdigits : ∀ c ∈ ds, c.isDigit) (before : Str) :
      ∃ d, d.isDigit = true ∧ (before ++ ds).getLast? = some d := by
    obtain ⟨d, hd⟩ := Option.ne_none_iff_exists'.mp (mt List.getLast?_eq_none_iff.mp hds)
    refine ⟨d, hdigits d (List.mem_of_getLast? hd), ?_⟩
    rw [List.getLast?_append, hd, Option.some_or]
  rw [he]
  rcases hfrac with rfl | ⟨ds, rfl, hds, hdigits⟩
  · rw [List.append_nil]
    exact hlast hne hwhole sign
  · have h := hlast hds hdigits (sign ++ whole ++ ['.'])
    rwa [List.append_assoc (sign ++ whole)] at h

/-- A line that starts with a name of the family and ends in a number. -/
theorem sample_line {f : Family} {n rest v : Str} (hn : n ∈ f.sampleNames)
    (hv : ∃ d, d.isDigit = true ∧ v.getLast? = some d)
    (h : rest = [] ∨ rest.head? = some '{') :
    Family.ofLine (n ++ rest ++ [' '] ++ v) = none ∧ f.Names (n ++ rest ++ [' '] ++ v) := by
  obtain ⟨d, hd, hlast⟩ := hv
  have hend : (n ++ rest ++ [' '] ++ v).getLast? = some d := by
    rw [List.getLast?_append, hlast, Option.some_or]
  refine ⟨Family.ofLine_of_digit hd hend, n, hn, ?_⟩
  rcases h with rfl | h
  · refine .inr ?_
    rw [List.append_nil]
    exact List.prefix_append _ _
  · refine .inl ?_
    obtain ⟨t, rfl⟩ := List.head?_eq_some_iff.mp h
    exact ⟨t ++ [' '] ++ v, by simp⟩

theorem toString_head (l : Labels) : l.toString = [] ∨ l.toString.head? = some '{' := by
  unfold Labels.toString
  split_ifs
  · exact .inl rfl
  · exact .inr rfl

theorem counter_line (c : ExactCounter) :
    Family.ofLine c.line = none ∧ (Family.mk c.name .counter).Names c.line :=
  sample_line (List.mem_singleton_self _) (getLast_fixed 0 c.value) (toString_head c.labels)

theorem histogram_line (h : Histogram) :
    ∀ l ∈ h.lines, Family.ofLine l = none ∧ (Family.mk h.name .histogram).Names l := by
  have hnames (suffix : Str) (hs : suffix ∈ ["_bucket".toList, "_sum".toList, "_count".toList]) :
      h.name ++ suffix ∈ (Family.mk h.name .histogram).sampleNames := by
    simp only [List.mem_cons, List.not_mem_nil, or_false] at hs
    rcases hs with rfl | rfl | rfl <;> simp [Family.sampleNames, histogramSamples]
  have hbucket (le : Str) (n : ℕ) : Family.ofLine (h.bucketLine le n) = none ∧
      (Family.mk h.name .histogram).Names (h.bucketLine le n) := by
    have hline : h.bucketLine le n = (h.name ++ "_bucket".toList) ++ ("\x7ble=\"".toList ++ le ++
        ['"'] ++ (if h.labelPart = [] then [] else ',' :: h.labelPart) ++ ['}']) ++ [' '] ++
          Str.ofNat n := by
      simp [Histogram.bucketLine]
    rw [hline]
    exact sample_line (hnames _ (by simp)) (getLast_ofNat n) (.inr rfl)
  intro l hl
  rw [Histogram.lines_eq] at hl
  rcases List.mem_append.mp hl with hl | hl
  · obtain ⟨b, -, rfl⟩ := List.mem_map.mp hl
    exact hbucket _ _
  · simp only [List.mem_cons, List.not_mem_nil, or_false] at hl
    rcases hl with rfl | rfl | rfl
    · exact hbucket _ _
    · exact sample_line (hnames _ (by simp)) (getLast_fixed 6 h.sum) (toString_head h.labels)
    · exact sample_line (hnames _ (by simp)) (getLast_ofNat h.count) (toString_head h.labels)

end Lines

/-- Nothing in the labels breaks a line. -/
def Labels.Unbroken (l : Labels) : Prop := ∀ p ∈ l.labels.entries, '\n' ∉ p.1 ∧ '\n' ∉ p.2

theorem Labels.Unbroken.toString {l : Labels} (h : l.Unbroken) : '\n' ∉ l.toString := by
  have hlabel : ∀ t ∈ l.labels.entries.map Exposition.labelText, '\n' ∉ t := by
    intro t ht
    obtain ⟨p, hp, rfl⟩ := List.mem_map.mp ht
    simp [Exposition.labelText, h p hp]
  have hlist := Exposition.notMem_intercalate (show '\n' ∉ [','] by decide) hlabel
  rw [Labels.toString_eq, Exposition.labelsText]
  split_ifs
  · exact List.not_mem_nil
  · simp [hlist]

section Unbroken

theorem newline_notMem_ofNat (n : ℕ) : '\n' ∉ Str.ofNat n := fun h ↦
  absurd (Str.isDigit_ofNat h) (by decide)

theorem newline_notMem_fixed (precision : ℕ) (q : ℚ) : '\n' ∉ Str.fixed precision q := fun h ↦
  absurd (Str.mem_fixed h) (by decide)

theorem counter_line_unbroken {c : ExactCounter} (hn : '\n' ∉ c.name) (hl : c.labels.Unbroken) :
    '\n' ∉ c.line := by
  simp [ExactCounter.line, hn, hl.toString, newline_notMem_fixed]

theorem histogram_lines_unbroken {h : Histogram} (hn : '\n' ∉ h.name) (hl : h.labels.Unbroken) :
    ∀ l ∈ h.lines, '\n' ∉ l := by
  have hpart : '\n' ∉ h.labelPart := by
    have htext := hl.toString
    unfold Histogram.labelPart
    split
    · rename_i s hs
      rw [hs] at htext
      exact fun hs ↦ htext (List.mem_cons_of_mem _ hs)
    · exact htext
  have hbucket {le : Str} (hle : '\n' ∉ le) (n : ℕ) : '\n' ∉ h.bucketLine le n := by
    have hlabels : '\n' ∉ (if h.labelPart = [] then [] else ',' :: h.labelPart) := by
      split_ifs <;> simp [hpart]
    simp [Histogram.bucketLine, hn, hle, hlabels, newline_notMem_ofNat]
  intro l hmem
  rw [Histogram.lines_eq] at hmem
  rcases List.mem_append.mp hmem with hmem | hmem
  · obtain ⟨b, -, rfl⟩ := List.mem_map.mp hmem
    exact hbucket (newline_notMem_fixed 4 b) _
  · simp only [List.mem_cons, List.not_mem_nil, or_false] at hmem
    rcases hmem with rfl | rfl | rfl
    · exact hbucket (by decide) _
    · simp [hn, hl.toString, newline_notMem_fixed]
    · simp [hn, hl.toString, newline_notMem_ofNat]

theorem typeHelpLines_unbroken {name help : Str} (hn : '\n' ∉ name) (hh : '\n' ∉ help)
    (kind : Kind) : ∀ l ∈ typeHelpLines name help kind.word, '\n' ∉ l := by
  have hkind : '\n' ∉ kind.word := by cases kind <;> decide
  unfold typeHelpLines
  split_ifs <;> simp [hn, hh, hkind]

end Unbroken

namespace Families

variable {α : Type} {f : Families α}

structure Unbroken (f : Families α) : Prop where
  keys : ∀ name ∈ f.keys, '\n' ∉ name
  labels : ∀ s a, f.get s = some a → s.labels.Unbroken

theorem Unbroken.emplaceSeries (h : f.Unbroken) {s : SeriesKey} (hn : '\n' ∉ s.name)
    (hl : s.labels.Unbroken) (fresh : α) : (f.emplaceSeries s fresh).Unbroken where
  keys name hname := by
    rcases mem_keys_emplaceSeries.mp hname with hname | rfl
    · exact h.keys name hname
    · exact hn
  labels s' a ha := by
    rw [emplaceSeries_get] at ha
    split_ifs at ha with hs
    · rwa [hs]
    · exact h.labels s' a ha

theorem Unbroken.update (h : f.Unbroken) (s : SeriesKey) (u : α → α) : (f.update s u).Unbroken where
  keys name hname := h.keys name (by rwa [Families.update, OrderedMap.modify_keys] at hname)
  labels s' a ha := by
    rcases update_get_eq_some ha with ha | ⟨b, hb, -⟩
    · exact h.labels s' a ha
    · exact h.labels s' b hb

end Families

def HelpsUnbroken (helps : OrderedMap Str Str) : Prop :=
  ∀ name help, helps.get? name = some help → '\n' ∉ help

theorem HelpsUnbroken.assign {helps : OrderedMap Str Str} (h : HelpsUnbroken helps) {help : Str}
    (hh : '\n' ∉ help) (name : Str) : HelpsUnbroken (helps.assign name help) := by
  intro n t ht
  rw [OrderedMap.assign_get] at ht
  split_ifs at ht
  · obtain rfl := Option.some.inj ht
    exact hh
  · exact h n t ht

theorem HelpsUnbroken.getD {helps : OrderedMap Str Str} (h : HelpsUnbroken helps) (name : Str) :
    '\n' ∉ (helps.get? name).getD [] := by
  cases hn : helps.get? name with
  | none => exact List.not_mem_nil
  | some help => exact h name help hn

structure ExactRegistry.Unbroken (m : ExactRegistry) : Prop where
  counters : m.counters.Unbroken
  histograms : m.histograms.Unbroken
  counterHelps : HelpsUnbroken m.counterHelps
  histogramHelps : HelpsUnbroken m.histogramHelps

/-- No text that is registered breaks a line. -/
def RegistryOp.Unbroken : RegistryOp → Prop
  | getCounter name help labels | getHistogram name help _ labels =>
    '\n' ∉ name ∧ '\n' ∉ help ∧ labels.Unbroken
  | initializeMetrics | increment .. | observe .. => True

namespace RegistryOp

variable {m : ExactRegistry}

theorem labels_unbroken {l : Labels} (h : Exposition.Readable l.labels.entries) : l.Unbroken :=
  fun p hp ↦ ⟨(h p hp).1.newline_notMem (by decide), fun hn ↦ ((h p hp).2 _ hn).2.2 rfl⟩

theorem empty_unbroken : Labels.empty.Unbroken := fun _ hp ↦ absurd hp List.not_mem_nil

theorem initializeMetrics_unbroken (h : m.Unbroken) : m.initializeMetrics.Unbroken := by
  unfold ExactRegistry.initializeMetrics
  split_ifs
  · exact h
  · refine ⟨Families.Unbroken.emplaceSeries ?_ (by decide) empty_unbroken _,
      h.histograms.emplaceSeries (by decide) empty_unbroken _,
      (h.counterHelps.assign (by decide) _).assign (by decide) _,
      h.histogramHelps.assign (by decide) _⟩
    exact List.foldlRecOn (motive := Families.Unbroken) MetricsRegistry.expectedLabels _ h.counters
      (fun f hf l hl ↦ hf.emplaceSeries (show '\n' ∉ MetricsRegistry.httpRequests by decide)
        (labels_unbroken (readable_expectedLabels l hl)) _)

theorem storeHelp_unbroken {helps : OrderedMap Str Str} (h : HelpsUnbroken helps) {help : Str}
    (hh : '\n' ∉ help) (name : Str) :
    HelpsUnbroken (MetricsRegistry.storeHelp helps name help) := by
  unfold MetricsRegistry.storeHelp
  split_ifs
  · exact h
  · exact h.assign hh name

theorem exec_unbroken {op : RegistryOp} (hop : op.Unbroken) (h : m.Unbroken) :
    (op.exec m).Unbroken := by
  cases op with
  | initializeMetrics => exact initializeMetrics_unbroken h
  | getCounter name help labels =>
    refine ⟨?_, h.histograms, storeHelp_unbroken h.counterHelps hop.2.1 name, h.histogramHelps⟩
    rw [exec, ExactRegistry.getCounter, MetricsRegistry.findOrCreate_eq]
    exact h.counters.emplaceSeries hop.1 hop.2.2 _
  | getHistogram name help buckets labels =>
    refine ⟨h.counters, ?_, h.counterHelps, storeHelp_unbroken h.histogramHelps hop.2.1 name⟩
    rw [exec, ExactRegistry.getHistogram, MetricsRegistry.findOrCreate_eq]
    exact h.histograms.emplaceSeries hop.1 hop.2.2 _
  | increment s val =>
    exact ⟨h.counters.update s _, h.histograms, h.counterHelps, h.histogramHelps⟩
  | observe s value =>
    exact ⟨h.counters, h.histograms.update s _, h.counterHelps, h.histogramHelps⟩

theorem run_unbroken {ops : List RegistryOp} (hops : ∀ op ∈ ops, op.Unbroken) (h : m.Unbroken) :
    (run m ops).Unbroken :=
  List.foldlRecOn (motive := ExactRegistry.Unbroken) ops _ h
    (fun _ hm op hop ↦ exec_unbroken (hops op hop) hm)

end RegistryOp

section Format

variable {α : Type} {f : Families α} {helps : OrderedMap Str Str} {kind : Kind}
  {lines : α → List Str}

def familyLines (f : Families α) (helps : OrderedMap Str Str) (kind : Kind) (lines : α → List Str)
    (name : Str) : List Str :=
  typeHelpLines name ((helps.get? name).getD []) kind.word ++
    (f.get? name).elim [] (fun labelMap ↦ labelMap.entries.flatMap (fun p ↦ lines p.2))

theorem familyText_eq_lines {formatSeries : α → Str}
    (h : ∀ a, formatSeries a = (lines a).flatMap (· ++ ['\n'])) (name : Str) :
    MetricsRegistry.familyText f helps kind.word formatSeries name =
      (familyLines f helps kind lines name).flatMap (· ++ ['\n']) := by
  rw [MetricsRegistry.familyText, familyLines, List.flatMap_append, formatTypeHelp]
  cases f.get? name with
  | none => rfl
  | some labelMap => simp only [Option.elim_some, List.flatMap_assoc, h]

theorem mem_seriesLines {name l : Str} (h : l ∈ (f.get? name).elim []
    (fun labelMap ↦ labelMap.entries.flatMap (fun p ↦ lines p.2))) :
    ∃ labels a, f.get ⟨name, labels⟩ = some a ∧ l ∈ lines a := by
  cases hf : f.get? name with
  | none =>
    rw [hf] at h
    cases h
  | some labelMap =>
    rw [hf, Option.elim_some] at h
    obtain ⟨p, hp, hl⟩ := List.mem_flatMap.mp h
    refine ⟨p.1, p.2, ?_, hl⟩
    rw [Families.get, hf]
    exact OrderedMap.mem_entries.mp hp

theorem familyLines_unbroken (hf : f.Unbroken) (hh : HelpsUnbroken helps)
    (hlines : ∀ s a, f.get s = some a → ∀ l ∈ lines a, '\n' ∉ l) {name : Str} (hn : name ∈ f.keys) :
    ∀ l ∈ familyLines f helps kind lines name, '\n' ∉ l := by
  intro l hl
  rcases List.mem_append.mp hl with hl | hl
  · exact typeHelpLines_unbroken (hf.keys name hn) (hh.getD name) kind l hl
  · obtain ⟨labels, a, ha, hl⟩ := mem_seriesLines hl
    exact hlines _ a ha l hl

theorem grouped_families (hlines : ∀ s a, f.get s = some a →
      ∀ l ∈ lines a, Family.ofLine l = none ∧ (Family.mk s.name kind).Names l)
    {rest : List Str} (hrest : ∀ current, Grouped current rest) (names : List Str)
    (current : Option Family) :
    Grouped current (names.flatMap (familyLines f helps kind lines) ++ rest) := by
  induction names generalizing current with
  | nil => exact hrest current
  | cons name names ih =>
    rw [List.flatMap_cons, List.append_assoc]
    refine grouped_family ⟨name, kind⟩ _ (fun l hl ↦ ?_) ih current
    obtain ⟨labels, a, ha, hl⟩ := mem_seriesLines hl
    exact hlines ⟨name, labels⟩ a ha l hl

end Format

namespace ExactRegistry

variable {m : ExactRegistry}

def lines (order : IterationOrder) (m : ExactRegistry) : List Str :=
  (order.permute m.counters.keys).flatMap
      (familyLines m.counters m.counterHelps .counter (fun c ↦ [c.line])) ++
    (order.permute m.histograms.keys).flatMap
      (familyLines m.histograms m.histogramHelps .histogram Histogram.lines)

theorem format_eq_lines (order : IterationOrder) (m : ExactRegistry) :
    m.format order = (m.lines order).flatMap (· ++ ['\n']) := by
  have hcounter (c : ExactCounter) : c.format = [c.line].flatMap (· ++ ['\n']) := by
    rw [List.flatMap_singleton]
    rfl
  have hhistogram (h : Histogram) : h.format = h.lines.flatMap (· ++ ['\n']) := rfl
  rw [format, lines, List.flatMap_append, List.flatMap_assoc, List.flatMap_assoc]
  refine congrArg₂ (· ++ ·) (List.flatMap_congr (fun name _ ↦ ?_))
    (List.flatMap_congr (fun name _ ↦ ?_))
  · exact @familyText_eq_lines _ _ _ .counter _ _ hcounter name
  · exact @familyText_eq_lines _ _ _ .histogram _ _ hhistogram name

theorem splitLines_format (hm : m.KeysMatch) (h : m.Unbroken) (order : IterationOrder) :
    Str.splitLines (m.format order) = (m.lines order, []) := by
  have hlines : ∀ l ∈ m.lines order, '\n' ∉ l := by
    intro l hl
    rcases List.mem_append.mp hl with hl | hl
    · obtain ⟨name, hname, hl⟩ := List.mem_flatMap.mp hl
      refine familyLines_unbroken h.counters h.counterHelps (fun s c hc l hl ↦ ?_)
        ((order.perm _).subset hname) l hl
      obtain rfl := hm.counters s c hc
      obtain rfl := List.mem_singleton.mp hl
      exact counter_line_unbroken (h.counters.keys _ (Families.name_mem_keys hc))
        (h.counters.labels _ c hc)
    · obtain ⟨name, hname, hl⟩ := List.mem_flatMap.mp hl
      refine familyLines_unbroken h.histograms h.histogramHelps (fun s x hx l hl ↦ ?_)
        ((order.perm _).subset hname) l hl
      obtain rfl := hm.histograms s x hx
      exact histogram_lines_unbroken (h.histograms.keys _ (Families.name_mem_keys hx))
        (h.histograms.labels _ x hx) l hl
  have hsplit := Str.splitLines_flatMap id (m.lines order) hlines
  rw [List.map_id] at hsplit
  rw [format_eq_lines]
  exact hsplit

theorem grouped_lines (hm : m.KeysMatch) (order : IterationOrder) :
    Grouped none (m.lines order) := by
  have hnil (current : Option Family) : Grouped current [] := trivial
  refine grouped_families (fun s c hc l hl ↦ ?_) (fun current ↦ ?_) _ none
  · obtain rfl := hm.counters s c hc
    obtain rfl := List.mem_singleton.mp hl
    exact counter_line c
  · rw [← List.append_nil (List.flatMap _ _)]
    refine grouped_families (fun s x hx l hl ↦ ?_) hnil _ current
    obtain rfl := hm.histograms s x hx
    exact histogram_line x l hl

end ExactRegistry

inductive RegistryCall
  | call (op : RegistryOp)
  | record (call : Call)

namespace RegistryCall

def steps : RegistryCall → List RegistryOp
  | call op => [op]
  | record c => c.steps

def Unbroken (call : RegistryCall) : Prop := ∀ op ∈ call.steps, op.Unbroken

def run (calls : List RegistryCall) : ExactRegistry := RegistryOp.run .empty (calls.flatMap steps)

theorem run_append (calls calls' : List RegistryCall) :
    run (calls ++ calls') = RegistryOp.run (run calls) (calls'.flatMap steps) := by
  rw [run, List.flatMap_append, RegistryOp.run_append]
  rfl

/-- The registry after some calls matches its keys, has kept what it held at any earlier time,
and prints each sample under the family it belongs to. -/
structure Holds (calls : List RegistryCall) : Prop where
  keys : (run calls).KeysMatch
  keeps : ∀ before after, calls = before ++ after →
    RegistryOp.Keeps (run before) (run calls) (after.flatMap steps)
  grouped : ∀ order, Grouped none (Str.splitLines ((run calls).format order)).1

theorem registry_keys (calls : List RegistryCall) : (run calls).KeysMatch ∧
    (∀ before after, calls = before ++ after →
      RegistryOp.Keeps (run before) (run calls) (after.flatMap steps)) ∧
    ((∀ call ∈ calls, call.Unbroken) → Holds calls) := by
  have hkeys : (run calls).KeysMatch := RegistryOp.run_keysMatch _ RegistryOp.empty_keysMatch
  have hkeeps : ∀ before after, calls = before ++ after →
      RegistryOp.Keeps (run before) (run calls) (after.flatMap steps) := by
    rintro before after rfl
    rw [run_append]
    exact RegistryOp.run_keeps _ _
  refine ⟨hkeys, hkeeps, fun h ↦ ⟨hkeys, hkeeps, fun order ↦ ?_⟩⟩
  have hempty : ExactRegistry.empty.Unbroken := by
    refine ⟨⟨?_, ?_⟩, ⟨?_, ?_⟩, ?_, ?_⟩
    · exact fun _ h ↦ absurd h List.not_mem_nil
    · exact fun _ _ h ↦ by cases h
    · exact fun _ h ↦ absurd h List.not_mem_nil
    · exact fun _ _ h ↦ by cases h
    · exact fun _ _ h ↦ by cases h
    · exact fun _ _ h ↦ by cases h
  have hops : ∀ op ∈ calls.flatMap steps, op.Unbroken := by
    intro op hop
    obtain ⟨call, hcall, hop⟩ := List.mem_flatMap.mp hop
    exact h call hcall op hop
  rw [ExactRegistry.splitLines_format hkeys (RegistryOp.run_unbroken hops hempty)]
  exact ExactRegistry.grouped_lines hkeys order

/-- A username that closes its series, adds another sample and comments out the rest. -/
def forgedAttempt : RegistryCall :=
  .record (.recordAuthAttempt "x\"\x7d 0\nother 5\n#".toList false)

def forgedText : Str :=
  "# TYPE auth_attempts_total counter\n".toList ++
    "# HELP auth_attempts_total Total number of authentication attempts\n".toList ++
    "auth_attempts_total\x7bsuccess=\"false\",username=\"x\"\x7d 0\nother 5\n#\"\x7d 1\n".toList ++
    "# TYPE auth_failures_total counter\n".toList ++
    "# HELP auth_failures_total Total number of authentication failures\n".toList ++
    "auth_failures_total 1\n".toList

theorem forgedAttempt_not_holds : ¬ ∀ calls : List RegistryCall, Holds calls := by
  intro h
  have hgrouped := (h [forgedAttempt]).grouped .sorted
  have htext : (run [forgedAttempt]).format .sorted = forgedText := by decide +kernel
  rw [htext] at hgrouped
  revert hgrouped
  decide +kernel

end RegistryCall

end ServiceSystem.Metrics
