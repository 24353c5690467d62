import ServiceSystem.Metrics.Registry
import ServiceSystem.Foundations.Decimals
import Mathlib.Data.List.Induction
import Mathlib.Data.List.Nodup

namespace ServiceSystem.Metrics

open Foundations Exposition

namespace Histogram

/-- A new histogram after a sequence of observations. -/
def observed (name help : Str) (buckets : List ℚ) (labels : Labels) (values : List ℚ) :
    Histogram := values.foldl observe (.new name help buckets labels)

theorem observed_eq (name help : Str) (buckets : List ℚ) (labels : Labels) (values : List ℚ) :
    observed name help buckets labels values =
      ⟨name, help, labels, buckets, values, values.sum, values.length⟩ := by
  induction values using List.reverseRecOn with
  | nil => rfl
  | append_singleton values v ih =>
    unfold observed at ih ⊢
    rw [List.foldl_append, ih]
    simp [observe]

def atMost (values : List ℚ) (b : ℚ) : ℕ := values.countP (· ≤ b)

theorem atMost_le_length (values : List ℚ) (b : ℚ) : atMost values b ≤ values.length :=
  List.countP_le_length

theorem atMost_mono (values : List ℚ) {b₁ b₂ : ℚ} (h : b₁ ≤ b₂) :
    atMost values b₁ ≤ atMost values b₂ := by
  refine List.countP_mono_left (fun v _ hv ↦ ?_)
  rw [decide_eq_true_eq] at hv ⊢
  exact hv.trans h

theorem atMost_append (values : List ℚ) (v b : ℚ) :
    atMost (values ++ [v]) b = if v ≤ b then atMost values b + 1 else atMost values b := by
  unfold atMost
  rw [List.countP_append, List.countP_singleton]
  split_ifs <;> simp_all

theorem countValue_map (buckets : List ℚ) (f : ℚ → ℕ) (v : ℚ) :
    countValue buckets (buckets.map f) v =
      buckets.map (fun b ↦ if v ≤ b then f b + 1 else f b) := by
  rw [countValue, List.zipWith_map_right, List.zipWith_self]

theorem bucketCounts_eq (h : Histogram) : h.bucketCounts = h.buckets.map (atMost h.values) := by
  unfold bucketCounts
  induction h.values using List.reverseRecOn with
  | nil => rfl
  | append_singleton values v ih =>
    rw [List.foldl_append, ih, List.foldl_cons, List.foldl_nil, countValue_map]
    exact List.map_congr_left (fun b _ ↦ (atMost_append values v b).symm)

def bucketLines (h : Histogram) (count : ℚ → ℕ) : List Str :=
  h.buckets.map (fun b ↦ h.bucketLine (Str.fixed 4 b) (count b))

theorem lines_eq (h : Histogram) : h.lines = h.bucketLines (atMost h.values) ++
    [h.bucketLine "+Inf".toList h.count,
      h.name ++ "_sum".toList ++ h.labels.toString ++ [' '] ++ Str.fixed 6 h.sum,
      h.name ++ "_count".toList ++ h.labels.toString ++ [' '] ++ Str.ofNat h.count] := by
  rw [lines, bucketCounts_eq, List.zipWith_map_right, List.zipWith_self, bucketLines]

/-- The scrape reports `count b` for each bound `b` and `total` twice, on the `+Inf` line and
as the number of observations. -/
def Reports (h : Histogram) (count : ℚ → ℕ) (total : ℕ) : Prop :=
  h.format = (h.bucketLines count ++ [h.bucketLine "+Inf".toList total,
    h.name ++ "_sum".toList ++ h.labels.toString ++ [' '] ++ Str.fixed 6 h.sum,
    h.name ++ "_count".toList ++ h.labels.toString ++ [' '] ++ Str.ofNat total]).flatMap
      (· ++ ['\n'])

theorem format_reports (h : Histogram) : h.Reports (atMost h.values) h.count := by
  rw [Reports, format, lines_eq]

/-- The text between the quotes of the `le` label on a bucket line. -/
def leText (name line : Str) : Option Str :=
  ((name ++ "_bucket\x7ble=\"".toList).isPrefixOf? line).map (·.takeWhile (· ≠ '"'))

def leTexts (h : Histogram) : List Str := h.lines.filterMap (leText h.name)

theorem leText_bucketLine (h : Histogram) {le : Str} (hle : Plain le) (n : ℕ) :
    leText h.name (h.bucketLine le n) = some le := by
  have hp : ∀ c ∈ le, decide (c ≠ '"') = true := fun c hc ↦ decide_eq_true (hle c hc).1
  have hline : (h.name ++ "_bucket\x7ble=\"".toList) ++ (le ++ '"' ::
      ((if h.labelPart = [] then [] else ',' :: h.labelPart) ++ ['}', ' '] ++ Str.ofNat n)) =
        h.bucketLine le n := by
    simp only [bucketLine, List.append_assoc, List.cons_append, List.nil_append]
  rw [leText, List.isPrefixOf?_eq_some_iff_append_eq.mpr hline, Option.map_some,
    List.takeWhile_append_of_pos hp, List.takeWhile_cons_of_neg (by simp), List.append_nil]

theorem leText_eq_none {name suffix s : Str} (h : ¬ "_bucket\x7ble=\"".toList <+: suffix ++ s) :
    leText name (name ++ suffix ++ s) = none := by
  rw [leText, Option.map_eq_none_iff, Option.eq_none_iff_forall_ne_some]
  intro t ht
  rw [List.isPrefixOf?_eq_some_iff_append_eq, List.append_assoc, List.append_assoc,
    List.append_cancel_left_eq] at ht
  exact h ⟨t, ht⟩

theorem leTexts_eq (h : Histogram) :
    h.leTexts = h.buckets.map (Str.fixed 4) ++ ["+Inf".toList] := by
  have hbuckets : (h.bucketLines (atMost h.values)).filterMap (leText h.name) =
      h.buckets.map (Str.fixed 4) := by
    rw [bucketLines, List.filterMap_map]
    exact List.filterMap_eq_map_iff_forall_eq_some.mpr
      (fun b _ ↦ h.leText_bucketLine (plain_fixed 4 b) _)
  have hsum : leText h.name
      (h.name ++ "_sum".toList ++ h.labels.toString ++ [' '] ++ Str.fixed 6 h.sum) = none := by
    rw [List.append_assoc, List.append_assoc]
    exact leText_eq_none (by simp)
  have hcount : leText h.name
      (h.name ++ "_count".toList ++ h.labels.toString ++ [' '] ++ Str.ofNat h.count) = none := by
    rw [List.append_assoc, List.append_assoc]
    exact leText_eq_none (by simp)
  have hinf := h.leText_bucketLine (show Plain "+Inf".toList by decide) h.count
  rw [leTexts, lines_eq, List.filterMap_append, hbuckets]
  simp only [List.filterMap_cons, hinf, hsum, hcount, List.filterMap_nil]

/-- The printed bounds are pairwise different and read back as the bounds themselves. -/
def BoundsSurvive (h : Histogram) : Prop :=
  h.leTexts.Nodup ∧
    h.leTexts.map value = h.buckets.map (fun b ↦ some (.number b)) ++ [some (.infinity false)]

theorem boundsSurvive_iff {h : Histogram} (hb : h.buckets.Pairwise (· < ·)) :
    h.BoundsSurvive ↔ ∀ b ∈ h.buckets, ∃ n : ℤ, b * 10 ^ 4 = n := by
  have hinf : value "+Inf".toList = some (.infinity false) := by decide +kernel
  have hread : h.leTexts.map value =
      h.buckets.map (fun b ↦ value (Str.fixed 4 b)) ++ [some (.infinity false)] := by
    rw [leTexts_eq, List.map_append, List.map_map, List.map_singleton, hinf]
    rfl
  have hiff : h.leTexts.map value =
      h.buckets.map (fun b ↦ some (.number b)) ++ [some (.infinity false)] ↔
        ∀ b ∈ h.buckets, ∃ n : ℤ, b * 10 ^ 4 = n := by
    rw [hread, List.append_cancel_right_eq, List.map_inj_left]
    exact forall₂_congr (fun b _ ↦ value_fixed_iff 4 b)
  rw [BoundsSurvive, hiff, and_iff_right_iff_imp]
  intro hall
  refine List.Nodup.of_map value ?_
  rw [hiff.mpr hall, List.nodup_append]
  refine ⟨hb.map _ (fun b₁ b₂ hlt he ↦ ?_), List.nodup_singleton _, ?_⟩
  · exact absurd (Value.number.inj (Option.some.inj he)) hlt.ne
  · simp

/-- A bucket line reads as a sample of the bucket series whose labels are the bound, under
`le`, and those of the histogram. -/
def ReadsAsBucket (h : Histogram) (bound : Value) (l : Str) : Prop :=
  ∃ s le, Exposition.line l = some (.sample s) ∧ s.name = h.name ++ "_bucket".toList ∧
    value le = some bound ∧
    ∀ p, p ∈ s.labels ↔ p = ("le".toList, le) ∨ p ∈ h.labels.labels.entries

structure WellFormed (h : Histogram) : Prop where
  parses : ∀ l ∈ h.lines, (Exposition.line l).isSome
  buckets : List.Forall₂ h.ReadsAsBucket (h.buckets.map .number ++ [.infinity false])
    (h.lines.take (h.buckets.length + 1))

theorem labelPart_eq {h : Histogram} (hne : h.labels.labels.entries ≠ []) :
    h.labelPart = List.intercalate [','] (h.labels.labels.entries.map labelText) ++ ['}'] := by
  rw [labelPart, Labels.toString_eq, labelsText, if_neg hne, List.cons_append]
  rfl

/-- The closing brace of the histogram's own labels stays when the opening one is cut off. -/
theorem bucketLine_eq {h : Histogram} (hne : h.labels.labels.entries ≠ []) (le : Str) (n : ℕ) :
    h.bucketLine le n = h.name ++ "_bucket".toList ++
      labelsText (("le".toList, le) :: h.labels.labels.entries) ++ '}' :: ' ' :: Str.ofNat n := by
  obtain ⟨l, ls, hl⟩ := List.exists_cons_of_ne_nil hne
  have hinter : List.intercalate [','] (labelText ("le".toList, le) :: (l :: ls).map labelText) =
      labelText ("le".toList, le) ++ [','] ++ List.intercalate [','] ((l :: ls).map labelText) :=
    List.intercalate_cons_cons ..
  rw [bucketLine, labelPart_eq hne, if_neg (by simp), labelsText, if_neg (by simp), List.map_cons,
    hl, hinter]
  simp [labelText]

theorem take_lines (h : Histogram) : h.lines.take (h.buckets.length + 1) =
    h.bucketLines (atMost h.values) ++ [h.bucketLine "+Inf".toList h.count] := by
  have hlen : (h.bucketLines (atMost h.values)).length = h.buckets.length := List.length_map _
  rw [lines_eq, ← hlen, List.take_length_add_append, List.take_succ_cons, List.take_zero]

theorem infinity_readsAsBucket {h : Histogram} (hw : h.WellFormed) :
    h.ReadsAsBucket (.infinity false) (h.bucketLine "+Inf".toList h.count) := by
  have hb := List.forall₂_reverse_iff.mpr hw.buckets
  rw [take_lines, List.reverse_concat', List.reverse_concat'] at hb
  cases hb with
  | cons hinf _ => exact hinf

theorem labelled_not_wellFormed {name help : Str} {buckets : List ℚ} {labels : Labels}
    (hne : labels.labels.entries ≠ [])
    (hplain : ∀ p ∈ labels.labels.entries, Plain p.1 ∧ Plain p.2) (values : List ℚ) :
    ¬ (observed name help buckets labels values).WellFormed := by
  rw [observed_eq]
  intro h
  obtain ⟨s, le, hs, hname, -, hlabels⟩ := infinity_readsAsBucket h
  obtain ⟨hvalid, hkeys⟩ := line_valid hs
  rw [hname] at hvalid
  have hreadable : Readable (("le".toList, "+Inf".toList) :: labels.labels.entries) :=
    List.forall_mem_cons.mpr ⟨by decide, fun p hp ↦
      ⟨hkeys p ((hlabels p).mpr (.inr hp)), (hplain p hp).2⟩⟩
  rw [bucketLine_eq hne, line_closed_twice hvalid hreadable (List.cons_ne_nil _ _)] at hs
  cases hs

theorem labelled_not_wellFormed_worker :
    (Labels.ofList [("worker".toList, "7".toList)]).labels.entries ≠ [] ∧
      ¬ (observed "queue_seconds".toList [] [1 / 2, 1]
        (.ofList [("worker".toList, "7".toList)]) [3 / 4]).WellFormed :=
  ⟨by decide, labelled_not_wellFormed (by decide) (by decide) [3 / 4]⟩

/-- The line is `h_bucket\x7ble="+Inf",a="1"\x7d\x7d 0`. -/
theorem one_label_not_wellFormed :
    ¬ (observed "h".toList [] [] (.ofList [("a".toList, "1".toList)]) []).WellFormed := by
  intro h
  have hline := h.parses "h_bucket\x7ble=\"+Inf\",a=\"1\"\x7d\x7d 0".toList (by decide +kernel)
  revert hline
  decide +kernel

end Histogram

namespace MetricsRegistry

/-- The histogram a fresh registration makes, after observations through the handle. -/
theorem getHistogram_observed {m : MetricsRegistry} {name : Str} {labels : Labels}
    (hnew : m.histograms.get ⟨name, labels⟩ = none) (help : Str) (buckets : List ℚ)
    (values : List ℚ) :
    (values.foldl (fun m v ↦ m.observe ⟨name, labels⟩ v)
        (m.getHistogram name help buckets labels).2).histograms.get ⟨name, labels⟩ =
      some (.observed name help buckets labels values) := by
  induction values using List.reverseRecOn with
  | nil =>
    rw [List.foldl_nil, getHistogram, findOrCreate_eq, Families.emplaceSeries_get, if_pos rfl, hnew]
    rfl
  | append_singleton values v ih =>
    rw [List.foldl_append, List.foldl_cons, List.foldl_nil, MetricsRegistry.observe,
      Families.update_get, if_pos rfl, ih, Option.map_some, Histogram.observed,
      Histogram.observed, List.foldl_append]
    rfl

theorem printed_bounds_survive {m : MetricsRegistry} {name help : Str} {labels : Labels}
    {buckets values : List ℚ} (hnew : m.histograms.get ⟨name, labels⟩ = none)
    (hb : buckets.Pairwise (· < ·)) :
    ∃ h, (values.foldl (fun m v ↦ m.observe ⟨name, labels⟩ v)
        (m.getHistogram name help buckets labels).2).histograms.get ⟨name, labels⟩ = some h ∧
      (h.BoundsSurvive ↔ ∀ b ∈ buckets, ∃ n : ℤ, b * 10 ^ 4 = n) := by
  refine ⟨_, getHistogram_observed hnew help buckets values, ?_⟩
  have hbuckets : (Histogram.observed name help buckets labels values).buckets = buckets := by
    rw [Histogram.observed_eq]
  rw [Histogram.boundsSurvive_iff (by rwa [hbuckets]), hbuckets]

theorem printed_bounds_survive_quarters :
    empty.histograms.get ⟨"h".toList, .empty⟩ = none ∧ [1 / 4, (1 / 2 : ℚ)].Pairwise (· < ·) ∧
      ∃ h, ([1 / 3].foldl (fun m v ↦ m.observe ⟨"h".toList, .empty⟩ v)
        (empty.getHistogram "h".toList [] [1 / 4, 1 / 2] .empty).2).histograms.get
          ⟨"h".toList, .empty⟩ = some h ∧ h.BoundsSurvive := by
  have hb : [1 / 4, (1 / 2 : ℚ)].Pairwise (· < ·) := by simp; norm_num
  have hnew : empty.histograms.get ⟨"h".toList, .empty⟩ = none := rfl
  obtain ⟨h, hh, hiff⟩ := @printed_bounds_survive empty "h".toList [] .empty _ [1 / 3] hnew hb
  refine ⟨rfl, hb, h, hh, hiff.mpr ?_⟩
  simp only [List.mem_cons, List.not_mem_nil, or_false, forall_eq_or_imp, forall_eq]
  exact ⟨⟨2500, by norm_num⟩, 5000, by norm_num⟩

theorem printed_bounds_collide : [1 / 100000, (2 / 100000 : ℚ)].Pairwise (· < ·) ∧
    ∃ h, (empty.getHistogram "h".toList [] [1 / 100000, 2 / 100000] .empty).2.histograms.get
      ⟨"h".toList, .empty⟩ = some h ∧ ¬ h.leTexts.Nodup ∧ ¬ h.BoundsSurvive := by
  have hnodup : ¬ (Histogram.observed "h".toList [] [1 / 100000, 2 / 100000] .empty
      []).leTexts.Nodup := by decide +kernel
  refine ⟨by simp; norm_num, _, getHistogram_observed (m := empty) rfl [] _ [], hnodup, ?_⟩
  exact fun h ↦ hnodup h.1

end MetricsRegistry

end ServiceSystem.Metrics
