import ServiceSystem.Metrics.Operations
import Mathlib.Algebra.Order.BigOperators.Group.Finset

namespace ServiceSystem.Metrics

open Foundations Program MetricsRegistry Interleaving

variable {α : Type}

/-- No series of `f` has disappeared or decreased in `f'`. -/
def Families.Grows (size : α → ℕ) (f f' : Families α) : Prop :=
  ∀ s a, f.get s = some a → ∃ b, f'.get s = some b ∧ size a ≤ size b

structure Grows (m m' : MetricsRegistry) : Prop where
  counters : m.counters.Grows Counter.value m'.counters
  histograms : m.histograms.Grows Histogram.count m'.histograms

namespace Families

variable {size : α → ℕ}

theorem Grows.refl (f : Families α) : f.Grows size f := fun _ a h ↦ ⟨a, h, le_rfl⟩

theorem Grows.trans {f f' f'' : Families α} (h : f.Grows size f') (h' : f'.Grows size f'') :
    f.Grows size f'' := by
  intro s a ha
  obtain ⟨b, hb, hab⟩ := h s a ha
  obtain ⟨c, hc, hbc⟩ := h' s b hb
  exact ⟨c, hc, hab.trans hbc⟩

theorem emplaceSeries_grows (f : Families α) (s : SeriesKey) (fresh : α) :
    f.Grows size (f.emplaceSeries s fresh) := by
  intro s' a ha
  refine ⟨a, ?_, le_rfl⟩
  rw [emplaceSeries_get]
  split_ifs with hs
  · rw [← hs, ha, Option.getD_some]
  · exact ha

theorem update_grows (f : Families α) (s : SeriesKey) {u : α → α} (hu : ∀ a, size a ≤ size (u a)) :
    f.Grows size (f.update s u) := by
  intro s' a ha
  rw [update_get]
  split_ifs with hs
  · exact ⟨u a, by rw [← hs, ha, Option.map_some], hu a⟩
  · exact ⟨a, ha, le_rfl⟩

/-- What a series has been raised to, nothing when it does not exist. -/
def level (size : α → ℕ) (f : Families α) (s : SeriesKey) : ℕ := (f.get s).elim 0 size

theorem emplaceSeries_level (f : Families α) (s s' : SeriesKey) {fresh : α} (h : size fresh = 0) :
    (f.emplaceSeries s fresh).level size s' = f.level size s' := by
  simp only [level, emplaceSeries_get]
  split_ifs with hs
  · subst hs
    cases f.get s' <;> simp [h]
  · rfl

theorem update_level {f : Families α} {s : SeriesKey} (hs : (f.get s).isSome) (s' : SeriesKey)
    {u : α → α} (hu : ∀ a, size (u a) = size a + 1) :
    (f.update s u).level size s' = f.level size s' + if s = s' then 1 else 0 := by
  obtain ⟨a, ha⟩ := Option.isSome_iff_exists.mp hs
  simp only [level, update_get, eq_comm (a := s)]
  split_ifs with h
  · subst h
    simp [ha, hu]
  · rfl

def sumOver (f : Families Counter) (name : Str) (p : Labels → Bool) : ℕ :=
  f.tally name (fun l c ↦ if p l then c.value else 0)

theorem increment_sumOver {f : Families Counter} {s : SeriesKey} (hs : (f.get s).isSome)
    (name : Str) (p : Labels → Bool) :
    (f.update s Counter.increment).sumOver name p =
      f.sumOver name p + if s.name = name ∧ p s.labels then 1 else 0 := by
  obtain ⟨a, ha⟩ := Option.isSome_iff_exists.mp hs
  have h := update_tally ha Counter.increment name (fun l c ↦ if p l then c.value else 0)
  simp only [sumOver, Counter.increment] at h ⊢
  by_cases hn : s.name = name <;> by_cases hp : p s.labels = true <;> simp [hn, hp] at h ⊢ <;> omega

end Families

theorem Grows.refl (m : MetricsRegistry) : Grows m m := ⟨.refl _, .refl _⟩

theorem Grows.trans {m m' m'' : MetricsRegistry} (h : Grows m m') (h' : Grows m' m'') :
    Grows m m'' :=
  ⟨h.counters.trans h'.counters, h.histograms.trans h'.histograms⟩

theorem getCounter_counters (m : MetricsRegistry) (name help : Str) (labels : Labels) :
    (m.getCounter name help labels).2.counters =
      m.counters.emplaceSeries ⟨name, labels⟩ (.new name help labels) := findOrCreate_eq ..

theorem getHistogram_histograms (m : MetricsRegistry) (name help : Str) (buckets : List ℚ)
    (labels : Labels) : (m.getHistogram name help buckets labels).2.histograms =
      m.histograms.emplaceSeries ⟨name, labels⟩ (.new name help buckets labels) :=
  findOrCreate_eq ..

/-- An operation adds fresh series to the counters, or is an increment of one of them. -/
theorem exec_counters (order : IterationOrder) {Q : Families Counter → Prop} {op : Op} {sh : Shared}
    (hold : (∀ s, op ≠ .increment s) → Q sh.registry.counters)
    (hfresh : ∀ f name help labels, Q f →
      Q (f.emplaceSeries ⟨name, labels⟩ (.new name help labels)))
    (hincrement : ∀ s, op = .increment s → Q (sh.registry.counters.update s Counter.increment)) :
    Q (exec order op sh).2.registry.counters := by
  cases op with
  | initializeMetrics =>
    have hQ := hold (by simp)
    simp only [exec, initializeMetrics]
    split_ifs
    · exact hQ
    · refine hfresh _ _ _ _ ?_
      exact List.foldlRecOn (motive := Q) _ _ hQ (fun f hf l _ ↦ hfresh f _ _ l hf)
  | getCounter name help labels =>
    have hQ := hold (by simp)
    rw [exec, getCounter_counters]
    exact hfresh _ _ _ _ hQ
  | increment s => exact hincrement s rfl
  | getHistogram | observe | lock | printCounter | printHistogram | unlock =>
    exact hold (by simp)

theorem exec_histograms (order : IterationOrder) {Q : Families Histogram → Prop} {op : Op}
    {sh : Shared} (hold : (∀ s v, op ≠ .observe s v) → Q sh.registry.histograms)
    (hfresh : ∀ f name help buckets labels, Q f →
      Q (f.emplaceSeries ⟨name, labels⟩ (.new name help buckets labels)))
    (hobserve : ∀ s v, op = .observe s v → Q (sh.registry.histograms.update s (·.observe v))) :
    Q (exec order op sh).2.registry.histograms := by
  cases op with
  | initializeMetrics =>
    have hQ := hold (by simp)
    simp only [exec, initializeMetrics]
    split_ifs
    · exact hQ
    · exact hfresh _ _ _ _ _ hQ
  | getHistogram name help buckets labels =>
    have hQ := hold (by simp)
    rw [exec, getHistogram_histograms]
    exact hfresh _ _ _ _ _ hQ
  | observe s v => exact hobserve s v rfl
  | getCounter | increment | lock | printCounter | printHistogram | unlock =>
    exact hold (by simp)

theorem exec_grows (order : IterationOrder) (op : Op) (sh : Shared) :
    Grows sh.registry (exec order op sh).2.registry where
  counters := exec_counters order (fun _ ↦ .refl _)
    (fun f _ _ _ hf ↦ hf.trans (f.emplaceSeries_grows _ _))
    (fun s _ ↦ Families.update_grows _ s (fun c ↦ Nat.le_succ c.value))
  histograms := exec_histograms order (fun _ ↦ .refl _)
    (fun f _ _ _ _ hf ↦ hf.trans (f.emplaceSeries_grows _ _))
    (fun s _ _ ↦ Families.update_grows _ s (fun h ↦ Nat.le_succ h.count))

/-- The series an operation reaches through a reference is there. -/
def Held : Op → Shared → Prop
  | .increment s, sh | .printCounter s, sh => (sh.registry.counters.get s).isSome
  | .observe s _, sh | .printHistogram s, sh => (sh.registry.histograms.get s).isSome
  | _, _ => True

def raised (p : SeriesKey → Bool) : Op → ℕ
  | .increment s => if p s then 1 else 0
  | _ => 0

def observed (s : SeriesKey) : Op → ℕ
  | .observe k _ => if k = s then 1 else 0
  | _ => 0

theorem raised_of_ne (p : SeriesKey → Bool) {op : Op} (h : ∀ s, op ≠ .increment s) :
    raised p op = 0 := by
  cases op <;> first | rfl | exact absurd rfl (h _)

theorem observed_of_ne (s : SeriesKey) {op : Op} (h : ∀ k v, op ≠ .observe k v) :
    observed s op = 0 := by
  cases op <;> first | rfl | exact absurd rfl (h _ _)

theorem exec_level (order : IterationOrder) {op : Op} {sh : Shared} (h : Held op sh)
    (s : SeriesKey) : (exec order op sh).2.registry.counters.level Counter.value s =
      sh.registry.counters.level Counter.value s + raised (· = s) op := by
  refine exec_counters order
    (Q := fun f ↦ f.level Counter.value s = _ + raised (· = s) op) ?_ ?_ ?_
  · intro hop
    rw [raised_of_ne _ hop, Nat.add_zero]
  · intro f name help labels hf
    rw [Families.emplaceSeries_level f _ _ rfl, hf]
  · rintro k rfl
    have hc : ∀ c : Counter, c.increment.value = c.value + 1 := fun _ ↦ rfl
    simp only [Families.update_level h s hc, raised, decide_eq_true_eq]

theorem exec_sumOver (order : IterationOrder) {op : Op} {sh : Shared} (h : Held op sh)
    (name : Str) (p : Labels → Bool) : (exec order op sh).2.registry.counters.sumOver name p =
      sh.registry.counters.sumOver name p + raised (fun s ↦ s.name = name ∧ p s.labels) op := by
  refine exec_counters order
    (Q := fun f ↦ f.sumOver name p = _ + raised (fun s ↦ s.name = name ∧ p s.labels) op) ?_ ?_ ?_
  · intro hop
    rw [raised_of_ne _ hop, Nat.add_zero]
  · intro f name' help labels hf
    rw [← hf]
    exact Families.emplaceSeries_tally f _ name (by simp [Counter.new])
  · rintro k rfl
    simp only [Families.increment_sumOver h, raised, decide_eq_true_eq]

theorem exec_observed (order : IterationOrder) {op : Op} {sh : Shared} (h : Held op sh)
    (s : SeriesKey) : (exec order op sh).2.registry.histograms.level Histogram.count s =
      sh.registry.histograms.level Histogram.count s + observed s op := by
  refine exec_histograms order
    (Q := fun f ↦ f.level Histogram.count s = _ + observed s op) ?_ ?_ ?_
  · intro hop
    rw [observed_of_ne _ hop, Nat.add_zero]
  · intro f name help buckets labels hf
    rw [Families.emplaceSeries_level f _ _ rfl, hf]
  · rintro k v rfl
    have hc : ∀ a : Histogram, (a.observe v).count = a.count + 1 := fun _ ↦ rfl
    simp only [Families.update_level h s hc, observed]

def updates : Call → List Op
  | .initializeMetrics => [.initializeMetrics]
  | .recordHttpRequest method path status d =>
    let labels := httpLabels method path (Str.ofInt status)
    [.getCounter httpRequests httpRequestsHelp labels, .increment ⟨httpRequests, labels⟩,
      .getHistogram httpDuration httpDurationHelp durationBuckets .empty,
      .observe ⟨httpDuration, .empty⟩ d]
  | .recordDbOperation operation success =>
    [.getCounter dbOperations "Total number of database operations".toList
        (dbLabels operation success),
      .increment ⟨dbOperations, dbLabels operation success⟩]
  | .recordAuthAttempt username success =>
    [.getCounter authAttempts "Total number of authentication attempts".toList
        (authLabels username success),
      .increment ⟨authAttempts, authLabels username success⟩] ++
    if success then []
    else [.getCounter authFailures authFailuresHelp .empty, .increment ⟨authFailures, .empty⟩]
  | .recordDeviceOperation operation id success =>
    [.getCounter deviceOperations "Total number of device operations".toList
        (deviceLabels operation id success),
      .increment ⟨deviceOperations, deviceLabels operation id success⟩]
  | .recordServiceOperation operation id success =>
    [.getCounter serviceOperations "Total number of service operations".toList
        (serviceLabels operation id success),
      .increment ⟨serviceOperations, serviceLabels operation id success⟩]
  | .format => []

def Scraping : Op → Prop
  | .lock | .printCounter _ | .printHistogram _ | .unlock => True
  | _ => False

theorem printItems_only (printed : List Printed) (items : List Item) :
    (printItems printed items).Only Scraping := by
  induction items generalizing printed with
  | nil => exact ⟨trivial, fun _ ↦ trivial⟩
  | cons item items ih =>
    cases item with
    | typeHelp text => exact ih _
    | counter s => exact ⟨trivial, fun _ ↦ ih _⟩
    | histogram s => exact ⟨trivial, fun _ ↦ ih _⟩

theorem code_straight (order : IterationOrder) {j : Call} (hj : j ≠ .format) :
    Straight (exec order) (code j) (updates j) := by
  cases j with
  | initializeMetrics => exact ⟨_, rfl, fun _ ↦ rfl⟩
  | recordHttpRequest method path status d =>
    exact ⟨_, rfl, fun _ ↦ ⟨_, rfl, fun _ ↦ ⟨_, rfl, fun _ ↦ ⟨_, rfl, fun _ ↦ rfl⟩⟩⟩⟩
  | recordAuthAttempt username success =>
    cases success with
    | false => exact ⟨_, rfl, fun _ ↦ ⟨_, rfl, fun _ ↦ ⟨_, rfl, fun _ ↦ ⟨_, rfl, fun _ ↦ rfl⟩⟩⟩⟩
    | true => exact ⟨_, rfl, fun _ ↦ ⟨_, rfl, fun _ ↦ rfl⟩⟩
  | recordDbOperation | recordDeviceOperation | recordServiceOperation =>
    exact ⟨_, rfl, fun _ ↦ ⟨_, rfl, fun _ ↦ rfl⟩⟩
  | format => exact absurd rfl hj

/-- A call has spent what some first part of its updates costs, and all of it once it
has returned. -/
theorem code_weigh {order : IterationOrder} {j : Call} {es : List (Event Ans)}
    {p : Program Op Ans (List Printed)} (h : After (exec order) (code j) es p) :
    ∃ n, (∀ w : Op → ℕ, (∀ op, Scraping op → w op = 0) →
        weigh w es = (((updates j).take n).map w).sum) ∧
      ∀ r, p = .ret r → (updates j).take n = updates j := by
  by_cases hj : j = .format
  · subst hj
    have hes := (h.only ⟨trivial, printItems_only []⟩).1
    refine ⟨0, fun w hw ↦ ?_, fun _ _ ↦ rfl⟩
    rw [weigh, List.map_congr_left (fun e he ↦ hw e.1 (hes e he))]
    simp
  · obtain ⟨rest, hu, hp⟩ := h.straight (code_straight order hj)
    refine ⟨es.length, fun w _ ↦ ?_, ?_⟩
    · simp [hu, weigh, Function.comp_def]
    · rintro r rfl
      rw [hu, hp]
      simp

def rely (s t : Shared) : Prop := Grows s.registry t.registry

theorem rely_refl (s : Shared) : rely s s := .refl _

theorem rely_trans (s t u : Shared) (h : rely s t) (h' : rely t u) : rely s u := h.trans h'

theorem Families.Grows.isSome {size : α → ℕ} {f f' : Families α} (h : f.Grows size f')
    {s : SeriesKey} (hs : (f.get s).isSome) : (f'.get s).isSome := by
  obtain ⟨a, ha⟩ := Option.isSome_iff_exists.mp hs
  obtain ⟨b, hb, -⟩ := h s a ha
  rw [hb, Option.isSome_some]

theorem emplaceSeries_isSome (f : Families α) (s : SeriesKey) (fresh : α) :
    ((f.emplaceSeries s fresh).get s).isSome := by
  rw [Families.emplaceSeries_get, if_pos rfl, Option.isSome_some]

theorem raise_guarded (order : IterationOrder) (name help : Str) (labels : Labels)
    {rest : Program Op Ans (List Printed)}
    (hrest : ∀ sh, Guarded (exec order) rely Held rest sh) (sh : Shared) :
    Guarded (exec order) rely Held
      (.call (.getCounter name help labels) (fun c ↦ .call (.increment c) (fun _ ↦ rest))) sh := by
  intro s _
  refine ⟨trivial, fun t hst ↦ ⟨?_, hrest _⟩⟩
  have hs := emplaceSeries_isSome s.registry.counters ⟨name, labels⟩ (.new name help labels)
  rw [← getCounter_counters] at hs
  exact hst.counters.isSome hs

theorem observe_guarded (order : IterationOrder) (name help : Str) (buckets : List ℚ)
    (labels : Labels) (v : ℚ) {rest : Program Op Ans (List Printed)}
    (hrest : ∀ sh, Guarded (exec order) rely Held rest sh) (sh : Shared) :
    Guarded (exec order) rely Held
      (.call (.getHistogram name help buckets labels) (fun h ↦ .call (.observe h v) (fun _ ↦ rest)))
      sh := by
  intro s _
  refine ⟨trivial, fun t hst ↦ ⟨?_, hrest _⟩⟩
  have hs := emplaceSeries_isSome s.registry.histograms ⟨name, labels⟩
    (.new name help buckets labels)
  rw [← getHistogram_histograms] at hs
  exact hst.histograms.isSome hs

def Item.Present (m : MetricsRegistry) : Item → Prop
  | .typeHelp _ => True
  | .counter s => (m.counters.get s).isSome
  | .histogram s => (m.histograms.get s).isSome

theorem Item.Present.mono {m m' : MetricsRegistry} (h : Grows m m') {item : Item}
    (hi : item.Present m) : item.Present m' := by
  cases item with
  | typeHelp text => trivial
  | counter s => exact h.counters.isSome hi
  | histogram s => exact h.histograms.isSome hi

theorem familyItems_present {m : MetricsRegistry} {f : Families α} {helps : OrderedMap Str Str}
    {kind : Str} {item : SeriesKey → Item} (h : ∀ s, (f.get s).isSome → (item s).Present m)
    {name : Str} : ∀ i ∈ familyItems f helps kind item name, i.Present m := by
  intro i hi
  rcases List.mem_cons.mp hi with rfl | hi
  · trivial
  · cases hf : f.get? name with
    | none => simp [hf] at hi
    | some labelMap =>
      simp only [hf, Option.elim_some, List.mem_map] at hi
      obtain ⟨l, hl, rfl⟩ := hi
      refine h _ ?_
      simpa [Families.get, hf] using OrderedMap.mem_keys.mp hl

theorem layout_present (order : IterationOrder) (m : MetricsRegistry) :
    ∀ i ∈ layout order m, i.Present m := by
  intro i hi
  rcases List.mem_append.mp hi with hi | hi
  · obtain ⟨name, -, hi⟩ := List.mem_flatMap.mp hi
    refine familyItems_present ?_ i hi
    exact fun s hs ↦ hs
  · obtain ⟨name, -, hi⟩ := List.mem_flatMap.mp hi
    refine familyItems_present ?_ i hi
    exact fun s hs ↦ hs

theorem printItems_guarded (order : IterationOrder) (printed : List Printed) {items : List Item}
    {sh : Shared} (h : ∀ i ∈ items, i.Present sh.registry) :
    Guarded (exec order) rely Held (printItems printed items) sh := by
  induction items generalizing printed sh with
  | nil => exact fun _ _ ↦ ⟨trivial, trivial⟩
  | cons item items ih =>
    obtain ⟨hitem, hitems⟩ := List.forall_mem_cons.mp h
    cases item with
    | typeHelp text => exact ih _ hitems
    | counter s =>
      exact fun t ht ↦ ⟨hitem.mono ht, ih _ (fun i hi ↦ (hitems i hi).mono ht)⟩
    | histogram s =>
      exact fun t ht ↦ ⟨hitem.mono ht, ih _ (fun i hi ↦ (hitems i hi).mono ht)⟩

theorem code_guarded (order : IterationOrder) (j : Call) (sh : Shared) :
    Guarded (exec order) rely Held (code j) sh := by
  have hret : ∀ sh, Guarded (exec order) rely Held (.ret [] : Program Op Ans (List Printed)) sh :=
    fun _ ↦ trivial
  cases j with
  | initializeMetrics => exact fun _ _ ↦ ⟨trivial, trivial⟩
  | recordHttpRequest method path status d =>
    exact raise_guarded order _ _ _ (observe_guarded order _ _ _ _ d hret) sh
  | recordAuthAttempt username success =>
    cases success with
    | false => exact raise_guarded order _ _ _ (raise_guarded order _ _ _ hret) sh
    | true => exact raise_guarded order _ _ _ hret sh
  | recordDbOperation | recordDeviceOperation | recordServiceOperation =>
    exact raise_guarded order _ _ _ hret sh
  | format =>
    intro t _
    exact ⟨trivial, printItems_guarded order [] (layout_present order t.registry)⟩

def Call.names : Call → List SeriesKey
  | .recordHttpRequest method path status _ =>
    [⟨httpRequests, httpLabels method path (Str.ofInt status)⟩]
  | .recordDbOperation operation success => [⟨dbOperations, dbLabels operation success⟩]
  | .recordAuthAttempt username success =>
    ⟨authAttempts, authLabels username success⟩ ::
      if success then [] else [⟨authFailures, .empty⟩]
  | .recordDeviceOperation operation id success =>
    [⟨deviceOperations, deviceLabels operation id success⟩]
  | .recordServiceOperation operation id success =>
    [⟨serviceOperations, serviceLabels operation id success⟩]
  | .initializeMetrics | .format => []

theorem raised_updates (p : SeriesKey → Bool) (j : Call) :
    ((updates j).map (raised p)).sum = j.names.countP p := by
  cases j with
  | recordAuthAttempt username success =>
    cases success <;> simp [updates, raised, Call.names, List.countP_cons, Nat.add_comm]
  | initializeMetrics | recordHttpRequest | recordDbOperation | recordDeviceOperation |
    recordServiceOperation | format => simp [updates, raised, Call.names, List.countP_cons]

theorem perform_level (order : IterationOrder) (m : MetricsRegistry) (j : Call) (s : SeriesKey) :
    (perform order m j).counters.level Counter.value s =
      m.counters.level Counter.value s + j.names.countP (· = s) := by
  by_cases hj : j = .format
  · subst hj
    rw [perform_format]
    rfl
  · have h := (code_guarded order j ⟨m, false⟩).run_raised
      (q := fun sh ↦ sh.registry.counters.level Counter.value s) rely_refl
      (fun op sh hop ↦ exec_level order hop s) (code_straight order hj)
    rwa [raised_updates] at h

variable {ι : Type} [DecidableEq ι] {order : IterationOrder}
  {P : Config ι Call Op Ans (List Printed) Shared → ι → Prop}
  {c : Config ι Call Op Ans (List Printed) Shared}

def startup : Shared := ⟨.empty, false⟩

theorem held {sh₀ : Shared} {calls : ι → List Call}
    (h : Reaches (system order) P (initial sh₀ calls) c)
    {i : ι} {j : Call} {es : List (Event Ans)} {op : Op}
    {k : Ans op → Program Op Ans (List Printed)}
    (hi : (c.thread i).current = some (j, es, .call op k)) : Held op c.shared :=
  (guarded rely_refl rely_trans (exec_grows order) (code_guarded order) h hi c.shared
    (rely_refl _)).1

theorem raised_add [Fintype ι] {sh₀ : Shared} {calls : ι → List Call}
    (h : Reaches (system order) P (initial sh₀ calls) c) {q : MetricsRegistry → ℕ} {w : Op → ℕ}
    (hq : ∀ op sh, Held op sh → q (exec order op sh).2.registry = q sh.registry + w op) :
    q c.shared.registry = q sh₀.registry + ∑ i, (c.thread i).spent w :=
  level_eq (fun sh ↦ q sh.registry) w (fun c _ _ _ op _ hc hi ↦ hq op c.shared (held hc hi)) h

theorem raised_eq [Fintype ι] {calls : ι → List Call}
    (h : Reaches (system order) P (initial startup calls) c) {q : MetricsRegistry → ℕ} {w : Op → ℕ}
    (hstart : q .empty = 0)
    (hq : ∀ op sh, Held op sh → q (exec order op sh).2.registry = q sh.registry + w op) :
    q c.shared.registry = ∑ i, (c.thread i).spent w := by
  rw [raised_add h hq, show startup.registry = .empty from rfl, hstart, Nat.zero_add]

def Call.isHttpRequest : Call → Bool
  | .recordHttpRequest .. => true
  | _ => false

def Call.isFailedAttempt : Call → Bool
  | .recordAuthAttempt _ success => !success
  | _ => false

/-- The sum of `http_requests_total` over all labels. -/
def requests (m : MetricsRegistry) : ℕ := m.counters.sumOver httpRequests (fun _ ↦ true)

def requestsObserved (m : MetricsRegistry) : ℕ :=
  m.histograms.level Histogram.count ⟨httpDuration, .empty⟩

def failures (m : MetricsRegistry) : ℕ := m.counters.level Counter.value ⟨authFailures, .empty⟩

def Labels.failed (l : Labels) : Bool := l.labels.get? "success".toList = some "false".toList

/-- The sum of `auth_attempts_total` over `success="false"`. -/
def failedAttempts (m : MetricsRegistry) : ℕ := m.counters.sumOver authAttempts Labels.failed

def requestsInProgress [Fintype ι] (c : Config ι Call Op Ans (List Printed) Shared) : ℕ :=
  ∑ i, (c.thread i).current.elim 0 (fun x ↦ if x.1.isHttpRequest then 1 else 0)

theorem authLabels_failed (username : Str) (success : Bool) :
    (authLabels username success).failed = !success := by
  have h : (authLabels username success).labels.get? "success".toList =
      some (ofBool success) := by
    simp [authLabels, Labels.ofList, OrderedMap.assign_get]
  rw [Labels.failed, h]
  cases success <;> decide

theorem names_nodup (j : Call) : j.names.Nodup := by
  cases j with
  | recordAuthAttempt username success =>
    cases success <;> simp [Call.names, ne_authFailures]
  | initializeMetrics | recordHttpRequest | recordDbOperation | recordDeviceOperation |
    recordServiceOperation | format => simp [Call.names]

def isRequests (s : SeriesKey) : Bool := s.name = httpRequests

def isFailedAttempts (s : SeriesKey) : Bool := s.name = authAttempts ∧ s.labels.failed

theorem countP_isRequests (j : Call) :
    j.names.countP isRequests = if j.isHttpRequest then 1 else 0 := by
  have hd : dbOperations ≠ httpRequests := by decide
  have ha : authAttempts ≠ httpRequests := by decide
  have hf : authFailures ≠ httpRequests := by decide
  have hv : deviceOperations ≠ httpRequests := by decide
  have hs : serviceOperations ≠ httpRequests := by decide
  cases j with
  | recordAuthAttempt username success =>
    cases success <;> simp [Call.names, isRequests, Call.isHttpRequest, ha, hf]
  | initializeMetrics | recordHttpRequest | recordDbOperation | recordDeviceOperation |
    recordServiceOperation | format =>
    simp [Call.names, isRequests, Call.isHttpRequest, hd, hv, hs]

theorem countP_isFailedAttempts (j : Call) :
    j.names.countP isFailedAttempts = if j.isFailedAttempt then 1 else 0 := by
  have hh : httpRequests ≠ authAttempts := by decide
  have hd : dbOperations ≠ authAttempts := by decide
  have hf : authFailures ≠ authAttempts := by decide
  have hv : deviceOperations ≠ authAttempts := by decide
  have hs : serviceOperations ≠ authAttempts := by decide
  cases j with
  | recordAuthAttempt username success =>
    cases success <;>
      simp [Call.names, isFailedAttempts, Call.isFailedAttempt, hf, authLabels_failed]
  | initializeMetrics | recordHttpRequest | recordDbOperation | recordDeviceOperation |
    recordServiceOperation | format =>
    simp [Call.names, isFailedAttempts, Call.isFailedAttempt, hh, hd, hv, hs]

theorem countP_failures (j : Call) :
    j.names.countP (· = ⟨authFailures, .empty⟩) = if j.isFailedAttempt then 1 else 0 := by
  cases j with
  | recordAuthAttempt username success =>
    cases success <;> simp [Call.names, Call.isFailedAttempt, ne_authFailures]
  | initializeMetrics | recordHttpRequest | recordDbOperation | recordDeviceOperation |
    recordServiceOperation | format =>
    simp [Call.names, Call.isFailedAttempt, ne_authFailures]

theorem observed_updates (j : Call) :
    ((updates j).map (observed ⟨httpDuration, .empty⟩)).sum = if j.isHttpRequest then 1 else 0 := by
  cases j with
  | recordAuthAttempt username success =>
    cases success <;> simp [updates, observed, Call.isHttpRequest]
  | initializeMetrics | recordHttpRequest | recordDbOperation | recordDeviceOperation |
    recordServiceOperation | format => simp [updates, observed, Call.isHttpRequest]

theorem sum_take_eq_zero {w : Op → ℕ} {ops : List Op} (h : (ops.map w).sum = 0) (n : ℕ) :
    ((ops.take n).map w).sum = 0 := by
  have hle : ((ops.take n).map w).sum + ((ops.drop n).map w).sum = (ops.map w).sum := by
    rw [← List.sum_append, ← List.map_append, List.take_append_drop]
  omega

/-- On the way, a call has raised `http_requests_total` at most once more than it has
observed a duration. -/
theorem requests_taken (j : Call) (n : ℕ) :
    let taken := (updates j).take n
    (taken.map (observed ⟨httpDuration, .empty⟩)).sum ≤ (taken.map (raised isRequests)).sum ∧
      (taken.map (raised isRequests)).sum ≤
        (taken.map (observed ⟨httpDuration, .empty⟩)).sum + if j.isHttpRequest then 1 else 0 := by
  by_cases hj : j.isHttpRequest = true
  · obtain ⟨method, path, status, d, rfl⟩ :
        ∃ method path status d, j = .recordHttpRequest method path status d := by
      cases j <;> first | exact ⟨_, _, _, _, rfl⟩ | cases hj
    rcases n with _ | _ | _ | _ | n <;>
      simp [updates, raised, observed, isRequests, Call.isHttpRequest]
  · have hobserved := observed_updates j
    have hraised := (raised_updates isRequests j).trans (countP_isRequests j)
    rw [if_neg hj] at hobserved hraised
    have ho := sum_take_eq_zero hobserved n
    have hr := sum_take_eq_zero hraised n
    constructor <;> omega

theorem scraping_raised (p : SeriesKey → Bool) {op : Op} (h : Scraping op) : raised p op = 0 := by
  cases op <;> first | rfl | cases h

theorem scraping_observed (s : SeriesKey) {op : Op} (h : Scraping op) : observed s op = 0 := by
  cases op <;> first | rfl | cases h

theorem code_raised {p : SeriesKey → Bool} {j : Call} {es : List (Event Ans)} {r : List Printed}
    (h : After (exec order) (code j) es (.ret r)) : weigh (raised p) es = j.names.countP p := by
  obtain ⟨n, hn, hr⟩ := code_weigh h
  rw [hn _ (fun _ ↦ scraping_raised p), hr r rfl, raised_updates]

theorem code_observed {j : Call} {es : List (Event Ans)} {r : List Printed}
    (h : After (exec order) (code j) es (.ret r)) :
    weigh (observed ⟨httpDuration, .empty⟩) es = if j.isHttpRequest then 1 else 0 := by
  obtain ⟨n, hn, hr⟩ := code_weigh h
  rw [hn _ (fun _ ↦ scraping_observed _), hr r rfl, observed_updates]

variable [Fintype ι] {calls : ι → List Call}

theorem level_eq_spent (h : Reaches (system order) P (initial startup calls) c) (s : SeriesKey) :
    c.shared.registry.counters.level Counter.value s =
      ∑ i, (c.thread i).spent (raised (· = s)) :=
  raised_eq h (q := fun m ↦ m.counters.level Counter.value s) rfl
    (fun _ _ hheld ↦ exec_level order hheld s)

theorem requests_eq_spent (h : Reaches (system order) P (initial startup calls) c) :
    requests c.shared.registry = ∑ i, (c.thread i).spent (raised isRequests) := by
  have he : isRequests = fun s ↦ decide (s.name = httpRequests ∧ true = true) := by
    funext s
    simp [isRequests]
  rw [he]
  exact raised_eq h rfl (fun op sh hheld ↦ exec_sumOver order hheld httpRequests (fun _ ↦ true))

theorem failedAttempts_eq_spent (h : Reaches (system order) P (initial startup calls) c) :
    failedAttempts c.shared.registry = ∑ i, (c.thread i).spent (raised isFailedAttempts) :=
  raised_eq h rfl (fun _ _ hheld ↦ exec_sumOver order hheld authAttempts Labels.failed)

theorem observed_eq_spent (h : Reaches (system order) P (initial startup calls) c) :
    requestsObserved c.shared.registry =
      ∑ i, (c.thread i).spent (observed ⟨httpDuration, .empty⟩) :=
  raised_eq h (q := requestsObserved) rfl (fun _ _ hheld ↦ exec_observed order hheld _)

theorem observed_le_requests (h : Reaches (system order) P (initial startup calls) c) :
    requestsObserved c.shared.registry ≤ requests c.shared.registry := by
  have hle : ∀ j es p, After (exec order) (code j) es p →
      weigh (observed ⟨httpDuration, .empty⟩) es ≤ weigh (raised isRequests) es := by
    intro j es p ha
    obtain ⟨n, hn, -⟩ := code_weigh ha
    rw [hn _ (fun _ ↦ scraping_observed _), hn _ (fun _ ↦ scraping_raised _)]
    exact (requests_taken j n).1
  rw [requests_eq_spent h, observed_eq_spent h]
  refine Finset.sum_le_sum (fun i _ ↦ ?_)
  have hi := spent_le (fun _ ↦ 0) (fun j es r ↦ hle j es (.ret r)) hle h i
  cases hc : (c.thread i).current <;> simpa [hc] using hi

theorem requests_le_observed (h : Reaches (system order) P (initial startup calls) c) :
    requests c.shared.registry ≤ requestsObserved c.shared.registry + requestsInProgress c := by
  have hdone : ∀ j es r, After (exec order) (code j) es (.ret r) →
      weigh (raised isRequests) es ≤ weigh (observed ⟨httpDuration, .empty⟩) es := by
    intro j es r ha
    rw [code_raised ha, code_observed ha, countP_isRequests]
  have hcurrent : ∀ j es p, After (exec order) (code j) es p →
      weigh (raised isRequests) es ≤
        weigh (observed ⟨httpDuration, .empty⟩) es + if j.isHttpRequest then 1 else 0 := by
    intro j es p ha
    obtain ⟨n, hn, -⟩ := code_weigh ha
    rw [hn _ (fun _ ↦ scraping_observed _), hn _ (fun _ ↦ scraping_raised _)]
    exact (requests_taken j n).2
  rw [requests_eq_spent h, observed_eq_spent h, requestsInProgress, ← Finset.sum_add_distrib]
  exact Finset.sum_le_sum (fun i _ ↦ spent_le _ hdone hcurrent h i)

theorem spent_raised {sh₀ : Shared} (p : SeriesKey → Bool)
    (h : Reaches (system order) P (initial sh₀ calls) c) (hf : Finished c) :
    ∑ i, (c.thread i).spent (raised p) = ∑ i, ((calls i).map (fun j ↦ j.names.countP p)).sum :=
  Finset.sum_congr rfl (fun i _ ↦ spent_of_finished (fun _ _ _ ↦ code_raised) h hf i)

theorem raised_of_finished {p : SeriesKey → Bool} {q : ℕ}
    (h : Reaches (system order) P (initial startup calls) c) (hf : Finished c)
    (hq : q = ∑ i, (c.thread i).spent (raised p)) :
    q = ∑ i, ((calls i).map (fun j ↦ j.names.countP p)).sum := by
  rw [hq, spent_raised p h hf]

theorem countP_names (s : SeriesKey) (js : List Call) :
    (js.map (fun j ↦ j.names.countP (· = s))).sum = js.countP (fun j ↦ s ∈ j.names) := by
  induction js with
  | nil => rfl
  | cons j js ih =>
    have hj : j.names.countP (· = s) = if s ∈ j.names then 1 else 0 := by
      rw [← List.Nodup.count (names_nodup j)]
      rfl
    rw [List.map_cons, List.sum_cons, ih, hj, List.countP_cons, Nat.add_comm]
    simp

/-- No update is lost or made twice: what the registry holds when all calls have returned,
what it holds on the way, and what a later state keeps of an earlier one. -/
theorem updates_exact (h : Reaches (system order) anyStep (initial startup calls) c) :
    (Finished c →
      (∀ s, c.shared.registry.counters.level Counter.value s =
        ∑ i, (calls i).countP (fun j ↦ s ∈ j.names)) ∧
      requests c.shared.registry = requestsObserved c.shared.registry ∧
      failures c.shared.registry = failedAttempts c.shared.registry) ∧
    requestsObserved c.shared.registry ≤ requests c.shared.registry ∧
    requests c.shared.registry ≤ requestsObserved c.shared.registry + requestsInProgress c ∧
    ∀ c', Reaches (system order) anyStep c c' → Grows c.shared.registry c'.shared.registry := by
  refine ⟨fun hf ↦ ⟨fun s ↦ ?_, ?_, ?_⟩, observed_le_requests h, requests_le_observed h,
    fun c' hc ↦ hc.keeps (S := system order) (R := rely) rely_refl rely_trans (exec_grows order)⟩
  · rw [raised_of_finished h hf (level_eq_spent h s)]
    exact Finset.sum_congr rfl (fun i _ ↦ countP_names s (calls i))
  · have hidle : requestsInProgress c = 0 :=
      Finset.sum_eq_zero (fun i _ ↦ by
        rw [Option.isNone_iff_eq_none.mp (hf i).2, Option.elim_none])
    have hle := requests_le_observed h
    have hge := observed_le_requests h
    omega
  · rw [failures, raised_of_finished h hf (level_eq_spent h _),
      raised_of_finished h hf (failedAttempts_eq_spent h)]
    simp only [countP_failures, countP_isFailedAttempts]

def raceCalls (_ : Fin 2) : List Call := [.recordAuthAttempt "u".toList false]

def race : Config (Fin 2) Call Op Ans (List Printed) Shared :=
  (playFrom (system .sorted) anyStep (initial startup raceCalls)
    [0, 1, 0, 1, 1, 1, 0, 0, 1, 0, 0, 1]).2

theorem updates_exact_race : failures race.shared.registry = failedAttempts race.shared.registry :=
  ((updates_exact ⟨_, playFrom_run (initial startup raceCalls) _⟩).1
    (show Finished race by decide)).2.2

end ServiceSystem.Metrics
