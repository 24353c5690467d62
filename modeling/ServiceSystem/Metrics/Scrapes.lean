import ServiceSystem.Metrics.Updates

namespace ServiceSystem.Metrics

open Foundations Program MetricsRegistry Interleaving

abbrev State (ι : Type) := Config ι Call Op Ans (List Printed) Shared

/-- A thread between the two ends of the critical section of `format`. -/
def Scrapes (t : Thread Call Op Ans (List Printed)) : Prop :=
  ∃ es op k, t.current = some (.format, es, .call op k) ∧ es ≠ []

def Printed.HeldBy (m : MetricsRegistry) : Printed → Prop
  | .typeHelp _ => True
  | .counter s c => m.counters.get s = some c
  | .histogram s h => m.histograms.get s = some h

def ScrapesIn {ι : Type} (c : State ι) (i : ι) (n : ℕ) : Prop :=
  Scrapes (c.thread i) ∧ (c.thread i).done.length = n

def printedSum (p : SeriesKey → Bool) (printed : List Printed) : ℕ :=
  (printed.map (fun | .counter s c => if p s then c.value else 0 | _ => 0)).sum

section Stages

variable {order : IterationOrder} {op : Op} {sh : Shared}
  {k : Ans op → Program Op Ans (List Printed)}
  {printed : List Printed} {items : List Item}

theorem printItems_call (h : printItems printed items = .call op k) :
    ∃ texts : List Str, let printed' := printed ++ texts.map .typeHelp
      (items = texts.map .typeHelp ∧ .call op k =
        (.call .unlock fun _ ↦ .ret printed' : Program Op Ans _)) ∨
      (∃ s rest, items = texts.map .typeHelp ++ .counter s :: rest ∧ .call op k =
        (.call (.printCounter s) fun c ↦ printItems (printed' ++ [.counter s c]) rest :
          Program Op Ans _)) ∨
      ∃ s rest, items = texts.map .typeHelp ++ .histogram s :: rest ∧ .call op k =
        (.call (.printHistogram s) fun a ↦ printItems (printed' ++ [.histogram s a]) rest :
          Program Op Ans _) := by
  induction items generalizing printed with
  | nil => exact ⟨[], .inl ⟨rfl, by simpa [printItems] using h.symm⟩⟩
  | cons item items ih =>
    cases item with
    | typeHelp text =>
      obtain ⟨texts, ht⟩ := ih h
      refine ⟨text :: texts, ?_⟩
      simpa [List.append_assoc] using ht
    | counter s => exact ⟨[], .inr (.inl ⟨s, items, rfl, by simpa [printItems] using h.symm⟩)⟩
    | histogram s => exact ⟨[], .inr (.inr ⟨s, items, rfl, by simpa [printItems] using h.symm⟩)⟩

theorem printItems_step (order : IterationOrder) (h : printItems printed items = .call op k)
    (hheld : Held op sh) : ∃ more rest, items = more.map Printed.item ++ rest ∧
      (∀ p ∈ more, p.HeldBy sh.registry) ∧ (exec order op sh).2.registry = sh.registry ∧
      (k (exec order op sh).1 = printItems (printed ++ more) rest ∨
        rest = [] ∧ k (exec order op sh).1 = .ret (printed ++ more)) := by
  obtain ⟨texts, ⟨hi, hk⟩ | ⟨s, rest, hi, hk⟩ | ⟨s, rest, hi, hk⟩⟩ := printItems_call h
  · cases hk
    exact ⟨texts.map .typeHelp, [], by simp [hi, Printed.item], by simp [Printed.HeldBy], rfl,
      .inr ⟨rfl, rfl⟩⟩
  · cases hk
    obtain ⟨c, hc⟩ := Option.isSome_iff_exists.mp hheld
    refine ⟨texts.map .typeHelp ++ [.counter s (counterAt sh.registry s)], rest,
      by simp [hi, Printed.item], ?_, rfl, .inl (by simp [exec])⟩
    have hs : sh.registry.counters.get s = some (counterAt sh.registry s) := by
      simp [counterAt, hc]
    simp [or_imp, forall_and, Printed.HeldBy, hs]
  · cases hk
    obtain ⟨a, ha⟩ := Option.isSome_iff_exists.mp hheld
    refine ⟨texts.map .typeHelp ++ [.histogram s (histogramAt sh.registry s)], rest,
      by simp [hi, Printed.item], ?_, rfl, .inl (by simp [exec])⟩
    have hs : sh.registry.histograms.get s = some (histogramAt sh.registry s) := by
      simp [histogramAt, ha]
    simp [or_imp, forall_and, Printed.HeldBy, hs]

theorem printItems_ne_ret (printed : List Printed) (items : List Item) (r : List Printed) :
    printItems printed items ≠ .ret r := by
  induction items generalizing printed with
  | nil => exact nofun
  | cons item items ih =>
    cases item with
    | typeHelp text => exact ih _
    | counter s | histogram s => exact nofun

theorem format_after {es : List (Event Ans)} {p : Program Op Ans (List Printed)}
    (h : After (exec order) formatProgram es p) :
    (es = [] ∧ p = formatProgram) ∨
      es ≠ [] ∧ ((∃ printed items, p = printItems printed items) ∨ ∃ r, p = .ret r) := by
  induction h with
  | start => exact .inl ⟨rfl, rfl⟩
  | @step es op k h s ih =>
    refine .inr ⟨by simp, ?_⟩
    rcases ih with ⟨-, hp⟩ | ⟨-, ⟨printed, items, hp⟩ | ⟨r, hp⟩⟩
    · cases hp
      exact .inl ⟨_, _, rfl⟩
    · obtain ⟨texts, ⟨-, hk⟩ | ⟨s', rest, -, hk⟩ | ⟨s', rest, -, hk⟩⟩ := printItems_call hp.symm
      · cases hk
        exact .inr ⟨_, rfl⟩
      · cases hk
        exact .inl ⟨_, _, rfl⟩
      · cases hk
        exact .inl ⟨_, _, rfl⟩
    · cases hp

def Locking (op : Op) : Prop := op = .lock ∨ op = .unlock

theorem code_only {j : Call} (hj : j ≠ .format) : (code j).Only (fun op ↦ ¬ Locking op) := by
  cases j with
  | recordAuthAttempt username success =>
    cases success <;> simp [code, noReply, Metrics.recordAuthAttempt, Only, Locking]
  | format => exact absurd rfl hj
  | initializeMetrics => simp [code, noReply, Only, Locking]
  | recordHttpRequest | recordDbOperation | recordDeviceOperation | recordServiceOperation =>
    simp [code, noReply, Metrics.recordHttpRequest, Metrics.recordDbOperation,
      Metrics.recordDeviceOperation, Metrics.recordServiceOperation, Only, Locking]

theorem exec_locked (order : IterationOrder) (h : ¬ Locking op) (sh : Shared) :
    (exec order op sh).2.locked = sh.locked := by
  cases op <;> first | rfl | simp [Locking] at h

theorem familyItems_update {α : Type} (f : Families α) (s : SeriesKey) (u : α → α)
    (helps : OrderedMap Str Str) (kind : Str) (item : SeriesKey → Item) :
    familyItems (f.update s u) helps kind item = familyItems f helps kind item := by
  funext name
  simp only [familyItems, Families.update, OrderedMap.modify_get]
  split_ifs with hn
  · subst hn
    cases OrderedMap.get? f s.name <;> simp [OrderedMap.modify_keys]
  · rfl

theorem update_keys {α : Type} (f : Families α) (s : SeriesKey) (u : α → α) :
    OrderedMap.keys (f.update s u) = OrderedMap.keys f := OrderedMap.modify_keys ..

/-- Nobody can register a series or a help text while the registry mutex is held. -/
theorem layout_locked (hr : ready op sh) (hl : sh.locked = true) :
    layout order (exec order op sh).2.registry = layout order sh.registry := by
  cases op with
  | initializeMetrics =>
    have hi : sh.registry.initialized = true := by simpa [ready, hl] using hr
    simp only [exec, initializeMetrics, hi, if_true]
  | getCounter | getHistogram | lock => simp [ready, hl] at hr
  | increment s =>
    simp only [exec, layout, MetricsRegistry.increment, update_keys, familyItems_update]
  | observe s v =>
    simp only [exec, layout, MetricsRegistry.observe, update_keys, familyItems_update]
  | printCounter | printHistogram | unlock => rfl

def asked : Op → ℕ
  | .getCounter name _ _ => if name = authFailures then 1 else 0
  | _ => 0

theorem asked_locked (hr : ready op sh) (hl : sh.locked = true) : asked op = 0 := by
  cases op <;> first | rfl | simp [ready, hl] at hr

theorem scraping_asked (h : Scraping op) : asked op = 0 := by
  cases op <;> first | rfl | cases h

/-- A failed attempt is counted before its failure is looked up, and that before it is
counted. -/
theorem asked_taken (j : Call) (n : ℕ) :
    let taken := (updates j).take n
    (taken.map (raised (· = ⟨authFailures, .empty⟩))).sum ≤ (taken.map asked).sum ∧
      (taken.map asked).sum ≤ (taken.map (raised isFailedAttempts)).sum := by
  cases j with
  | recordAuthAttempt username success =>
    cases success <;> rcases n with _ | _ | _ | _ | n <;>
      simp [updates, raised, asked, isFailedAttempts, authLabels_failed, ne_authFailures]
  | initializeMetrics | recordHttpRequest | recordDbOperation | recordDeviceOperation |
    recordServiceOperation | format =>
    rcases n with _ | _ | _ | _ | n <;> simp [updates, raised, asked, ne_authFailures]

end Stages

section Runs

variable {ι : Type} [DecidableEq ι] {order : IterationOrder} {calls : ι → List Call}
  {P : State ι → ι → Prop} {past : List (State ι)} {c c' : State ι} {i k : ι}

theorem not_scrapes {t : Thread Call Op Ans (List Printed)}
    (h : ∀ es op k, t.current = some (.format, es, .call op k) → es = []) : ¬ Scrapes t :=
  fun ⟨es, op, k, ht, hes⟩ ↦ hes (h es op k ht)

theorem scrapes_of_items {t : Thread Call Op Ans (List Printed)} {es : List (Event Ans)}
    {printed : List Printed} {items : List Item}
    (h : t.current = some (.format, es, printItems printed items)) (hes : es ≠ []) : Scrapes t := by
  cases hp : printItems printed items with
  | ret r => exact absurd hp (printItems_ne_ret printed items r)
  | call op k => exact ⟨es, op, k, hp ▸ h, hes⟩

/-- A step takes the mutex for a scrape, goes on with it, or is neither; then only its own
thread may have given the mutex back. -/
theorem step_scrapes {sh₀ : Shared} (h : Reaches (system order) P (initial sh₀ calls) c)
    (hs : Step (system order) c i c') :
    (¬ Scrapes (c'.thread i) ∧ (c'.shared.locked = c.shared.locked ∨ Scrapes (c.thread i))) ∨
      (Scrapes (c'.thread i) ∧ Scrapes (c.thread i) ∧ c'.shared.locked = c.shared.locked) ∨
      (Scrapes (c'.thread i) ∧ c.shared.locked = false ∧ c'.shared.locked = true) := by
  cases hs with
  | begin ht =>
    refine .inl ⟨not_scrapes ?_, .inl rfl⟩
    intro es op k hc
    rw [update_self] at hc
    cases hc
    rfl
  | finish ht =>
    refine .inl ⟨not_scrapes ?_, .inl rfl⟩
    intro es op k hc
    rw [update_self] at hc
    cases hc
  | @take j js es op k done ht hr =>
    have hcurrent : (c.thread i).current = some (j, es, .call op k) := by rw [ht]
    have hafter := (fits h i).current _ _ _ hcurrent
    by_cases hj : j = .format
    · subst hj
      rcases format_after hafter with ⟨rfl, hp⟩ | ⟨hes, ⟨printed, items, hp⟩ | ⟨r, hp⟩⟩
      · cases hp
        refine .inr (.inr ⟨?_, hr, rfl⟩)
        rw [update_self]
        exact scrapes_of_items rfl (by simp)
      · have hsc : Scrapes (c.thread i) := ⟨es, op, k, hcurrent, hes⟩
        obtain ⟨texts, ⟨-, hk⟩ | ⟨s', rest, -, hk⟩ | ⟨s', rest, -, hk⟩⟩ := printItems_call hp.symm
        · cases hk
          refine .inl ⟨not_scrapes ?_, .inr hsc⟩
          intro es op k hc
          rw [update_self] at hc
          cases hc
        · cases hk
          refine .inr (.inl ⟨?_, hsc, rfl⟩)
          rw [update_self]
          exact scrapes_of_items rfl (by simp)
        · cases hk
          refine .inr (.inl ⟨?_, hsc, rfl⟩)
          rw [update_self]
          exact scrapes_of_items rfl (by simp)
      · cases hp
    · have hop := (hafter.only (code_only hj)).2.1
      refine .inl ⟨not_scrapes ?_, .inl (exec_locked order hop _)⟩
      intro es op k hc
      rw [update_self] at hc
      exact absurd (Prod.mk.inj (Option.some.inj hc)).1 hj

theorem step_unlocks {sh₀ : Shared} (h : Reaches (system order) P (initial sh₀ calls) c)
    (hs : Step (system order) c i c') (hi : Scrapes (c.thread i)) :
    Scrapes (c'.thread i) ∨ c'.shared.locked = false := by
  obtain ⟨es, op, k, hcurrent, hes⟩ := hi
  cases hs with
  | begin ht | finish ht =>
    rw [ht] at hcurrent
    cases hcurrent
  | take ht hr =>
    rw [ht] at hcurrent
    cases hcurrent
    have hafter := (fits h i).current _ _ _ (by rw [ht])
    rcases format_after hafter with ⟨rfl, -⟩ | ⟨-, ⟨printed, items, hp⟩ | ⟨r, hp⟩⟩
    · exact absurd rfl hes
    · obtain ⟨texts, ⟨-, hk⟩ | ⟨s', rest, -, hk⟩ | ⟨s', rest, -, hk⟩⟩ := printItems_call hp.symm
      · cases hk
        exact .inr rfl
      · cases hk
        refine .inl ?_
        rw [update_self]
        exact scrapes_of_items rfl (by simp)
      · cases hk
        refine .inl ?_
        rw [update_self]
        exact scrapes_of_items rfl (by simp)
    · cases hp

/-- Whenever the registry mutex is held, some thread is in the middle of a scrape. -/
theorem locked_scrapes {sh₀ : Shared} (hfree : sh₀.locked = false)
    (h : Reaches (system order) P (initial sh₀ calls) c) (hl : c.shared.locked = true) :
    ∃ i, Scrapes (c.thread i) := by
  refine h.invariant (I := fun c ↦ c.shared.locked = true → ∃ i, Scrapes (c.thread i)) ?_ ?_ hl
  · intro hstart
    rw [show (initial sh₀ calls : State ι).shared = sh₀ from rfl, hfree] at hstart
    cases hstart
  · intro c i c' hc ih _ hs hl'
    have hkept : ∀ k, Scrapes (c.thread k) → Scrapes (c'.thread k) := by
      intro k hk
      by_cases hki : k = i
      · subst hki
        rcases step_unlocks hc hs hk with hsc | hfree'
        · exact hsc
        · rw [hfree'] at hl'
          cases hl'
      · cases hs <;> rwa [update_other _ _ _ hki]
    rcases step_scrapes hc hs with ⟨-, hl | hi⟩ | ⟨hi, -⟩ | ⟨hi, -⟩
    · obtain ⟨k, hk⟩ := ih (hl ▸ hl')
      exact ⟨k, hkept k hk⟩
    · exact ⟨i, hkept i hi⟩
    · exact ⟨i, hi⟩
    · exact ⟨i, hi⟩

theorem scrapes_ready (sh : Shared) {t : Thread Call Op Ans (List Printed)}
    (hfits : Fits (system order) t) (h : Scrapes t) :
    ∃ es op k, t.current = some (.format, es, .call op k) ∧ ready op sh := by
  obtain ⟨es, op, k, hcurrent, hes⟩ := h
  refine ⟨es, op, k, hcurrent, ?_⟩
  rcases format_after (hfits.current _ _ _ hcurrent) with ⟨rfl, -⟩ | ⟨-, ⟨printed, items, hp⟩ | ⟨r, hp⟩⟩
  · exact absurd rfl hes
  · obtain ⟨texts, ⟨-, hk⟩ | ⟨s, rest, -, hk⟩ | ⟨s, rest, -, hk⟩⟩ := printItems_call hp.symm
    all_goals
      cases hk
      trivial
  · cases hp

theorem exclusive (h : Reaches (system order) P (initial startup calls) c) :
    (∀ i, Scrapes (c.thread i) → c.shared.locked = true) ∧
      ∀ i k, Scrapes (c.thread i) → Scrapes (c.thread k) → i = k := by
  refine h.invariant (I := fun c ↦ (∀ i, Scrapes (c.thread i) → c.shared.locked = true) ∧
    ∀ i k, Scrapes (c.thread i) → Scrapes (c.thread k) → i = k) ?_ ?_
  · have hnone : ∀ i, ¬ Scrapes ((initial startup calls : State ι).thread i) :=
      fun i ↦ not_scrapes (fun _ _ _ h ↦ by cases h)
    exact ⟨fun i hi ↦ absurd hi (hnone i), fun i _ hi ↦ absurd hi (hnone i)⟩
  · intro c i c' hc ⟨hlocked, hsingle⟩ _ hs
    have hother : ∀ k, k ≠ i → c'.thread k = c.thread k := by
      intro k hk
      cases hs <;> simp [hk]
    have hk : ∀ k, k ≠ i → Scrapes (c'.thread k) → Scrapes (c.thread k) :=
      fun k hk h ↦ hother k hk ▸ h
    rcases step_scrapes hc hs with ⟨hi, hl⟩ | ⟨-, hi, hl⟩ | ⟨-, hfree, hl⟩
    · have hne : ∀ k, Scrapes (c'.thread k) → k ≠ i := fun k h he ↦ hi (he ▸ h)
      refine ⟨fun k h ↦ ?_, fun k l h h' ↦ hsingle k l (hk k (hne k h) h) (hk l (hne l h') h')⟩
      have hsk := hk k (hne k h) h
      rcases hl with hl | hl
      · rw [hl]
        exact hlocked k hsk
      · exact absurd (hsingle k i hsk hl) (hne k h)
    · have hall : ∀ k, Scrapes (c'.thread k) → Scrapes (c.thread k) := by
        intro k h
        by_cases hki : k = i
        · exact hki ▸ hi
        · exact hk k hki h
      exact ⟨fun k h ↦ hl ▸ hlocked k (hall k h), fun k l h h' ↦ hsingle k l (hall k h) (hall l h')⟩
    · have hself : ∀ k, Scrapes (c'.thread k) → k = i := by
        intro k h
        by_contra hki
        rw [hlocked k (hk k hki h)] at hfree
        cases hfree
      exact ⟨fun _ _ ↦ hl, fun k l h h' ↦ (hself k h).trans (hself l h').symm⟩

/-- What a scrape has printed so far was there at some time since it took the mutex, and
the series it prints are the ones that were there all the time. -/
structure Seen (order : IterationOrder) (past : List (State ι)) (i : ι) (n : ℕ)
    (printed : List Printed) (items : List Item) : Prop where
  held : ∀ p ∈ printed, ∃ c' ∈ past, ScrapesIn c' i n ∧ p.HeldBy c'.shared.registry
  layout : ∀ c' ∈ past, ScrapesIn c' i n →
    layout order c'.shared.registry = printed.map Printed.item ++ items

/-- What a scrape that began on `m` has printed so far, compared with `m`. -/
structure Above (order : IterationOrder) (m : MetricsRegistry) (printed : List Printed)
    (items : List Item) : Prop where
  layout : layout order m = printed.map Printed.item ++ items
  reached : ∀ s v, .counter s v ∈ printed → m.counters.level Counter.value s ≤ v.value
  failures : ∀ v, .counter ⟨authFailures, .empty⟩ v ∈ printed → v.value ≤ failedAttempts m

variable {n : ℕ} {printed more : List Printed} {items rest : List Item} {m m' : MetricsRegistry}

omit [DecidableEq ι] in
theorem Seen.push (h : Seen order past i n printed items) (hl : ScrapesIn c i n →
    Metrics.layout order c.shared.registry = printed.map Printed.item ++ items) :
    Seen order (c :: past) i n printed items where
  held p hp := by
    obtain ⟨c', hc', hs⟩ := h.held p hp
    exact ⟨c', List.mem_cons_of_mem _ hc', hs⟩
  layout c' hc' hs := by
    rcases List.mem_cons.mp hc' with rfl | hc'
    · exact hl hs
    · exact h.layout c' hc' hs

omit [DecidableEq ι] in
theorem Seen.print (h : Seen order (c :: past) i n printed items) (hc : ScrapesIn c i n)
    (hitems : items = more.map Printed.item ++ rest)
    (hmore : ∀ p ∈ more, p.HeldBy c.shared.registry) :
    Seen order (c :: past) i n (printed ++ more) rest where
  held p hp := by
    rcases List.mem_append.mp hp with hp | hp
    · exact h.held p hp
    · exact ⟨c, List.mem_cons_self, hc, hmore p hp⟩
  layout c' hc' hs := by
    rw [h.layout c' hc' hs, hitems, List.map_append, List.append_assoc]

theorem Above.print (h : Above order m printed items)
    (hitems : items = more.map Printed.item ++ rest)
    (hgrows : Grows m m') (hfailures : Metrics.failures m' ≤ failedAttempts m)
    (hmore : ∀ p ∈ more, p.HeldBy m') : Above order m (printed ++ more) rest where
  layout := by rw [h.layout, hitems, List.map_append, List.append_assoc]
  reached s v hv := by
    rcases List.mem_append.mp hv with hv | hv
    · exact h.reached s v hv
    · have hs : m'.counters.get s = some v := hmore _ hv
      cases hm : m.counters.get s with
      | none => simp [Families.level, hm]
      | some a =>
        obtain ⟨b, hb, hab⟩ := hgrows.counters s a hm
        obtain rfl : b = v := by simpa [hs] using hb.symm
        simpa [Families.level, hm] using hab
  failures v hv := by
    rcases List.mem_append.mp hv with hv | hv
    · exact h.failures v hv
    · have hs : m'.counters.get ⟨authFailures, .empty⟩ = some v := hmore _ hv
      simpa [Metrics.failures, Families.level, hs] using hfailures

def failuresAsked [Fintype ι] (c : State ι) : ℕ := ∑ i, (c.thread i).spent asked

theorem failures_le_asked [Fintype ι] (h : Reaches (system order) P (initial startup calls) c) :
    Metrics.failures c.shared.registry ≤ failuresAsked c ∧
      failuresAsked c ≤ failedAttempts c.shared.registry := by
  have hle : ∀ j es p, After (exec order) (code j) es p →
      weigh (raised (· = ⟨authFailures, .empty⟩)) es ≤ weigh asked es ∧
        weigh asked es ≤ weigh (raised isFailedAttempts) es := by
    intro j es p ha
    obtain ⟨n, hn, -⟩ := code_weigh ha
    rw [hn _ (fun _ ↦ scraping_raised _), hn _ (fun _ ↦ scraping_asked),
      hn _ (fun _ ↦ scraping_raised _)]
    exact asked_taken j n
  rw [Metrics.failures, level_eq_spent h, failedAttempts_eq_spent h, failuresAsked]
  constructor
  · refine Finset.sum_le_sum (fun i _ ↦ ?_)
    have hi := spent_le (fun _ ↦ 0) (fun j es r ha ↦ (hle j es _ ha).1)
      (fun j es p ha ↦ (hle j es p ha).1) h i
    cases hc : (c.thread i).current <;> simpa [hc] using hi
  · refine Finset.sum_le_sum (fun i _ ↦ ?_)
    have hi := spent_le (fun _ ↦ 0) (fun j es r ha ↦ (hle j es _ ha).2)
      (fun j es p ha ↦ (hle j es p ha).2) h i
    cases hc : (c.thread i).current <;> simpa [hc] using hi

variable [Fintype ι]

/-- Where thread `i` stands in its scrapes. -/
structure Scraped (order : IterationOrder) (past : List (State ι)) (c : State ι) (i : ι) :
    Prop where
  earlier : ∀ c' ∈ past, ∀ n, ScrapesIn c' i n → n < (c.thread i).done.length ∨
    n = (c.thread i).done.length ∧ ∃ es p, (c.thread i).current = some (.format, es, p) ∧ es ≠ []
  during : ∀ es p, (c.thread i).current = some (.format, es, p) → es ≠ [] →
    ∃ printed items m, Seen order past i (c.thread i).done.length printed items ∧
      Above order m printed items ∧
      ((p = printItems printed items ∧ Grows m c.shared.registry ∧
        layout order c.shared.registry = printed.map Printed.item ++ items ∧
        failuresAsked c ≤ failedAttempts m) ∨
      p = .ret printed ∧ items = [])
  returned : ∀ n es r, (c.thread i).done[n]? = some (.format, es, r) →
    ∃ m, Seen order past i n r [] ∧ Above order m r []

theorem step_locked (hs : Step (system order) c k c') (hl : c.shared.locked = true) :
    layout order c'.shared.registry = layout order c.shared.registry ∧
      Grows c.shared.registry c'.shared.registry ∧ failuresAsked c' = failuresAsked c := by
  rcases step_spent asked hs with ⟨hshared, hspent⟩ | ⟨j, es, op, p, -, hr, hshared, hspent⟩
  · rw [hshared]
    exact ⟨rfl, .refl _, hspent⟩
  · rw [hshared]
    refine ⟨layout_locked hr hl, exec_grows order op _, ?_⟩
    rw [asked_locked hr hl, Nat.add_zero] at hspent
    exact hspent

omit [DecidableEq ι] in
theorem Scraped.push_returned (h : Scraped order past c i) :
    ∀ n es r, (c.thread i).done[n]? = some (.format, es, r) →
      ∃ m, Seen order (c :: past) i n r [] ∧ Above order m r [] := by
  intro n es r hn
  obtain ⟨m, hseen, habove⟩ := h.returned n es r hn
  refine ⟨m, hseen.push (fun hc ↦ ?_), habove⟩
  have hlt := (List.getElem?_eq_some_iff.mp hn).1
  exact absurd hc.2 (by omega)

theorem Scraped.other (h : Scraped order past c i)
    (hc : Reaches (system order) P (initial startup calls) c) (hs : Step (system order) c k c')
    (hk : c'.thread i = c.thread i) : Scraped order (c :: past) c' i where
  earlier c'' hc'' n hn := by
    rw [hk]
    rcases List.mem_cons.mp hc'' with rfl | hc''
    · obtain ⟨es, op, p, hcur, hes⟩ := hn.1
      exact .inr ⟨hn.2.symm, es, _, hcur, hes⟩
    · exact h.earlier c'' hc'' n hn
  during es p hcur hes := by
    rw [hk] at hcur ⊢
    obtain ⟨printed, items, m, hseen, habove, ⟨rfl, hgrows, hlayout, hasked⟩ | ⟨rfl, rfl⟩⟩ :=
      h.during es p hcur hes
    · have hl := (exclusive hc).1 i (scrapes_of_items hcur hes)
      obtain ⟨hlayout', hgrows', hasked'⟩ := step_locked hs hl
      exact ⟨printed, items, m, hseen.push (fun _ ↦ hlayout), habove,
        .inl ⟨rfl, hgrows.trans hgrows', hlayout'.trans hlayout, hasked'.trans_le hasked⟩⟩
    · refine ⟨printed, [], m, hseen.push (fun hsc ↦ ?_), habove, .inr ⟨rfl, rfl⟩⟩
      obtain ⟨es', op, k', hcur', -⟩ := hsc.1
      rw [hcur] at hcur'
      cases hcur'
  returned := by
    rw [hk]
    exact h.push_returned

theorem Scraped.begin {j : Call} {js : List Call} {done : List (Call × List (Event Ans) × _)}
    (h : Scraped order past c i) (ht : c.thread i = ⟨j :: js, none, done⟩) :
    Scraped order (c :: past) (update c c.shared i ⟨js, some (j, [], code j), done⟩) i where
  earlier c' hc' n hn := by
    rw [update_self]
    rcases List.mem_cons.mp hc' with rfl | hc'
    · obtain ⟨es, op, k, hcur, -⟩ := hn.1
      rw [ht] at hcur
      cases hcur
    · rcases h.earlier c' hc' n hn with hlt | ⟨-, es, p, hcur, -⟩
      · rw [ht] at hlt
        exact .inl hlt
      · rw [ht] at hcur
        cases hcur
  during es p hcur hes := by
    rw [update_self] at hcur
    cases hcur
    exact absurd rfl hes
  returned n es r hn := by
    rw [update_self] at hn
    exact h.push_returned n es r (by rw [ht]; exact hn)

theorem Scraped.finish {j : Call} {js : List Call} {es : List (Event Ans)} {r : List Printed}
    {done : List (Call × List (Event Ans) × List Printed)} (h : Scraped order past c i)
    (hc : Reaches (system order) P (initial startup calls) c)
    (ht : c.thread i = ⟨js, some (j, es, .ret r), done⟩) :
    Scraped order (c :: past) (update c c.shared i ⟨js, none, done ++ [(j, es, r)]⟩) i where
  earlier c' hc' n hn := by
    rw [update_self, List.length_append, List.length_singleton]
    rcases List.mem_cons.mp hc' with rfl | hc'
    · obtain ⟨es, op, k, hcur, -⟩ := hn.1
      rw [ht] at hcur
      cases hcur
    · rcases h.earlier c' hc' n hn with hlt | ⟨he, -⟩
      · rw [ht] at hlt
        exact .inl (Nat.lt_succ_of_lt hlt)
      · rw [ht] at he
        exact .inl (Nat.lt_succ_of_le he.le)
  during es p hcur hes := by
    rw [update_self] at hcur
    cases hcur
  returned n es' r' hn := by
    rw [update_self] at hn
    rcases Nat.lt_or_ge n done.length with hlt | hge
    · rw [List.getElem?_append_left hlt] at hn
      exact h.push_returned n es' r' (by rw [ht]; exact hn)
    · rw [List.getElem?_append_right hge] at hn
      obtain ⟨hn0, hd⟩ := List.getElem?_eq_some_iff.mp hn
      simp only [List.length_singleton, Nat.lt_one_iff] at hn0
      obtain rfl : n = done.length := by omega
      simp only [Nat.sub_self, List.getElem_cons_zero] at hd
      cases hd
      have hcur : (c.thread i).current = some (.format, es, .ret r) := by rw [ht]
      have hes : es ≠ [] := by
        rcases format_after ((fits hc i).current _ _ _ hcur) with ⟨-, hp⟩ | ⟨hes, -⟩
        · cases hp
        · exact hes
      obtain ⟨printed, items, m, hseen, habove, ⟨hp, -⟩ | ⟨hp, rfl⟩⟩ := h.during es _ hcur hes
      · exact absurd hp.symm (printItems_ne_ret printed items r)
      · cases hp
        rw [ht] at hseen
        refine ⟨m, hseen.push (fun hsc ↦ ?_), habove⟩
        obtain ⟨es', op, k', hcur', -⟩ := hsc.1
        rw [hcur] at hcur'
        cases hcur'

theorem Scraped.take {j : Call} {js : List Call} {es : List (Event Ans)} {op : Op}
    {k : Ans op → Program Op Ans (List Printed)}
    {done : List (Call × List (Event Ans) × List Printed)} (h : Scraped order past c i)
    (hc : Reaches (system order) P (initial startup calls) c)
    (hc' : Reaches (system order) P (initial startup calls) c')
    (ht : c.thread i = ⟨js, some (j, es, .call op k), done⟩)
    (hs : Step (system order) c i c') (hthread : c'.thread i = ⟨js,
      some (j, es ++ [⟨op, (exec order op c.shared).1⟩], k (exec order op c.shared).1), done⟩)
    (hshared : c'.shared = (exec order op c.shared).2) :
    Scraped order (c :: past) c' i where
  earlier c'' hc'' n hn := by
    rw [hthread]
    rcases List.mem_cons.mp hc'' with rfl | hc''
    · obtain ⟨es', op', k', hcur, -⟩ := hn.1
      rw [ht] at hcur
      have hlen := hn.2
      rw [ht] at hlen
      cases hcur
      exact .inr ⟨hlen.symm, _, _, rfl, by simp⟩
    · rcases h.earlier c'' hc'' n hn with hlt | ⟨he, es', p, hcur, -⟩
      · rw [ht] at hlt
        exact .inl hlt
      · rw [ht] at hcur he
        cases hcur
        exact .inr ⟨he, _, _, rfl, by simp⟩
  during es' p hcur' hes' := by
    rw [hthread] at hcur' ⊢
    cases hcur'
    have hcur : (c.thread i).current = some (.format, es, .call op k) := by rw [ht]
    rcases format_after ((fits hc i).current _ _ _ hcur) with ⟨rfl, hp⟩ | ⟨hes, -⟩
    · cases hp
      have hregistry : c'.shared.registry = c.shared.registry := by rw [hshared]; rfl
      have hnot : ∀ c'' ∈ c :: past, ¬ ScrapesIn c'' i done.length := by
        intro c'' hc'' hn
        rcases List.mem_cons.mp hc'' with rfl | hc''
        · obtain ⟨es', op', k', hcur', hes'⟩ := hn.1
          rw [hcur] at hcur'
          cases hcur'
          exact hes' rfl
        · rcases h.earlier c'' hc'' _ hn with hlt | ⟨-, es', p, hcur', hes'⟩
          · rw [ht] at hlt
            exact absurd hlt (lt_irrefl _)
          · rw [hcur] at hcur'
            cases hcur'
            exact hes' rfl
      refine ⟨[], layout order c.shared.registry, c.shared.registry,
        ⟨by simp, fun c'' hc'' hn ↦ absurd hn (hnot c'' hc'')⟩, ⟨rfl, by simp, by simp⟩,
        .inl ⟨rfl, ?_, ?_, ?_⟩⟩
      · rw [hregistry]
        exact .refl _
      · rw [hregistry]
        rfl
      · rw [← hregistry]
        exact (failures_le_asked hc').2
    · obtain ⟨printed, items, m, hseen, habove, ⟨hp, hgrows, hlayout, hasked⟩ | ⟨hp, -⟩⟩ :=
        h.during es _ hcur hes
      · obtain ⟨more, rest, hitems, hmore, hregistry, hk⟩ :=
          printItems_step order hp.symm (held hc hcur)
        have hsc : ScrapesIn c i done.length := ⟨⟨es, op, k, hcur, hes⟩, by rw [ht]⟩
        have hfailures := (failures_le_asked hc).1.trans hasked
        have hlocked := step_locked hs ((exclusive hc).1 i hsc.1)
        rw [← hshared] at hregistry
        rw [ht] at hseen
        refine ⟨printed ++ more, rest, m, (hseen.push (fun _ ↦ hlayout)).print hsc hitems hmore,
          habove.print hitems hgrows hfailures hmore, ?_⟩
        rcases hk with hk | ⟨rfl, hk⟩
        · refine .inl ⟨hk, hgrows.trans hlocked.2.1, ?_, hlocked.2.2.trans_le hasked⟩
          rw [hlocked.1, hlayout, hitems, List.map_append, List.append_assoc]
        · exact .inr ⟨hk, rfl⟩
      · cases hp
  returned n es' r hn := by
    rw [hthread] at hn
    exact h.push_returned n es' r (by rw [ht]; exact hn)

theorem scraped (h : Run (system order) P (initial startup calls) past c) :
    ∀ i, Scraped order past c i := by
  induction h with
  | start =>
    refine fun i ↦ ⟨fun _ hc ↦ ?_, fun _ _ hcur ↦ ?_, fun n es r hn ↦ ?_⟩
    · cases hc
    · cases hcur
    · simp [initial] at hn
  | @step past c c' k h hP hs ih =>
    intro i
    have hc : Reaches (system order) P (initial startup calls) c := ⟨past, h⟩
    have hc' : Reaches (system order) P (initial startup calls) c' := ⟨c :: past, h.step hP hs⟩
    by_cases hi : i = k
    · subst hi
      cases hs with
      | begin ht => exact (ih i).begin ht
      | take ht hr => exact (ih i).take hc hc' ht (.take ht hr) (update_self ..) rfl
      | finish ht => exact (ih i).finish hc ht
    · refine (ih i).other hc hs ?_
      cases hs <;> simp [hi]

def Item.attempts (m : MetricsRegistry) : Item → ℕ
  | .counter s => if isFailedAttempts s then m.counters.level Counter.value s else 0
  | .typeHelp _ | .histogram _ => 0

theorem Above.failedAttempts_le (h : Above order m printed []) :
    failedAttempts m ≤ printedSum isFailedAttempts printed := by
  have hfamily : failedAttempts m ≤ ((Metrics.layout order m).map (Item.attempts m)).sum := by
    cases hm : OrderedMap.get? m.counters authAttempts with
    | none => simp [failedAttempts, Families.sumOver, Families.tally, hm]
    | some labelMap =>
      have hkey : authAttempts ∈ order.permute m.counters.keys :=
        (order.perm _).mem_iff.mpr (OrderedMap.mem_keys.mpr (by rw [hm]; rfl))
      obtain ⟨before, after, hsplit⟩ := List.append_of_mem hkey
      have htotal : failedAttempts m =
          ((familyItems m.counters m.counterHelps "counter".toList Item.counter authAttempts).map
            (Item.attempts m)).sum := by
        simp only [failedAttempts, Families.sumOver, Families.tally, hm, Option.elim_some,
          OrderedMap.total, familyItems, OrderedMap.keys, List.map_cons, List.map_map,
          List.sum_cons]
        rw [Item.attempts, Nat.zero_add]
        refine congrArg List.sum (List.map_congr_left (fun e he ↦ ?_))
        have hget := OrderedMap.mem_entries.mp (show (e.1, e.2) ∈ labelMap.entries from he)
        simp [Item.attempts, isFailedAttempts, Families.level, Families.get, hm, hget]
      rw [Metrics.layout, hsplit]
      simp only [List.flatMap_append, List.flatMap_cons, List.map_append, List.sum_append]
      omega
  refine hfamily.trans ?_
  rw [h.layout, List.append_nil, List.map_map, printedSum]
  refine List.sum_le_sum (fun p hp ↦ ?_)
  cases p with
  | typeHelp | histogram => exact le_rfl
  | counter s v =>
    have hreached := h.reached s v hp
    simp only [Function.comp_apply, Printed.item, Item.attempts]
    split_ifs
    · exact hreached
    · exact le_rfl

end Runs

/-- Every value a scrape prints was held at some time while the scrape held the registry
mutex, the series and help texts it prints are the ones there all that time, and it never
shows more failures than failed attempts. -/
theorem scrape_window {ι : Type} [DecidableEq ι] [Fintype ι] {order : IterationOrder}
    {calls : ι → List Call} {past : List (State ι)} {c : State ι}
    (h : Run (system order) anyStep (initial startup calls) past c) {i : ι} {n : ℕ}
    {es : List (Event Ans)} {r : List Printed}
    (hr : (c.thread i).done[n]? = some (.format, es, r)) :
    (∀ p ∈ r, ∃ c' ∈ past, ScrapesIn c' i n ∧ c'.shared.locked = true ∧
        p.HeldBy c'.shared.registry) ∧
      (∀ c' ∈ past, ScrapesIn c' i n → layout order c'.shared.registry = r.map Printed.item) ∧
      ∀ failures, .counter ⟨authFailures, .empty⟩ failures ∈ r →
        failures.value ≤ printedSum isFailedAttempts r := by
  obtain ⟨m, hseen, habove⟩ := (scraped h i).returned n es r hr
  refine ⟨fun p hp ↦ ?_, fun c' hc' hs ↦ by rw [hseen.layout c' hc' hs, List.append_nil],
    fun failures hf ↦ (habove.failures failures hf).trans habove.failedAttempts_le⟩
  obtain ⟨c', hc', hs, hheld⟩ := hseen.held p hp
  exact ⟨c', hc', hs, (exclusive (h.reaches hc')).1 i hs.1, hheld⟩

instance (m : MetricsRegistry) (p : Printed) : Decidable (p.HeldBy m) := by
  cases p <;> unfold Printed.HeldBy <;> infer_instance

def tornCalls : Fin 3 → List Call
  | 0 => [.format]
  | 1 => [.recordDbOperation "a".toList true]
  | 2 => [.recordDbOperation "b".toList true]

/-- Both series are registered when the scrape begins; between its two prints, first the
one already printed is raised and then the other. -/
def torn : List (State (Fin 3)) × State (Fin 3) :=
  playFrom (system .sorted) anyStep (initial startup tornCalls)
    [1, 1, 2, 2, 0, 0, 0, 1, 2, 0, 0, 0]

def tornPrinted : List Printed := ((torn.2.thread 0).done.flatMap (·.2.2))

theorem scrape_window_torn :
    (∀ p ∈ tornPrinted, ∃ c' ∈ torn.1, ScrapesIn c' 0 0 ∧ c'.shared.locked = true ∧
        p.HeldBy c'.shared.registry) ∧
      (∀ c' ∈ torn.1, ScrapesIn c' 0 0 →
        layout .sorted c'.shared.registry = tornPrinted.map Printed.item) ∧
      ∀ failures, .counter ⟨authFailures, .empty⟩ failures ∈ tornPrinted →
        failures.value ≤ printedSum isFailedAttempts tornPrinted :=
  scrape_window (playFrom_run (initial startup tornCalls) _) (i := 0) (n := 0) rfl

theorem scrape_not_snapshot : ¬ ∀ (ι : Type) [DecidableEq ι] (order : IterationOrder)
    (calls : ι → List Call) (past : List (State ι)) (c : State ι),
    Run (system order) anyStep (initial startup calls) past c →
    ∀ (i : ι) (n : ℕ) (es : List (Event Ans)) (r : List Printed),
      (c.thread i).done[n]? = some (.format, es, r) →
      ∃ c' ∈ c :: past, ∀ p ∈ r, p.HeldBy c'.shared.registry := by
  intro h
  obtain ⟨c', hc', hheld⟩ := h (Fin 3) _ tornCalls torn.1 torn.2
    (playFrom_run (initial startup tornCalls) _) 0 0 _ tornPrinted rfl
  have hnone : ∀ c' ∈ torn.2 :: torn.1, ¬ ∀ p ∈ tornPrinted, p.HeldBy c'.shared.registry := by
    decide
  exact hnone c' hc' hheld

end ServiceSystem.Metrics
