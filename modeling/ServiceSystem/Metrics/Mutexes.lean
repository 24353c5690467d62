import ServiceSystem.Foundations.Locks
import ServiceSystem.Metrics.Operations
import Mathlib.Data.Fintype.EquivFin

namespace ServiceSystem.Metrics.Mutexes

open Foundations Program Interleaving Locks

/-- A Counter or a Histogram: a series of the registry, one that threads share besides, or one
that a call has constructed for itself. -/
inductive Object (ω : Type)
  | counter (s : SeriesKey)
  | histogram (s : SeriesKey)
  | shared (o : ω)
  | fresh (n : ℕ)
  deriving DecidableEq

inductive Mutex (ω : Type)
  | registry
  | object (this : Object ω)
  deriving DecidableEq

/-- What a call reads or writes between the mutexes it takes. The values that these protect
decide nothing about the mutexes, and are left out. -/
inductive Access
  | initialized
  | initializeMetrics
  | hasCounter (s : SeriesKey)
  | hasHistogram (s : SeriesKey)
  | getCounter (name help : Str) (labels : Labels)
  | getHistogram (name help : Str) (buckets : List ℚ) (labels : Labels)
  | layout
  | construct

namespace Access

abbrev Result : Access → Type
  | initialized | hasCounter _ | hasHistogram _ => Bool
  | initializeMetrics => Unit
  | getCounter .. | getHistogram .. => SeriesKey
  | layout => List Item
  | construct => ℕ

/-- The registry, and the number of the objects that calls have constructed for themselves. -/
structure Data where
  registry : MetricsRegistry
  constructed : ℕ

def behaviour (order : IterationOrder) : ∀ a : Access, Data → a.Result × Data
  | initialized, d => (d.registry.initialized, d)
  | initializeMetrics, d => ((), { d with registry := d.registry.initializeMetrics })
  | hasCounter s, d => ((d.registry.counters.get s).isSome, d)
  | hasHistogram s, d => ((d.registry.histograms.get s).isSome, d)
  | getCounter name help labels, d =>
    ((d.registry.getCounter name help labels).1,
      { d with registry := (d.registry.getCounter name help labels).2 })
  | getHistogram name help buckets labels, d =>
    ((d.registry.getHistogram name help buckets labels).1,
      { d with registry := (d.registry.getHistogram name help buckets labels).2 })
  | layout, d => (Metrics.layout order d.registry, d)
  | construct, d => (d.constructed, { d with constructed := d.constructed + 1 })

end Access

abbrev Locking (ω ρ : Type) : Type :=
  Program (Locks.Op (Mutex ω) Access) (Locks.Ans Access.Result) ρ

variable {ω : Type} [DecidableEq ω]

namespace Object

/-- A member that locks the mutex of one object for all it does. -/
def locking (this : Object ω) : Locking ω Unit := guarded (.object this) (pure ())

def increment (this : Object ω) : Locking ω Unit := locking this
def observe (this : Object ω) : Locking ω Unit := locking this
def value (this : Object ω) : Locking ω Unit := locking this
def sum (this : Object ω) : Locking ω Unit := locking this
def count (this : Object ω) : Locking ω Unit := locking this
def format (this : Object ω) : Locking ω Unit := locking this
def copyConstruct (other : Object ω) : Locking ω Unit := locking other
def moveConstruct (other : Object ω) : Locking ω Unit := locking other

/-- The assignment operators: `lock1` is on the mutex of `*this`, `lock2` on the other. -/
def assign (this other : Object ω) : Locking ω Unit :=
  if this = other then pure ()
  else guarded (.object this) (guarded (.object other) (pure ()))

def copyAssign (this other : Object ω) : Locking ω Unit := assign this other
def moveAssign (this other : Object ω) : Locking ω Unit := assign this other

end Object

def access (a : Access) : Locking ω a.Result := act a

/-- `emplace` of an object constructed just before, which it is moved from. -/
def emplace : Locking ω Unit := access .construct >>= fun n ↦ Object.moveConstruct (.fresh n)

def emplaceEach {α : Type} : List α → Locking ω Unit
  | [] => pure ()
  | _ :: items => emplace >>= fun _ ↦ emplaceEach items

/-- The flag is read without the mutex first, and then under it. -/
def initializeMetrics : Locking ω Unit := do
  let initialized ← access .initialized
  if initialized then pure () else guarded .registry do
    let initialized ← access .initialized
    if initialized then pure () else do
      emplaceEach MetricsRegistry.expectedLabels
      emplace
      emplace
      access .initializeMetrics

def getCounter (name help : Str) (labels : Labels) : Locking ω SeriesKey :=
  guarded .registry do
    let found ← access (.hasCounter ⟨name, labels⟩)
    (if found then pure () else emplace)
    access (.getCounter name help labels)

def getHistogram (name help : Str) (buckets : List ℚ) (labels : Labels) : Locking ω SeriesKey :=
  guarded .registry do
    let found ← access (.hasHistogram ⟨name, labels⟩)
    (if found then pure () else emplace)
    access (.getHistogram name help buckets labels)

def formatItems : List Item → Locking ω Unit
  | [] => pure ()
  | .typeHelp _ :: items => formatItems items
  | .counter s :: items => Object.format (.counter s) >>= fun _ ↦ formatItems items
  | .histogram s :: items => Object.format (.histogram s) >>= fun _ ↦ formatItems items

def format : Locking ω Unit := guarded .registry (access .layout >>= formatItems)

def recordHttpRequest (method path : Str) (status : ℤ) : Locking ω Unit := do
  let counter ← getCounter MetricsRegistry.httpRequests MetricsRegistry.httpRequestsHelp
    (MetricsRegistry.httpLabels method path (Str.ofInt status))
  Object.increment (.counter counter)
  let histogram ← getHistogram MetricsRegistry.httpDuration MetricsRegistry.httpDurationHelp
    MetricsRegistry.durationBuckets .empty
  Object.observe (.histogram histogram)

def recordDbOperation (operation : Str) (success : Bool) : Locking ω Unit := do
  let counter ← getCounter dbOperations "Total number of database operations".toList
    (dbLabels operation success)
  Object.increment (.counter counter)

def recordAuthAttempt (username : Str) (success : Bool) : Locking ω Unit := do
  let counter ← getCounter MetricsRegistry.authAttempts
    "Total number of authentication attempts".toList (authLabels username success)
  Object.increment (.counter counter)
  if success then pure () else do
    let failCounter ← getCounter MetricsRegistry.authFailures MetricsRegistry.authFailuresHelp
      .empty
    Object.increment (.counter failCounter)

def recordDeviceOperation (operation : Str) (device_id : ℤ) (success : Bool) : Locking ω Unit := do
  let counter ← getCounter deviceOperations "Total number of device operations".toList
    (deviceLabels operation device_id success)
  Object.increment (.counter counter)

def recordServiceOperation (operation : Str) (record_id : ℤ) (success : Bool) :
    Locking ω Unit := do
  let counter ← getCounter serviceOperations "Total number of service operations".toList
    (serviceLabels operation record_id success)
  Object.increment (.counter counter)

/-- What a thread can do with the objects and with the registry. -/
inductive Call (ω : Type)
  | increment (this : Object ω)
  | observe (this : Object ω)
  | value (this : Object ω)
  | sum (this : Object ω)
  | count (this : Object ω)
  | formatObject (this : Object ω)
  | copyConstruct (other : Object ω)
  | moveConstruct (other : Object ω)
  | copyAssign (this other : Object ω)
  | moveAssign (this other : Object ω)
  | getCounter (name help : Str) (labels : Labels)
  | getHistogram (name help : Str) (buckets : List ℚ) (labels : Labels)
  | initializeMetrics
  | format
  | recordHttpRequest (method path : Str) (status : ℤ)
  | recordDbOperation (operation : Str) (success : Bool)
  | recordAuthAttempt (username : Str) (success : Bool)
  | recordDeviceOperation (operation : Str) (device_id : ℤ) (success : Bool)
  | recordServiceOperation (operation : Str) (record_id : ℤ) (success : Bool)

def code : Call ω → Locking ω Unit
  | .increment this => this.increment
  | .observe this => this.observe
  | .value this => this.value
  | .sum this => this.sum
  | .count this => this.count
  | .formatObject this => this.format
  | .copyConstruct other => other.copyConstruct
  | .moveConstruct other => other.moveConstruct
  | .copyAssign this other => this.copyAssign other
  | .moveAssign this other => this.moveAssign other
  | .getCounter name help labels => getCounter name help labels >>= fun _ ↦ pure ()
  | .getHistogram name help buckets labels =>
    getHistogram name help buckets labels >>= fun _ ↦ pure ()
  | .initializeMetrics => initializeMetrics
  | .format => format
  | .recordHttpRequest method path status => recordHttpRequest method path status
  | .recordDbOperation operation success => recordDbOperation operation success
  | .recordAuthAttempt username success => recordAuthAttempt username success
  | .recordDeviceOperation operation device_id success =>
    recordDeviceOperation operation device_id success
  | .recordServiceOperation operation record_id success =>
    recordServiceOperation operation record_id success

def system (order : IterationOrder) : System (Call ω) (Locks.Op (Mutex ω) Access)
    (Locks.Ans Access.Result) Unit (Locks.State (Mutex ω) Access.Data) :=
  Locks.system code (Access.behaviour order)

instance (order : IterationOrder) (op : Locks.Op (Mutex ω) Access)
    (s : Locks.State (Mutex ω) Access.Data) : Decidable ((system order).ready op s) :=
  inferInstanceAs (Decidable (Locks.ready op s))

/-- The object assigned to and the one assigned from. -/
def Call.assignment : Call ω → Option (Object ω × Object ω)
  | .copyAssign this other | .moveAssign this other => some (this, other)
  | _ => none

section Order

variable {r : Mutex ω → Mutex ω → Prop}

theorem access_orderly (held : List (Mutex ω)) (a : Access) : Orderly r held held (access a) :=
  .act a

theorem locking_orderly (this : Object ω) : Orderly r [] [] this.locking := .guarded_alone rfl

variable (hr : ∀ this, r .registry (.object this))
include hr

theorem locking_registry (this : Object ω) : Orderly r [.registry] [.registry] this.locking :=
  .guarded_within (hr this) rfl

theorem emplace_orderly : Orderly r [.registry] [.registry] (emplace : Locking ω Unit) :=
  (access_orderly _ _).bind fun n ↦ locking_registry hr (.fresh n)

theorem emplaceEach_orderly {α : Type} (items : List α) :
    Orderly r [.registry] [.registry] (emplaceEach items : Locking ω Unit) := by
  induction items with
  | nil => rfl
  | cons _ items ih => exact (emplace_orderly hr).bind fun _ ↦ ih

theorem formatItems_orderly (items : List Item) :
    Orderly r [.registry] [.registry] (formatItems items : Locking ω Unit) := by
  induction items with
  | nil => rfl
  | cons item items ih =>
    cases item with
    | typeHelp text => exact ih
    | counter s => exact (locking_registry hr (.counter s)).bind fun _ ↦ ih
    | histogram s => exact (locking_registry hr (.histogram s)).bind fun _ ↦ ih

theorem emplaceUnless_orderly (found : Bool) : Orderly r [.registry] [.registry]
    (if found then pure () else emplace : Locking ω Unit) := by
  cases found with
  | false => exact emplace_orderly hr
  | true => rfl

theorem getCounter_orderly (name help : Str) (labels : Labels) :
    Orderly r [] [] (getCounter name help labels : Locking ω SeriesKey) :=
  .guarded_alone <| (access_orderly _ _).bind fun found ↦
    (emplaceUnless_orderly hr found).bind fun _ ↦ access_orderly _ _

theorem getHistogram_orderly (name help : Str) (buckets : List ℚ) (labels : Labels) :
    Orderly r [] [] (getHistogram name help buckets labels : Locking ω SeriesKey) :=
  .guarded_alone <| (access_orderly _ _).bind fun found ↦
    (emplaceUnless_orderly hr found).bind fun _ ↦ access_orderly _ _

theorem initializeMetrics_orderly : Orderly r [] [] (initializeMetrics : Locking ω Unit) := by
  refine (access_orderly _ _).bind fun initialized ↦ ?_
  cases initialized with
  | true => rfl
  | false =>
    refine .guarded_alone ((access_orderly _ _).bind fun initialized ↦ ?_)
    cases initialized with
    | true => rfl
    | false =>
      exact (emplaceEach_orderly hr _).bind fun _ ↦ (emplace_orderly hr).bind fun _ ↦
        (emplace_orderly hr).bind fun _ ↦ access_orderly _ _

theorem format_orderly : Orderly r [] [] (format : Locking ω Unit) :=
  .guarded_alone ((access_orderly _ _).bind fun items ↦ formatItems_orderly hr items)

omit hr in
theorem assign_orderly {this other : Object ω} (h : r (.object this) (.object other)) :
    Orderly r [] [] (this.assign other) := by
  unfold Object.assign
  split_ifs
  · rfl
  · exact .guarded_alone (.guarded_within h rfl)

theorem count_orderly (name help : Str) (labels : Labels) :
    Orderly r [] [] (getCounter name help labels >>= fun s ↦ (Object.counter s).increment) :=
  (getCounter_orderly hr name help labels).bind fun _ ↦ locking_orderly _

theorem code_orderly {j : Call ω}
    (ha : ∀ this other, j.assignment = some (this, other) → r (.object this) (.object other)) :
    Orderly r [] [] (code j) := by
  cases j with
  | copyAssign this other | moveAssign this other => exact assign_orderly (ha this other rfl)
  | getCounter name help labels =>
    exact (getCounter_orderly hr name help labels).bind fun _ ↦ rfl
  | getHistogram name help buckets labels =>
    exact (getHistogram_orderly hr name help buckets labels).bind fun _ ↦ rfl
  | initializeMetrics => exact initializeMetrics_orderly hr
  | format => exact format_orderly hr
  | recordHttpRequest method path status =>
    exact (getCounter_orderly hr _ _ _).bind fun _ ↦ (locking_orderly _).bind fun _ ↦
      (getHistogram_orderly hr _ _ _ _).bind fun _ ↦ locking_orderly _
  | recordAuthAttempt username success =>
    refine (getCounter_orderly hr _ _ _).bind fun _ ↦ (locking_orderly _).bind fun _ ↦ ?_
    cases success with
    | true => rfl
    | false => exact count_orderly hr _ _ _
  | recordDbOperation | recordDeviceOperation | recordServiceOperation =>
    exact count_orderly hr _ _ _
  | _ => exact locking_orderly _

end Order

/-- The operations of an assignment. -/
def assignOps (this other : Object ω) : List (Locks.Op (Mutex ω) Access) :=
  if this = other then []
  else [.lock (.object this), .lock (.object other), .unlock (.object other),
    .unlock (.object this)]

theorem assignOps_nodup (this other : Object ω) : (assignOps this other).Nodup := by
  unfold assignOps
  split_ifs with h
  · exact List.nodup_nil
  · simp [h, Ne.symm h]

theorem code_straight (order : IterationOrder) {j : Call ω} {this other : Object ω}
    (h : j.assignment = some (this, other)) :
    Straight (Locks.exec (Access.behaviour order)) (code j) (assignOps this other) := by
  have hassign : code j = this.assign other := by
    cases j with
    | copyAssign | moveAssign =>
      cases h
      rfl
    | _ => cases h
  rw [hassign, Object.assign, assignOps]
  split_ifs
  · rfl
  · exact ⟨_, rfl, fun _ ↦ ⟨_, rfl, fun _ ↦ ⟨_, rfl, fun _ ↦ ⟨_, rfl, fun _ ↦ rfl⟩⟩⟩⟩

abbrev Threads (ι ω : Type) : Type :=
  Config ι (Call ω) (Locks.Op (Mutex ω) Access) (Locks.Ans Access.Result) Unit
    (Locks.State (Mutex ω) Access.Data)

variable {ι : Type}

/-- An assignment between two objects is under way, and has yet to lock the one it is from. -/
def Pending (c : Threads ι ω) (this other : Object ω) : Prop :=
  this ≠ other ∧ ∃ i j es p, (c.thread i).current = some (j, es, p) ∧
    j.assignment = some (this, other) ∧ ∀ e ∈ es, e.1 ≠ .lock (.object other)

/-- Thread `i` does not begin an assignment from whose source a chain of others, each of which
has yet to lock its source, leads back to what is assigned to. -/
def NoLoop (c : Threads ι ω) (i : ι) : Prop :=
  ∀ j js done this other, c.thread i = ⟨j :: js, none, done⟩ →
    j.assignment = some (this, other) → ¬ Relation.TransGen (Pending c) other this

variable [DecidableEq ι] {order : IterationOrder} {d : Access.Data} {calls : ι → List (Call ω)}
  {c : Threads ι ω} {P : Threads ι ω → ι → Prop}

theorem nested_cases (h : Reaches (system order) P (initial (start d) calls) c)
    {m m' : Mutex ω} (hn : Nested c m m') : m = .registry ∧ m' ≠ .registry ∨
      ∃ this other, m = .object this ∧ m' = .object other ∧ Pending c this other := by
  obtain ⟨i, hheld, hwants⟩ := hn
  rcases hcurrent : (c.thread i).current with - | ⟨j, es, p⟩
  · simp [wants, hcurrent] at hwants
  · have hafter := (fits h i).current j es p hcurrent
    simp only [holding, wants, hcurrent, Option.elim_some] at hheld hwants
    cases p with
    | ret u => cases hwants
    | call op k =>
      cases op with
      | unlock | act => cases hwants
      | lock m₀ =>
        obtain rfl : m₀ = m' := Option.some.inj hwants
        let r (m m' : Mutex ω) : Prop := m = .registry ∧ m' ≠ .registry ∨ ∃ this other,
          j.assignment = some (this, other) ∧ m = .object this ∧ m' = .object other
        have horderly : Orderly r [] (heldAfter es) (.call (.lock m₀) k) :=
          .after hafter (code_orderly (fun this ↦ .inl ⟨rfl, fun h ↦ (by cases h)⟩)
            fun this other ha ↦ .inr ⟨this, other, ha, rfl, rfl⟩)
        rcases horderly.1 m₀ rfl m hheld with hm | ⟨this, other, ha, rfl, rfl⟩
        · exact .inl hm
        · obtain ⟨ops, hops, rest, rfl, -⟩ := hafter.straight (code_straight order ha)
          have hnodup := assignOps_nodup this other
          rw [hops] at hnodup
          refine .inr ⟨this, other, rfl, rfl, ?_, i, j, es, _, hcurrent, ha, fun e he heq ↦ ?_⟩
          · rintro rfl
            simp [assignOps] at hops
          · exact (List.disjoint_of_nodup_append hnodup) (List.mem_map_of_mem he) (by simp [heq])

theorem pending_step {i : ι} {c' : Threads ι ω} (hs : Step (system order) c i c')
    {this other : Object ω} (h : Pending c' this other) : Pending c this other ∨
      ∃ j js done, c.thread i = ⟨j :: js, none, done⟩ ∧ j.assignment = some (this, other) := by
  obtain ⟨hne, k, j, es, p, hc, ha, hes⟩ := h
  by_cases hk : k = i
  · subst hk
    cases hs with
    | begin h =>
      rw [update_self] at hc
      cases hc
      exact .inr ⟨_, _, _, h, ha⟩
    | take h hr =>
      rw [update_self] at hc
      cases hc
      exact .inl ⟨hne, k, _, _, _, by rw [h], ha, fun e he ↦ hes e (List.mem_append_left _ he)⟩
    | finish h =>
      rw [update_self] at hc
      cases hc
  · refine .inl ⟨hne, k, j, es, p, ?_, ha, hes⟩
    cases hs <;> simpa [hk] using hc

theorem pending_acyclic (h : Reaches (system order) NoLoop (initial (start d) calls) c)
    (this : Object ω) : ¬ Relation.TransGen (Pending c) this this := by
  refine h.invariant (I := fun c ↦ ∀ x, ¬ Relation.TransGen (Pending c) x x) ?_ ?_ this
  · intro x hx
    obtain ⟨y, ⟨-, i, j, es, p, hc, -⟩, -⟩ := Relation.TransGen.head'_iff.mp hx
    cases hc
  · intro c i c' _ ih hP hs
    by_cases hb : ∃ j js done this other, c.thread i = ⟨j :: js, none, done⟩ ∧
        j.assignment = some (this, other) ∧ this ≠ other
    · obtain ⟨j, js, done, a, b, hi, ha, hab⟩ := hb
      refine acyclic_of_new_edge ih (a := a) (b := b) (fun x y hxy ↦ ?_) fun hback ↦ ?_
      · refine (pending_step hs hxy).imp_right ?_
        rintro ⟨j', js', done', hi', ha'⟩
        cases hi.symm.trans hi'
        cases ha.symm.trans ha'
        exact ⟨rfl, rfl⟩
      · rcases Relation.reflTransGen_iff_eq_or_transGen.mp hback with heq | hpath
        · exact hab heq
        · exact hP j js done a b hi ha hpath
    · intro x hx
      refine ih x (Relation.TransGen.mono (fun y z hyz ↦ ?_) x x hx)
      refine (pending_step hs hyz).resolve_right ?_
      rintro ⟨j, js, done, hi, ha⟩
      exact hb ⟨j, js, done, y, z, hi, ha, hyz.1⟩

theorem nested_object (h : Reaches (system order) P (initial (start d) calls) c) {this : Object ω}
    {m : Mutex ω} (hn : Relation.TransGen (Nested c) (.object this) m) :
    ∃ other, m = .object other ∧ Relation.TransGen (Pending c) this other := by
  induction hn with
  | single hn =>
    rcases nested_cases h hn with ⟨hm, -⟩ | ⟨x, y, hx, rfl, hxy⟩
    · cases hm
    · cases hx
      exact ⟨y, rfl, .single hxy⟩
  | tail _ hn ih =>
    obtain ⟨other, rfl, hpath⟩ := ih
    rcases nested_cases h hn with ⟨hm, -⟩ | ⟨x, y, hx, rfl, hxy⟩
    · cases hm
    · cases hx
      exact ⟨y, rfl, hpath.tail hxy⟩

theorem nested_ne_registry (h : Reaches (system order) P (initial (start d) calls) c)
    {m m' : Mutex ω} (hn : Nested c m m') : m' ≠ .registry := by
  rcases nested_cases h hn with ⟨-, hm⟩ | ⟨x, y, -, rfl, -⟩
  · exact hm
  · exact fun h ↦ (by cases h)

theorem noLoop_not_deadlocked [Finite ι]
    (h : Reaches (system order) NoLoop (initial (start d) calls) c) : ¬ Deadlocked c := by
  refine not_deadlocked_of_acyclic fun m hm ↦ ?_
  cases m with
  | registry =>
    obtain ⟨m', -, hlast⟩ := Relation.TransGen.tail'_iff.mp hm
    exact nested_ne_registry h hlast rfl
  | object this =>
    obtain ⟨other, heq, hpath⟩ := nested_object h hm
    cases heq
    exact pending_acyclic h this hpath

/-- Threads that assign only upwards in some order never close a loop. -/
theorem reaches_noLoop (rank : Object ω → ℕ) (hrank : ∀ i, ∀ j ∈ calls i, ∀ this other,
      j.assignment = some (this, other) → this ≠ other → rank this < rank other)
    (h : Reaches (system order) anyStep (initial (start d) calls) c) :
    Reaches (system order) NoLoop (initial (start d) calls) c := by
  refine h.mono fun c i hc _ j js done this other hi ha hpath ↦ ?_
  have hpending {x y : Object ω} (hxy : Pending c x y) : rank x < rank y := by
    obtain ⟨hne, k, j, es, p, hk, ha, -⟩ := hxy
    refine hrank k j ?_ x y ha hne
    rw [← calls_kept hc k, Thread.calls, hk]
    simp
  have hlt {x y : Object ω} (hxy : Relation.TransGen (Pending c) x y) : rank x < rank y := by
    induction hxy with
    | single hxy => exact hpending hxy
    | tail _ hxy ih => exact ih.trans (hpending hxy)
  have hne : this ≠ other := by
    rintro rfl
    exact lt_irrefl _ (hlt hpath)
  refine lt_asymm (hlt hpath) (hrank i j ?_ this other ha hne)
  rw [← calls_kept hc i, Thread.calls, hi]
  simp

/-- Two threads that assign the one of two counters to the other. -/
def agreed (_ : Fin 2) : List (Call (Fin 2)) := [.copyAssign (.shared 0) (.shared 1)]

def agreedRun : Threads (Fin 2) (Fin 2) :=
  (playFrom (system .sorted) anyStep (initial (start ⟨.empty, 0⟩) agreed) [0, 1, 0, 0, 1]).2

theorem noLoop_not_deadlocked_agreed : wants (agreedRun.thread 1) = some (.object (.shared 0)) ∧
    ¬ Deadlocked agreedRun := by
  let rank : Object (Fin 2) → ℕ
    | .shared o => o.val
    | _ => 0
  have hreach : Reaches (system .sorted) NoLoop (initial (start ⟨.empty, 0⟩) agreed) agreedRun := by
    refine reaches_noLoop rank ?_ ⟨_, playFrom_run _ [0, 1, 0, 0, 1]⟩
    simp only [agreed, List.mem_singleton]
    rintro i j rfl this other h -
    cases h
    decide
  exact ⟨by decide, noLoop_not_deadlocked hreach⟩

/-- Two threads that assign two counters to each other. -/
def crossed (i : Fin 2) : List (Call (Fin 2)) := [.copyAssign (.shared i) (.shared (1 - i))]

theorem crossed_deadlocked : ¬ ∀ (ω : Type) (_ : DecidableEq ω) (ι : Type) (_ : DecidableEq ι)
    (_ : Finite ι) (order : IterationOrder) (d : Access.Data) (calls : ι → List (Call ω))
    (c : Threads ι ω), Reaches (system order) anyStep (initial (start d) calls) c →
      ¬ Deadlocked c := by
  intro h
  let c : Threads (Fin 2) (Fin 2) := (playFrom (system .sorted) anyStep
    (initial (start ⟨.empty, 0⟩) crossed) [0, 1, 0, 1]).2
  have hwaits : ∀ i : Fin 2, wants (c.thread i) = some (.object (.shared (1 - i))) ∧
      .object (.shared (1 - i)) ∈ holding (c.thread (1 - i)) := by decide
  exact h (Fin 2) _ (Fin 2) _ inferInstance .sorted ⟨.empty, 0⟩ crossed c
    ⟨_, playFrom_run _ [0, 1, 0, 1]⟩
    ⟨Set.univ, ⟨0, trivial⟩, fun i _ ↦ ⟨1 - i, trivial, _, hwaits i⟩⟩

end ServiceSystem.Metrics.Mutexes
