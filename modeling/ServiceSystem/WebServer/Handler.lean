import ServiceSystem.Database.Methods
import ServiceSystem.Foundations.Json
import ServiceSystem.Logging.Logger
import ServiceSystem.Metrics.Updates

namespace ServiceSystem.WebServer

open Foundations Metrics

/-- What the handlers rely on: the JSON parser, which accepts no string that is not valid
UTF-8, the traversal of an `unordered_map`, and the files that can be opened. -/
class Platform where
  parse : Str → Except Str Json
  parse_valid : ∀ {text : Str} {j : Json}, parse text = .ok j → j.Valid
  order : IterationOrder
  readFile : Str → Option Str

class DatabaseApi (δ : Type) where
  testConnection : δ → Except Str Bool × δ
  getAllDevices : δ → Except Str (List Database.Device) × δ
  getAllServiceTypes : δ → Except Str (List Database.ServiceType) × δ
  getDetailedServiceHistory : δ → Except Str Json × δ
  addServiceRecord : Database.ServiceRecord → δ → Except Str Bool × δ
  getAllServiceRecords : δ → Except Str (List Database.ServiceRecord) × δ

inductive Event
  | log (call : Logging.LogCall)
  | metric (call : Metrics.Call)
  deriving DecidableEq

structure World (δ : Type) where
  db : δ
  metrics : MetricsRegistry
  events : List Event

section World

variable [Platform] {δ : Type}

namespace Event

def apply (m : MetricsRegistry) : Event → MetricsRegistry
  | log _ => m
  | metric call => perform Platform.order m call

def names : Event → List SeriesKey
  | log _ => []
  | metric call => call.names

end Event

namespace World

def withDb (w : World δ) (db : δ) : World δ := { w with db := db }

def after (w : World δ) (es : List Event) : World δ :=
  { w with metrics := es.foldl Event.apply w.metrics, events := w.events ++ es }

omit [Platform] in
@[simp] theorem withDb_db (w : World δ) (db : δ) : (w.withDb db).db = db := rfl

omit [Platform] in
@[simp] theorem withDb_metrics (w : World δ) (db : δ) : (w.withDb db).metrics = w.metrics := rfl

omit [Platform] in
@[simp] theorem withDb_events (w : World δ) (db : δ) : (w.withDb db).events = w.events := rfl

@[simp] theorem after_db (w : World δ) (es : List Event) : (w.after es).db = w.db := rfl

@[simp] theorem after_events (w : World δ) (es : List Event) :
    (w.after es).events = w.events ++ es := rfl

@[simp] theorem after_nil (w : World δ) : w.after [] = w := by
  simp [after]

@[simp] theorem after_withDb (w : World δ) (es : List Event) (db : δ) :
    (w.after es).withDb db = (w.withDb db).after es := rfl

omit [Platform] in
@[simp] theorem withDb_withDb (w : World δ) (db db' : δ) :
    (w.withDb db).withDb db' = w.withDb db' :=
  rfl

@[simp] theorem after_after (w : World δ) (es es' : List Event) :
    (w.after es).after es' = w.after (es ++ es') := by
  simp [after]

theorem after_level (w : World δ) (es : List Event) (s : SeriesKey) :
    (w.after es).metrics.counters.level Counter.value s =
      w.metrics.counters.level Counter.value s + (es.flatMap Event.names).countP (· = s) := by
  obtain ⟨db, m, events⟩ := w
  simp only [after]
  induction es generalizing m with
  | nil => rfl
  | cons e es ih =>
    rw [List.foldl_cons, ih, List.flatMap_cons, List.countP_append, ← Nat.add_assoc]
    cases e with
    | log call => rfl
    | metric call => rw [Event.apply, perform_level, Event.names]

end World

end World

/-- A handler, whose exceptions leave what it has done before as it is. -/
def Handler (δ α : Type) : Type := World δ → Except Str α × World δ

namespace Handler

variable {δ α β : Type}

instance : Monad (Handler δ) where
  pure a := fun w ↦ (.ok a, w)
  bind p f := fun w ↦ match p w with
    | (.ok a, w) => f a w
    | (.error e, w) => (.error e, w)

instance : MonadExceptOf Str (Handler δ) where
  throw e := fun w ↦ (.error e, w)
  tryCatch p handler := fun w ↦ match p w with
    | (.ok a, w) => (.ok a, w)
    | (.error e, w) => handler e w

@[simp] theorem pure_apply (a : α) (w : World δ) : (pure a : Handler δ α) w = (.ok a, w) := rfl

@[simp] theorem bind_apply (p : Handler δ α) (f : α → Handler δ β) (w : World δ) :
    (p >>= f) w = match p w with
      | (.ok a, w) => f a w
      | (.error e, w) => (.error e, w) := rfl

@[simp] theorem tryCatch_apply (p : Handler δ α) (handler : Str → Handler δ α) (w : World δ) :
    (tryCatch p handler) w = match p w with
      | (.ok a, w) => (.ok a, w)
      | (.error e, w) => handler e w := rfl

def attempt (x : Except Str α) : Handler δ α := fun w ↦ (x, w)

@[simp] theorem attempt_apply (x : Except Str α) (w : World δ) :
    (attempt x : Handler δ α) w = (x, w) := rfl

def database (method : δ → Except Str α × δ) : Handler δ α :=
  fun w ↦ ((method w.db).1, w.withDb (method w.db).2)

@[simp] theorem database_apply (method : δ → Except Str α × δ) (w : World δ) :
    database method w = ((method w.db).1, w.withDb (method w.db).2) := rfl

variable [Platform]

def emit (e : Event) : Handler δ Unit := fun w ↦ (.ok (), w.after [e])

@[simp] theorem emit_apply (e : Event) (w : World δ) : emit e w = (.ok (), w.after [e]) := rfl

def log (call : Logging.LogCall) : Handler δ Unit := emit (.log call)

@[simp] theorem log_apply (call : Logging.LogCall) (w : World δ) :
    log call w = (.ok (), w.after [.log call]) := rfl

def metric (call : Metrics.Call) : Handler δ Unit := emit (.metric call)

@[simp] theorem metric_apply (call : Metrics.Call) (w : World δ) :
    metric call w = (.ok (), w.after [.metric call]) := rfl

/-- All that a handler does is to call the database and to make calls that meet `Q`. -/
def Traced (Q : Event → Prop) (p : Handler δ α) : Prop :=
  ∀ w, ∃ db es, (p w).2 = (w.withDb db).after es ∧ ∀ e ∈ es, Q e

namespace Traced

variable {Q : Event → Prop} {p : Handler δ α} {f : α → Handler δ β} {x : Except Str α}

theorem mono {R : Event → Prop} (h : Traced Q p) (hqr : ∀ e, Q e → R e) : Traced R p := by
  intro w
  obtain ⟨db, es, hw, hes⟩ := h w
  exact ⟨db, es, hw, fun e he ↦ hqr e (hes e he)⟩

theorem idle {r : World δ → Except Str α} (h : ∀ w, p w = (r w, w)) : Traced Q p := by
  intro w
  refine ⟨w.db, [], ?_, by simp⟩
  rw [h, World.after_nil]
  rfl

theorem pure (a : α) : Traced Q (Pure.pure a : Handler δ α) := idle (fun _ ↦ rfl)

theorem attempt (x : Except Str α) : Traced Q (Handler.attempt x : Handler δ α) :=
  idle (fun _ ↦ rfl)

theorem database (method : δ → Except Str α × δ) : Traced Q (Handler.database method) :=
  fun w ↦ ⟨(method w.db).2, [], by simp, by simp⟩

theorem emit {e : Event} (h : Q e) : Traced Q (Handler.emit e : Handler δ Unit) :=
  fun w ↦ ⟨w.db, [e], rfl, by simpa using h⟩

theorem trans {w w' : World δ} {db : δ} {es : List Event} (hp : w' = (w.withDb db).after es)
    (hes : ∀ e ∈ es, Q e) {q : Handler δ β} (hq : Traced Q q) :
    ∃ db es, (q w').2 = (w.withDb db).after es ∧ ∀ e ∈ es, Q e := by
  obtain ⟨db', es', hw, hes'⟩ := hq w'
  refine ⟨db', es ++ es', ?_, List.forall_mem_append.mpr ⟨hes, hes'⟩⟩
  rw [hw, hp, World.after_withDb, World.withDb_withDb, World.after_after]

theorem bind (hp : Traced Q p) (hf : ∀ a, Traced Q (f a)) : Traced Q (p >>= f) := by
  intro w
  obtain ⟨db, es, hw, hes⟩ := hp w
  rw [bind_apply]
  rcases hr : p w with ⟨e | a, w'⟩
  · exact ⟨db, es, by rw [← hw, hr], hes⟩
  · exact trans (by rw [← hw, hr]) hes (hf a)

theorem attempt_bind (hf : ∀ a, x = .ok a → Traced Q (f a)) :
    Traced Q (Handler.attempt x >>= f) := by
  cases x with
  | error e => exact idle (r := fun _ ↦ .error e) (fun _ ↦ rfl)
  | ok a => exact hf a rfl

theorem tryCatch {handler : Str → Handler δ α} (hp : Traced Q p) (hh : ∀ e, Traced Q (handler e)) :
    Traced Q (tryCatch p handler) := by
  intro w
  obtain ⟨db, es, hw, hes⟩ := hp w
  rw [tryCatch_apply]
  rcases hr : p w with ⟨e | a, w'⟩
  · exact trans (by rw [← hw, hr]) hes (hh e)
  · exact ⟨db, es, by rw [← hw, hr], hes⟩

end Traced

end Handler

structure Request where
  remote_ip_address : Str
  body : Str
  deriving DecidableEq

/-- The clock during a request: how long it has taken, and the time. -/
structure Clock where
  duration_ms : ℤ
  time : ℤ

/-- A body is a text, or the text that `dump` gives for a value. -/
inductive Body
  | text (s : Str)
  | json (j : Json)

structure Response where
  code : ℤ
  headers : List (Str × Str)
  body : Body

namespace Response

/-- `crow::response`, whose code is 200 when none is given. -/
def new (code : ℤ) : Response := ⟨code, [], .text []⟩

def set_header (res : Response) (key value : Str) : Response :=
  { res with headers := res.headers.filter (·.1 ≠ key) ++ [(key, value)] }

def json (code : ℤ) (j : Json) : Response :=
  { ((new code).set_header "Content-Type".toList "application/json; charset=utf-8".toList).set_header
      "Access-Control-Allow-Origin".toList "*".toList with body := .json j }

end Response

def respond {δ : Type} (code : ℤ) (j : Json) : Handler δ Response := do
  Handler.attempt j.dump
  return .json code j

@[simp] theorem respond_apply {δ : Type} (code : ℤ) (j : Json) (w : World δ) :
    respond code j w = (j.dump.map (fun _ ↦ .json code j), w) := by
  simp only [respond, Handler.bind_apply, Handler.attempt_apply]
  cases j.dump <;> rfl

theorem respond_snd {δ : Type} (code : ℤ) (j : Json) (w : World δ) : (respond code j w).2 = w := by
  rw [respond_apply]

theorem respond_traced [Platform] {δ : Type} {Q : Event → Prop} (code : ℤ) (j : Json) :
    Handler.Traced Q (respond code j : Handler δ Response) :=
  Handler.Traced.idle (respond_apply code j)

theorem respond_ok {δ : Type} {code : ℤ} {j : Json} {w : World δ} {res : Response}
    (h : (respond code j w).1 = .ok res) : j.Valid ∧ res = .json code j := by
  rw [respond_apply] at h
  cases hd : j.dump with
  | error e =>
    rw [hd] at h
    cases h
  | ok =>
    rw [hd] at h
    exact ⟨Json.dump_eq_ok.mp hd, (Except.ok.inj h).symm⟩

theorem respond_valid {δ : Type} {code : ℤ} {j : Json} (h : j.Valid) (w : World δ) :
    respond code j w = (.ok (.json code j), w) := by
  rw [respond_apply, Json.dump_eq_ok.mpr h]
  rfl

end ServiceSystem.WebServer
