import ServiceSystem.Database.Isolation
import ServiceSystem.Foundations.Pointers
import ServiceSystem.WebServer.Backend
import ServiceSystem.WebServer.Config
import ServiceSystem.WebServer.Footprint

namespace ServiceSystem.WebServer

open Foundations Database Program Interleaving Handler

/-- What `setupRoutes` can register with the application. -/
inductive Rule
  | metrics
  | index
  | static
  | api (route : ApiRoute)
  deriving DecidableEq

/-- The rules in the order in which they are registered. -/
def allRules : List Rule :=
  [.metrics, .index, .static, .api .testDb, .api .login, .api .logout, .api .getDevices,
    .api .createDevice, .api .getServiceTypes, .api .getServiceHistory, .api .createServiceRecord,
    .api .getServiceRecords]

def Route.rule : Route → Rule
  | metrics => .metrics
  | index => .index
  | static _ => .static
  | api route => .api route

section

variable [Postgres]

/-- An object of the class `Database`. -/
structure DatabaseObject where
  conn : UniquePtr Connection

namespace DatabaseObject

/-- The constructor keeps to itself what opening the connection throws. -/
def new (opening : Str → Except Str Connection) (conn_str : Str) : DatabaseObject :=
  match opening conn_str with
  | .ok c =>
    let conn := UniquePtr.null.reset c
    ⟨(conn.deref false fun c ↦ (c.is_open, c)).2⟩
  | .error _ => ⟨.null⟩

def connect (d : DatabaseObject) : Bool × DatabaseObject :=
  if d.conn.target.isSome then
    let (is_open, conn) := d.conn.deref false fun c ↦ (c.is_open, c)
    (is_open, ⟨conn⟩)
  else (false, d)

end DatabaseObject

/-- The members of `WebServer`: the database, the port and the rules of the application. What
goes wrong in each of the coming operations on the connection stands beside them. -/
structure Server where
  db : UniquePtr DatabaseObject
  port : ℤ
  rules : List Rule
  faults : List Faults

/-- What an operation on no connection is taken to answer. -/
def strayAnswer : ∀ op : Op, Ans op
  | .work => .error .broken_connection
  | .exec .. => .error .broken_connection
  | .exec_params .. => .error .broken_connection
  | .commit w => (.error .broken_connection, w)
  | .destroy _ => ()

namespace Server

/-- The server as its constructor finds it. -/
def initial (faults : List Faults) : Server := ⟨.null, 8080, [], faults⟩

/-- An operation of a method, which reaches the connection through `db` and `conn`. -/
def exec (op : Op) (s : Server) : Ans op × Server :=
  let (answer, db) := s.db.deref (strayAnswer op) fun d ↦
    let (answer, conn) := d.conn.deref (strayAnswer op) fun c ↦
      Database.exec op { c with faults := s.faults.headD .healthy }
    (answer, ⟨conn⟩)
  (answer, { s with db := db, faults := s.faults.tail })

def call {α : Type} (method : Program Op Ans (Outcome α)) (s : Server) : Except Str α × Server :=
  let (outcome, s) := method.run exec s
  (.ok outcome.value, s)

instance : DatabaseApi Server where
  testConnection := call Database.testConnection
  getAllDevices := call Database.getAllDevices
  getAllServiceTypes := call Database.getAllServiceTypes
  getDetailedServiceHistory s :=
    let (records, s) := call Database.getDetailedServiceHistory s
    (records.map (fun records ↦ .array (records.map detailedRecordJson)), s)
  addServiceRecord record := call (Database.addServiceRecord record)
  getAllServiceRecords := call Database.getAllServiceRecords

def connect (s : Server) : Except Str Bool × Server :=
  let (connected, db) := s.db.deref false DatabaseObject.connect
  (.ok connected, { s with db := db })

def assignDb (d : DatabaseObject) (s : Server) : Except Str Unit × Server :=
  (.ok (), { s with db := s.db.reset d })

def assignPort (port : ℤ) (s : Server) : Except Str Unit × Server :=
  (.ok (), { s with port := port })

def setupRoutes (s : Server) : Except Str Unit × Server :=
  (.ok (), { s with rules := s.rules ++ allRules })

end Server

/-- What the start depends on: the file with its content if it can be opened, what the
extraction of a value from it gives, and what opening a connection does. -/
structure Surroundings where
  config_file : Str
  content : Option Str
  extract : Str → Except Str Json
  opening : Str → Except Str Connection

variable [Platform]

def configure (env : Surroundings) (content : Str) : Handler Server Unit := do
  let config ← attempt (env.extract content)
  let conn_str ← attempt (connStr config)
  log (.inContext .INFO "Connecting to database...".toList webserver)
  database (Server.assignDb (.new env.opening conn_str))
  let connected ← database Server.connect
  if !connected then do
    log (.inContext .ERROR "Failed to connect to database".toList webserver)
    log (.logDatabase "connect".toList false "Connection failed".toList)
  else do
    log (.inContext .INFO "Connected to database successfully".toList webserver)
    log (.logDatabase "connect".toList true "Database connection established".toList)
    let port ← attempt (config.get "server".toList >>= (·.get "port".toList) >>= Json.get_int)
    database (Server.assignPort port)
    log (.inContext .INFO ("Server configured for port: ".toList ++ Str.ofInt port) webserver)
    metric .initializeMetrics
    log (.inContext .INFO "Prometheus metrics initialized".toList webserver)
    database Server.setupRoutes
    log (.inContext .INFO "Routes configured successfully".toList webserver)

/-- The constructor of `WebServer`. -/
def construct (env : Surroundings) : Handler Server Unit := do
  log (.logLifecycle "startup".toList "WebServer constructor started".toList)
  log (.inContext .INFO "WebServer constructor started with Loki integration".toList webserver)
  match env.content with
  | none =>
    log (.inContext .ERROR ("Cannot open config file: ".toList ++ env.config_file) webserver)
  | some content => do
    log (.inContext .INFO ("Config file opened: ".toList ++ env.config_file) webserver)
    tryCatch (configure env content) fun what ↦
      log (.inContext .ERROR ("Config error: ".toList ++ what) webserver)

/-- What `run` does before the application starts to answer. -/
def run : Handler Server Unit := metric .initializeMetrics

def main (env : Surroundings) : Handler Server ℤ :=
  tryCatch (do construct env; run; return 0) fun _ ↦ return 1

namespace Server

/-- No null pointer has been dereferenced. -/
def Untrapped (s : Server) : Prop :=
  s.db.trapped = false ∧ ∀ d, s.db.target = some d → d.conn.trapped = false

/-- The database is there, and so is its connection, of which `Q` holds. -/
def Holds (Q : Connection → Prop) (s : Server) : Prop := s.db.Sound fun d ↦ d.conn.Sound Q

def Connected (s : Server) : Prop := s.Holds fun _ ↦ True

/-- No rule is registered without an open connection. -/
structure Checked (s : Server) : Prop where
  untrapped : s.Untrapped
  connected : s.rules ≠ [] → s.Holds (·.is_open = true)

/-- The rules stay, and so do the pointers that are there. -/
def Kept (s s' : Server) : Prop := s'.rules = s.rules ∧ (s.Connected → s'.Connected)

/-- The threads of the application on the one server. -/
def system : System Call Op Ans Reply Server := ⟨code, fun _ _ ↦ True, exec⟩

def deliver (router : Router) (s : Server) (r : Incoming) : Option Arrival :=
  (router.deliver r).filter (fun a ↦ a.route.rule ∈ s.rules)

omit [Platform] in
theorem Holds.untrapped {Q : Connection → Prop} {s : Server} (h : s.Holds Q) : s.Untrapped := by
  obtain ⟨ht, d, hd, hconn⟩ := h
  refine ⟨ht, fun d' hd' ↦ ?_⟩
  rw [Option.some.inj (hd'.symm.trans hd)]
  exact hconn.1

omit [Platform] in
theorem exec_kept (op : Op) (s : Server) : Kept s (exec op s).2 :=
  ⟨rfl, fun h ↦ h.deref _ fun _ hd ↦ hd.deref _ fun _ _ ↦ trivial⟩

omit [Platform] in
theorem kept_refl (s : Server) : Kept s s := ⟨rfl, id⟩

omit [Platform] in
theorem kept_trans (a b c : Server) (hab : Kept a b) (hbc : Kept b c) : Kept a c :=
  ⟨hbc.1.trans hab.1, hbc.2 ∘ hab.2⟩

omit [Platform] in
theorem call_kept {α : Type} (method : Program Op Ans (Outcome α)) (s : Server) :
    Kept s (call method s).2 :=
  run_preserves (fun op t h ↦ kept_trans _ _ _ h (exec_kept op t)) method (kept_refl s)

omit [Platform] in
theorem kept_reading : Reading Kept where
  refl := kept_refl
  trans := kept_trans
  testConnection := call_kept _
  getAllDevices := call_kept _
  getAllServiceTypes := call_kept _
  getDetailedServiceHistory := call_kept Database.getDetailedServiceHistory
  getAllServiceRecords := call_kept _

omit [Platform] in
theorem reaches_kept {ι : Type} [DecidableEq ι] {s : Server} {calls : ι → List Call}
    {c : Config ι Call Op Ans Reply Server}
    (h : Reaches system anyStep (Interleaving.initial s calls) c) :
    Kept s c.shared :=
  h.keeps kept_refl kept_trans exec_kept

end Server

/-- The server after a request, which nothing takes if no rule for it is registered. -/
def answer (router : Router) (w : World Server) (r : Incoming) : World Server :=
  (w.db.deliver router r).elim w (fun a ↦ (exchange w a).after)

theorem answer_kept (router : Router) (w : World Server) (r : Incoming) :
    w.db.Kept (answer router w r).db := by
  rw [answer]
  cases w.db.deliver router r with
  | none => exact Server.kept_refl _
  | some a =>
    exact Server.kept_reading.handler (fun _ _ ↦ Server.call_kept _) a.clock a.request
      { w with events := [] }

theorem answers_kept (router : Router) (requests : List Incoming) (w : World Server) :
    w.db.Kept (requests.foldl (answer router) w).db := by
  induction requests generalizing w with
  | nil => exact Server.kept_refl _
  | cons r requests ih => exact Server.kept_trans _ _ _ (answer_kept router w r) (ih _)

theorem answers_of_no_rules (router : Router) (requests : List Incoming) {w : World Server}
    (h : w.db.rules = []) : requests.foldl (answer router) w = w := by
  have hanswer (r : Incoming) : answer router w r = w := by
    have hnone : w.db.deliver router r = none := by
      cases hr : router.deliver r <;> simp [Server.deliver, hr, h]
    rw [answer, hnone]
    rfl
  induction requests with
  | nil => rfl
  | cons r requests ih => rw [List.foldl_cons, hanswer, ih]

omit [Platform] in
theorem connect_new (opening : Str → Except Str Connection) (conn_str : Str) :
    let d := DatabaseObject.new opening conn_str
    d.connect.2 = d ∧ d.conn.trapped = false ∧
      (d.connect.1 = true → d.conn.Sound (·.is_open = true)) := by
  cases h : opening conn_str with
  | error what => simp [DatabaseObject.new, h, DatabaseObject.connect, UniquePtr.null]
  | ok c =>
    simp [DatabaseObject.new, h, DatabaseObject.connect, UniquePtr.deref, UniquePtr.reset,
      UniquePtr.null, UniquePtr.Sound]

omit [Platform] in
theorem checked_initial (faults : List Faults) : (Server.initial faults).Checked :=
  ⟨⟨rfl, fun _ hd ↦ by cases hd⟩, fun hr ↦ absurd rfl hr⟩

theorem configure_checked (env : Surroundings) (content : Str) {w : World Server}
    {faults : List Faults} (h : w.db = .initial faults) :
    (configure env content w).2.db.Checked := by
  have hearly : w.db.Checked := by
    rw [h]
    exact checked_initial faults
  simp only [configure, bind_apply, attempt_apply]
  cases env.extract content with
  | error what => exact hearly
  | ok config =>
    dsimp only
    cases connStr config with
    | error what => exact hearly
    | ok conn_str =>
      obtain ⟨hsame, htrap, hsound⟩ := connect_new env.opening conn_str
      have hlate (port : ℤ) : Server.Checked
          ⟨.make (.new env.opening conn_str), port, [], faults⟩ := by
        refine ⟨⟨rfl, fun d hd ↦ ?_⟩, fun hr ↦ absurd rfl hr⟩
        rw [← Option.some.inj hd]
        exact htrap
      simp only [log_apply, database_apply, Server.assignDb, Server.connect, World.after_db,
        World.withDb_db, UniquePtr.reset_deref, hsame, h]
      cases hc : (DatabaseObject.new env.opening conn_str).connect.1 with
      | false => exact hlate 8080
      | true =>
        simp only [bind_apply, log_apply, attempt_apply, Bool.not_true, Bool.false_eq_true,
          if_false]
        cases config.get "server".toList >>= (·.get "port".toList) >>= Json.get_int with
        | error what => exact hlate 8080
        | ok port =>
          have hopen : Server.Holds (·.is_open = true)
              ⟨.make (.new env.opening conn_str), port, allRules, faults⟩ :=
            UniquePtr.sound_make (Q := fun d : DatabaseObject ↦ d.conn.Sound _) (hsound hc)
          exact ⟨hopen.untrapped, fun _ ↦ hopen⟩

theorem construct_checked (env : Surroundings) {w : World Server} {faults : List Faults}
    (h : w.db = .initial faults) :
    (construct env w).1 = .ok () ∧ (construct env w).2.db.Checked := by
  simp only [construct, bind_apply, log_apply]
  cases env.content with
  | none =>
    refine ⟨rfl, ?_⟩
    simp only [log_apply, World.after_db, h]
    exact checked_initial faults
  | some content =>
    simp only [bind_apply, log_apply, tryCatch_apply]
    generalize hstart : World.after (World.after (World.after w _) _) _ = start
    have hchecked : (configure env content start).2.db.Checked :=
      configure_checked env content (by rw [← hstart]; exact h)
    rcases hr : configure env content start with ⟨what | ok, w'⟩
    · rw [hr] at hchecked
      exact ⟨rfl, hchecked⟩
    · rw [hr] at hchecked
      exact ⟨rfl, hchecked⟩

theorem main_checked (env : Surroundings) (faults : List Faults) (m : Metrics.MetricsRegistry) :
    (main env ⟨.initial faults, m, []⟩).2.db.Checked := by
  obtain ⟨hok, hchecked⟩ := construct_checked env (w := ⟨.initial faults, m, []⟩) rfl
  rcases hr : construct env ⟨.initial faults, m, []⟩ with ⟨what | ⟨⟩, w⟩
  · rw [hr] at hok
    cases hok
  · rw [hr] at hchecked
    simp only [main, run, tryCatch_apply, bind_apply, hr, metric_apply]
    exact hchecked

theorem no_null_dereference (env : Surroundings) (faults : List Faults)
    (m : Metrics.MetricsRegistry) :
    let w := (main env ⟨.initial faults, m, []⟩).2
    (w.db.rules ≠ [] → w.db.Holds (·.is_open = true) ∧ w.db.connect.1 = .ok true) ∧
      (∀ (router : Router) (requests : List Incoming),
        let s := (requests.foldl (answer router) w).db
        s.Untrapped ∧ (w.db.rules ≠ [] → s.Connected)) ∧
      (w.db.rules ≠ [] → ∀ (ι : Type) (_ : DecidableEq ι) (calls : ι → List Call)
        (c : Config ι Call Op Ans Reply Server),
        Reaches Server.system anyStep (initial w.db calls) c →
        c.shared.Untrapped ∧ c.shared.Connected) := by
  intro w
  have hchecked : w.db.Checked := main_checked env faults m
  have hconnected (hr : w.db.rules ≠ []) : w.db.Connected :=
    (hchecked.connected hr).mono fun _ hd ↦ hd.mono fun _ _ ↦ trivial
  refine ⟨fun hr ↦ ⟨hchecked.connected hr, ?_⟩, fun router requests ↦ ?_,
    fun hr ι _ calls c hc ↦ ?_⟩
  · obtain ⟨-, d, hd, -, c, hc, hopen⟩ := hchecked.connected hr
    simp [Server.connect, UniquePtr.deref, hd, DatabaseObject.connect, hc, hopen]
  · by_cases hr : w.db.rules = []
    · rw [answers_of_no_rules router requests hr]
      exact ⟨hchecked.untrapped, fun h ↦ absurd hr h⟩
    · have hs := (answers_kept router requests w).2 (hconnected hr)
      exact ⟨hs.untrapped, fun _ ↦ hs⟩
  · have hs := (Server.reaches_kept hc).2 (hconnected hr)
    exact ⟨hs.untrapped, hs⟩

end

/-- The configuration that the repository ships, and a server that answers. -/
def production : @Surroundings isoDates :=
  letI := isoDates
  { config_file := "config.json".toList
    content := some []
    extract _ := .ok (.ofEntries [("database".toList, .ofEntries [
      ("host".toList, .string "db".toList), ("port".toList, .number_unsigned 5432),
      ("dbname".toList, .string "car_service_db".toList),
      ("user".toList, .string "postgres".toList),
      ("password".toList, .string "postgres".toList)]),
      ("server".toList, .ofEntries [("port".toList, .number_unsigned 8080)])])
    opening _ := .ok ⟨false, true, .idle, ⟨[], [], []⟩, ⟨1, 1, 1⟩, .healthy⟩ }

theorem no_null_dereference_production : letI := isoDates; letI := Platform.ofTable []
    let s := (main production ⟨.initial [], .empty, []⟩).2.db
    s.rules = allRules ∧ s.connect.1 = .ok true := by
  let _ := isoDates
  let _ := Platform.ofTable []
  have hrules : (main production ⟨.initial [], .empty, []⟩).2.db.rules = allRules := rfl
  refine ⟨hrules, ((no_null_dereference production [] .empty).1 ?_).2⟩
  rw [hrules]
  decide

end ServiceSystem.WebServer
