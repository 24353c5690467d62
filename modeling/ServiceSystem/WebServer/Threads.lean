import ServiceSystem.Database.Overlaps
import ServiceSystem.Foundations.Components
import ServiceSystem.WebServer.Backend

namespace ServiceSystem.WebServer

open Foundations Program Interleaving Database Logging

/-- What a thread of Crow does to the objects that all threads share: a call of libpqxx, a section
that a mutex of the registry protects, an entry in the log. -/
inductive ServerOp
  | database (x : FaultyOp)
  | metrics (op : Metrics.Op)
  | log (call : LogCall)

abbrev ServerAns : ServerOp → Type
  | .database x => FaultyAns x
  | .metrics op => Metrics.Ans op
  | .log _ => Unit

/-- A handler as one thread runs it: a program whose exceptions end it. -/
abbrev Routine (α : Type) := ExceptT Str (Program ServerOp ServerAns) α

def databaseView : View ServerAns FaultyAns := ⟨.database, fun _ a ↦ a⟩

def metricsView : View ServerAns Metrics.Ans := ⟨.metrics, fun _ a ↦ a⟩

namespace Routine

variable {α : Type}

def attempt (x : Except Str α) : Routine α := ExceptT.mk (pure x)

def log (call : LogCall) : Routine Unit := ExceptT.lift (Program.perform (ServerOp.log call))

def measure (call : Metrics.Call) : Routine (List Metrics.Printed) :=
  ExceptT.lift (metricsView.embed (Metrics.code call))

def metric (call : Metrics.Call) : Routine Unit := do
  let _ ← measure call

/-- A method of the class `Database`, with what goes wrong during it. -/
def ask (f : Faults) (j : Database.Call) : Routine Reply :=
  ExceptT.lift (databaseView.embed (under f (Database.code j)))

def respond (code : ℤ) (j : Json) : Routine Response := do
  attempt j.dump
  return .json code j

end Routine

section Replies

/-- The value in a reply, which is of the kind that the method asked for returns. -/
def toBool : Reply → Bool
  | .bool b => b
  | .devices _ | .serviceTypes _ | .serviceRecords _ | .detailedHistory _ => false

def toDevices : Reply → List Device
  | .devices ds => ds
  | .bool _ | .serviceTypes _ | .serviceRecords _ | .detailedHistory _ => []

def toServiceTypes : Reply → List ServiceType
  | .serviceTypes ts => ts
  | .bool _ | .devices _ | .serviceRecords _ | .detailedHistory _ => []

def toServiceRecords : Reply → List ServiceRecord
  | .serviceRecords rs => rs
  | .bool _ | .devices _ | .serviceTypes _ | .detailedHistory _ => []

def toDetailedHistory : Reply → List DetailedRecord
  | .detailedHistory rs => rs
  | .bool _ | .devices _ | .serviceTypes _ | .serviceRecords _ => []

end Replies

section Routes

variable [Platform] (f : Faults) (clock : Clock) (req : Request)

namespace Routine

def metricsHandler : Routine Response := do
  let printed ← measure .format
  let res := (Response.new 200).set_header "Content-Type".toList
    "text/plain; version=0.0.4; charset=utf-8".toList
  return { res with body := .text (printed.flatMap Metrics.Printed.text) }

def indexHandler : Routine Response :=
  match openFile "index.html".toList with
  | none => pure { Response.new 404 with body := .text "Index file not found".toList }
  | some content =>
    let res := (Response.new 200).set_header "Content-Type".toList "text/html; charset=utf-8".toList
    pure { res with body := .text content }

def staticHandler (filename : Str) : Routine Response :=
  match openFile filename with
  | none => pure { Response.new 404 with body := .text ("File not found: ".toList ++ filename) }
  | some content =>
    let res := (Response.new 200).set_header "Content-Type".toList (contentType filename)
    pure { res with body := .text content }

def checkCredentials (username password client_ip : Str) : Routine (Bool × Str) :=
  if username = "admin".toList ∧ password = "admin123".toList then do
    log (.inContext .INFO "Admin user authenticated successfully".toList webserver)
    return (true, "Administrator login successful".toList)
  else if username = "user".toList ∧ password = "user123".toList then do
    log (.inContext .INFO "Regular user authenticated successfully".toList webserver)
    return (true, "User login successful".toList)
  else do
    log (.logAuth username false client_ip "Invalid username or password".toList)
    return (false, "Invalid credentials".toList)

/-- The catch block of the login. -/
def loginFailed (what : Str) : Routine Response := do
  log (.logRequest (clientIp req) "POST".toList "/api/login".toList 400 clock.duration_ms)
  log (.inContext .ERROR ("Login error: ".toList ++ what) webserver)
  metric (.recordAuthAttempt "unknown".toList false)
  metric (.recordHttpRequest "POST".toList "/api/login".toList 400 clock.seconds)
  respond 400 (failureJson what)

def login : Routine Response := do
  let client_ip := clientIp req
  try
    let (username, password) ← attempt (Platform.parse req.body >>= readCredentials)
    log (.logAuth username true client_ip "Login attempt started".toList)
    let (auth_success, auth_message) ← checkCredentials username password client_ip
    let code := if auth_success then 200 else 401
    log (.logRequest client_ip "POST".toList "/api/login".toList code clock.duration_ms)
    metric (.recordAuthAttempt username auth_success)
    metric (.recordHttpRequest "POST".toList "/api/login".toList code clock.seconds)
    respond code (loginJson username auth_message auth_success)
  catch what => loginFailed clock req what

def logout : Routine Response := do
  log (.inContext .INFO "User logout successful".toList webserver)
  metric (.recordHttpRequest "POST".toList "/api/logout".toList 200 (1 / 1000))
  metric (.recordDbOperation "logout".toList true)
  log (.logRequest (clientIp req) "POST".toList "/api/logout".toList 200 1)
  respond 200 (.ofEntries [("success".toList, .boolean true),
    ("message".toList, .string "Logged out successfully".toList)])

def createDevice : Routine Response := do
  log (.inContext .WARNING
    ("Blocked device creation attempt from IP: ".toList ++ clientIp req) webserver)
  log (.logDevice (-1) "create_blocked".toList false)
  metric (.recordDeviceOperation "create_blocked".toList (-1) false)
  metric (.recordHttpRequest "POST".toList "/api/devices".toList 403 (1 / 1000))
  respond 403 (failureJson "Adding new devices is disabled".toList)

def testDb : Routine Response := do
  let connected := toBool (← ask f .testConnection)
  metric (.recordHttpRequest "GET".toList "/api/test-db".toList 200 clock.seconds)
  metric (.recordDbOperation "test_connection".toList connected)
  respond 200 (.ofEntries [("database_connected".toList, .boolean connected),
    ("timestamp".toList, .number_integer clock.time)])

def listing (path operation : Str) (j : Database.Call) (toJson : Reply → Json) :
    Routine Response := do
  let items ← ask f j
  metric (.recordHttpRequest "GET".toList path 200 clock.seconds)
  metric (.recordDbOperation operation true)
  respond 200 (toJson items)

def getDevices : Routine Response :=
  listing f clock "/api/devices".toList "get_devices".toList .getAllDevices
    (fun r ↦ .array ((toDevices r).map deviceJson))

def getServiceTypes : Routine Response :=
  listing f clock "/api/service-types".toList "get_service_types".toList .getAllServiceTypes
    (fun r ↦ .array ((toServiceTypes r).map serviceTypeJson))

def getServiceHistory : Routine Response :=
  listing f clock "/api/service-history".toList "get_service_history".toList
    .getDetailedServiceHistory (fun r ↦ .array ((toDetailedHistory r).map detailedRecordJson))

def getServiceRecords : Routine Response :=
  listing f clock "/api/service-records".toList "get_service_records".toList
    .getAllServiceRecords (fun r ↦ .array ((toServiceRecords r).map serviceRecordJson))

/-- The catch block of the creation of a record. -/
def createFailed (what : Str) : Routine Response := do
  metric (.recordServiceOperation "create".toList (-1) false)
  metric (.recordDbOperation "add_service_record".toList false)
  metric (.recordHttpRequest "POST".toList "/api/service-history".toList 400 clock.seconds)
  respond 400 (failureJson what)

def createServiceRecord : Routine Response := do
  try
    let record ← attempt (Platform.parse req.body >>= readRecord)
    let success := toBool (← ask f (.addServiceRecord record))
    let record_id := if success then 1 else -1
    metric (.recordServiceOperation "create".toList record_id success)
    metric (.recordDbOperation "add_service_record".toList success)
    metric (.recordHttpRequest "POST".toList "/api/service-history".toList
      (if success then 200 else 400) clock.seconds)
    respond 200 (.ofEntries [("success".toList, .boolean success)])
  catch what => createFailed clock what

end Routine

def ApiRoute.routine : ApiRoute → Routine Response
  | testDb => .testDb f clock
  | login => .login clock req
  | logout => .logout req
  | getDevices => .getDevices f clock
  | createDevice => .createDevice req
  | getServiceTypes => .getServiceTypes f clock
  | getServiceHistory => .getServiceHistory f clock
  | createServiceRecord => .createServiceRecord f clock req
  | getServiceRecords => .getServiceRecords f clock

def Route.routine : Route → Routine Response
  | metrics => .metricsHandler
  | index => .indexHandler
  | static filename => .staticHandler filename
  | api route => route.routine f clock req

end Routes

variable [Postgres] [Platform]

structure Shared where
  connection : Connection
  metrics : Metrics.Shared
  log : List LogCall

def serverExec : ∀ op : ServerOp, Shared → ServerAns op × Shared
  | .database x, s =>
    ((execUnder x s.connection).1, { s with connection := (execUnder x s.connection).2 })
  | .metrics op, s =>
    ((Metrics.exec Platform.order op s.metrics).1,
      { s with metrics := (Metrics.exec Platform.order op s.metrics).2 })
  | .log entry, s => ((), { s with log := s.log ++ [entry] })

/-- Only the mutex of the registry makes anyone wait. -/
def serverReady : ServerOp → Shared → Prop
  | .metrics op, s => Metrics.ready op s.metrics
  | .database _, _ | .log _, _ => True

/-- The threads of Crow, each with the requests that it handles. -/
def server : System (Faults × Arrival) ServerOp ServerAns (Except Str Response) Shared :=
  ⟨fun x ↦ x.2.route.routine x.1 x.2.clock x.2.request, serverReady, serverExec⟩

instance : ∀ (op : ServerOp) (s : Shared), Decidable (server.ready op s)
  | .metrics op, s => inferInstanceAs (Decidable (Metrics.ready op s.metrics))
  | .database _, _ | .log _, _ => .isTrue trivial

section Parts

def databasePart : Part server faultySystem where
  toView := databaseView
  state := Shared.connection
  exec_ans _ _ := rfl
  exec_state _ _ := rfl
  exec_foreign op s h := by
    cases op with
    | database x => exact absurd rfl (h x)
    | metrics op => rfl
    | log entry => rfl
  ready _ _ _ := trivial
  calls j r h := by
    obtain ⟨k, hk, -⟩ := code_begins j.2
    rw [show faultySystem.code j = under j.1 (Database.code j.2) from rfl, hk] at h
    cases h

omit [Postgres] [Platform] in
theorem metrics_calls (j : Metrics.Call) (r : List Metrics.Printed) : Metrics.code j ≠ .ret r := by
  cases j <;> exact nofun

def metricsPart : Part server (Metrics.system Platform.order) where
  toView := metricsView
  state := Shared.metrics
  exec_ans _ _ := rfl
  exec_state _ _ := rfl
  exec_foreign op s h := by
    cases op with
    | metrics op => exact absurd rfl (h op)
    | database x => rfl
    | log entry => rfl
  ready _ _ h := h
  calls := metrics_calls

end Parts

end ServiceSystem.WebServer
