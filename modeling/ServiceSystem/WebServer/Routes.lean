import ServiceSystem.WebServer.Handler

namespace ServiceSystem.WebServer

open Foundations Logging Metrics Handler

variable [Platform] {δ : Type}

def deviceJson (device : Database.Device) : Json :=
  .ofEntries [("id".toList, .number_integer device.id), ("name".toList, .string device.name),
    ("model".toList, .string device.model),
    ("purchase_date".toList, .string device.purchase_date),
    ("status".toList, .string device.status)]

def serviceTypeJson (type : Database.ServiceType) : Json :=
  .ofEntries [("id".toList, .number_integer type.id), ("name".toList, .string type.name),
    ("recommended_interval_months".toList, .number_integer type.recommended_interval_months),
    ("standard_cost".toList, .number_float type.standard_cost)]

def serviceRecordJson (record : Database.ServiceRecord) : Json :=
  .ofEntries [("id".toList, .number_integer record.id),
    ("device_id".toList, .number_integer record.device_id),
    ("service_id".toList, .number_integer record.service_id),
    ("service_date".toList, .string record.service_date),
    ("cost".toList, .number_float record.cost), ("notes".toList, .string record.notes),
    ("next_due_date".toList, .string record.next_due_date)]

def webserver : Str := "webserver.cpp".toList

def clientIp (req : Request) : Str :=
  if req.remote_ip_address = [] then "unknown".toList else req.remote_ip_address

def Clock.seconds (clock : Clock) : ℚ := clock.duration_ms / 1000

def failureJson (what : Str) : Json :=
  .ofEntries [("success".toList, .boolean false), ("error".toList, .string what)]

def metricsHandler : Handler δ Response := fun w ↦
  let res := (Response.new 200).set_header "Content-Type".toList
    "text/plain; version=0.0.4; charset=utf-8".toList
  (.ok { res with body := .text (w.metrics.format Platform.order) }, w)

def openFile (filename : Str) : Option Str :=
  match Platform.readFile ("www/".toList ++ filename) with
  | some content => some content
  | none => Platform.readFile ("../www/".toList ++ filename)

def indexHandler : Handler δ Response :=
  match openFile "index.html".toList with
  | none => pure { Response.new 404 with body := .text "Index file not found".toList }
  | some content =>
    let res := (Response.new 200).set_header "Content-Type".toList "text/html; charset=utf-8".toList
    pure { res with body := .text content }

/-- The content type by the first extension found anywhere in the name. -/
def contentType (filename : Str) : Str :=
  if ".css".toList <:+: filename then "text/css".toList
  else if ".js".toList <:+: filename then "application/javascript".toList
  else if ".png".toList <:+: filename then "image/png".toList
  else if ".jpg".toList <:+: filename ∨ ".jpeg".toList <:+: filename then "image/jpeg".toList
  else "text/html".toList

def staticHandler (filename : Str) : Handler δ Response :=
  match openFile filename with
  | none => pure { Response.new 404 with body := .text ("File not found: ".toList ++ filename) }
  | some content =>
    let res := (Response.new 200).set_header "Content-Type".toList (contentType filename)
    pure { res with body := .text content }

def readCredentials (body : Json) : Except Str (Str × Str) := do
  let username ← body.get "username".toList >>= Json.get_string
  let password ← body.get "password".toList >>= Json.get_string
  return (username, password)

def loginJson (username message : Str) (success : Bool) : Json :=
  .ofEntries [("success".toList, .boolean success), ("message".toList, .string message),
    ("username".toList, .string username),
    ("token".toList, .string (if success then "mock-jwt-token-".toList ++ username else []))]

theorem indexHandler_snd (w : World δ) : (indexHandler w).2 = w := by
  rw [indexHandler]
  cases openFile "index.html".toList <;> rfl

theorem staticHandler_snd (filename : Str) (w : World δ) : (staticHandler filename w).2 = w := by
  rw [staticHandler]
  cases openFile filename <;> rfl

def checkCredentials (username password client_ip : Str) : Handler δ (Bool × Str) :=
  if username = "admin".toList ∧ password = "admin123".toList then do
    log (.inContext .INFO "Admin user authenticated successfully".toList webserver)
    return (true, "Administrator login successful".toList)
  else if username = "user".toList ∧ password = "user123".toList then do
    log (.inContext .INFO "Regular user authenticated successfully".toList webserver)
    return (true, "User login successful".toList)
  else do
    log (.logAuth username false client_ip "Invalid username or password".toList)
    return (false, "Invalid credentials".toList)

def login (clock : Clock) (req : Request) : Handler δ Response := do
  let client_ip := clientIp req
  try
    let (username, password) ← attempt (Platform.parse req.body >>= readCredentials)
    log (.logAuth username true client_ip "Login attempt started".toList)
    let (auth_success, auth_message) ← checkCredentials username password client_ip
    let code := if auth_success then 200 else 401
    log (.logRequest client_ip "POST".toList "/api/login".toList code clock.duration_ms)
    metric (.recordAuthAttempt username auth_success)
    metric (.recordHttpRequest "POST".toList "/api/login".toList code clock.seconds)
    respond code (loginJson username auth_message auth_success)
  catch what =>
    log (.logRequest client_ip "POST".toList "/api/login".toList 400 clock.duration_ms)
    log (.inContext .ERROR ("Login error: ".toList ++ what) webserver)
    metric (.recordAuthAttempt "unknown".toList false)
    metric (.recordHttpRequest "POST".toList "/api/login".toList 400 clock.seconds)
    respond 400 (failureJson what)

def logout (req : Request) : Handler δ Response := do
  log (.inContext .INFO "User logout successful".toList webserver)
  metric (.recordHttpRequest "POST".toList "/api/logout".toList 200 (1 / 1000))
  metric (.recordDbOperation "logout".toList true)
  log (.logRequest (clientIp req) "POST".toList "/api/logout".toList 200 1)
  respond 200 (.ofEntries [("success".toList, .boolean true),
    ("message".toList, .string "Logged out successfully".toList)])

def createDevice (req : Request) : Handler δ Response := do
  log (.inContext .WARNING
    ("Blocked device creation attempt from IP: ".toList ++ clientIp req) webserver)
  log (.logDevice (-1) "create_blocked".toList false)
  metric (.recordDeviceOperation "create_blocked".toList (-1) false)
  metric (.recordHttpRequest "POST".toList "/api/devices".toList 403 (1 / 1000))
  respond 403 (failureJson "Adding new devices is disabled".toList)

/-- The fields of the body of a new service record, in the order in which they are read;
the record's own identifier stays unset. -/
def readRecord (body : Json) : Except Str Database.ServiceRecord := do
  let device_id ← body.get "device_id".toList >>= Json.get_int
  let service_id ← body.get "service_id".toList >>= Json.get_int
  let service_date ← body.get "service_date".toList >>= Json.get_string
  let cost ← body.get "cost".toList >>= Json.get_double
  let notes ← body.get "notes".toList >>= Json.get_string
  let next_due_date ← body.get "next_due_date".toList >>= Json.get_string
  return ⟨0, device_id, service_id, service_date, cost, notes, next_due_date⟩

variable [DatabaseApi δ]

def testDb (clock : Clock) : Handler δ Response := do
  let connected ← database DatabaseApi.testConnection
  metric (.recordHttpRequest "GET".toList "/api/test-db".toList 200 clock.seconds)
  metric (.recordDbOperation "test_connection".toList connected)
  respond 200 (.ofEntries [("database_connected".toList, .boolean connected),
    ("timestamp".toList, .number_integer clock.time)])

def listing {α : Type} (path operation : Str) (method : δ → Except Str α × δ) (toJson : α → Json)
    (clock : Clock) : Handler δ Response := do
  let items ← database method
  metric (.recordHttpRequest "GET".toList path 200 clock.seconds)
  metric (.recordDbOperation operation true)
  respond 200 (toJson items)

def getDevices : Clock → Handler δ Response :=
  listing "/api/devices".toList "get_devices".toList DatabaseApi.getAllDevices
    (fun devices ↦ .array (devices.map deviceJson))

def getServiceTypes : Clock → Handler δ Response :=
  listing "/api/service-types".toList "get_service_types".toList DatabaseApi.getAllServiceTypes
    (fun types ↦ .array (types.map serviceTypeJson))

def getServiceHistory : Clock → Handler δ Response :=
  listing "/api/service-history".toList "get_service_history".toList
    DatabaseApi.getDetailedServiceHistory id

def getServiceRecords : Clock → Handler δ Response :=
  listing "/api/service-records".toList "get_service_records".toList
    DatabaseApi.getAllServiceRecords (fun records ↦ .array (records.map serviceRecordJson))

def createServiceRecord (clock : Clock) (req : Request) : Handler δ Response := do
  try
    let record ← attempt (Platform.parse req.body >>= readRecord)
    let success ← database (DatabaseApi.addServiceRecord record)
    let record_id := if success then 1 else -1
    metric (.recordServiceOperation "create".toList record_id success)
    metric (.recordDbOperation "add_service_record".toList success)
    metric (.recordHttpRequest "POST".toList "/api/service-history".toList
      (if success then 200 else 400) clock.seconds)
    respond 200 (.ofEntries [("success".toList, .boolean success)])
  catch what =>
    metric (.recordServiceOperation "create".toList (-1) false)
    metric (.recordDbOperation "add_service_record".toList false)
    metric (.recordHttpRequest "POST".toList "/api/service-history".toList 400 clock.seconds)
    respond 400 (failureJson what)

/-- The routes that `setupRoutes` registers; those with `api` come before the ones for files. -/
inductive ApiRoute
  | testDb
  | login
  | logout
  | getDevices
  | createDevice
  | getServiceTypes
  | getServiceHistory
  | createServiceRecord
  | getServiceRecords
  deriving DecidableEq

inductive Route
  | metrics
  | index
  | static (filename : Str)
  | api (route : ApiRoute)
  deriving DecidableEq

namespace ApiRoute

def method : ApiRoute → Str
  | testDb | getDevices | getServiceTypes | getServiceHistory | getServiceRecords => "GET".toList
  | login | logout | createDevice | createServiceRecord => "POST".toList

def path : ApiRoute → Str
  | testDb => "/api/test-db".toList
  | login => "/api/login".toList
  | logout => "/api/logout".toList
  | getDevices | createDevice => "/api/devices".toList
  | getServiceTypes => "/api/service-types".toList
  | getServiceHistory | createServiceRecord => "/api/service-history".toList
  | getServiceRecords => "/api/service-records".toList

def handler (clock : Clock) (req : Request) : ApiRoute → Handler δ Response
  | testDb => WebServer.testDb clock
  | login => WebServer.login clock req
  | logout => WebServer.logout req
  | getDevices => WebServer.getDevices clock
  | createDevice => WebServer.createDevice req
  | getServiceTypes => WebServer.getServiceTypes clock
  | getServiceHistory => WebServer.getServiceHistory clock
  | createServiceRecord => WebServer.createServiceRecord clock req
  | getServiceRecords => WebServer.getServiceRecords clock

end ApiRoute

def Route.handler (clock : Clock) (req : Request) : Route → Handler δ Response
  | metrics => metricsHandler
  | index => indexHandler
  | static filename => staticHandler filename
  | api route => route.handler clock req

structure Arrival where
  route : Route
  request : Request
  clock : Clock

/-- A request with the state it was handled in, the calls made for it, and its reply. -/
structure Exchange (δ : Type) where
  arrival : Arrival
  before : World δ
  reply : Except Str Response
  after : World δ

namespace Exchange

def events (x : Exchange δ) : List Event := x.after.events

end Exchange

def exchange (w : World δ) (a : Arrival) : Exchange δ :=
  let before := { w with events := [] }
  let result := a.route.handler a.clock a.request before
  ⟨a, before, result.1, result.2⟩

def serve (w : World δ) : List Arrival → List (Exchange δ)
  | [] => []
  | a :: as => exchange w a :: serve (exchange w a).after as

structure Incoming where
  method : Str
  path : Str
  request : Request
  clock : Clock

/-- The choice that Crow makes of a route, if there is one. A route that asks for `POST` gets
nothing but that, under its own path. -/
structure Router where
  route : Str → Str → Option Route
  post : ∀ {method path : Str} {r : ApiRoute}, route method path = some (.api r) →
    r.method = "POST".toList → method = "POST".toList ∧ path = r.path

namespace Router

def deliver (router : Router) (r : Incoming) : Option Arrival :=
  (router.route r.method r.path).map (⟨·, r.request, r.clock⟩)

/-- The server after a request, which Crow answers itself if no route takes it. -/
def step (router : Router) (w : World δ) (r : Incoming) : World δ :=
  (router.deliver r).elim w (fun a ↦ (exchange w a).after)

def reply (router : Router) (w : World δ) (r : Incoming) : Option (Except Str Response) :=
  (router.deliver r).map (fun a ↦ (exchange w a).reply)

end Router

end ServiceSystem.WebServer
