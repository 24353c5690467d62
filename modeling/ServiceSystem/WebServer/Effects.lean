import ServiceSystem.WebServer.Routes

namespace ServiceSystem.WebServer

open Foundations Logging Metrics Handler

variable [Platform] {δ : Type}

def Submits (text : Str) (record : Database.ServiceRecord) : Prop :=
  ∃ body, Platform.parse text = .ok body ∧ record.id = 0 ∧
    body.HasField Json.get_int "device_id".toList record.device_id ∧
    body.HasField Json.get_int "service_id".toList record.service_id ∧
    body.HasField Json.get_string "service_date".toList record.service_date ∧
    body.HasField Json.get_double "cost".toList record.cost ∧
    body.HasField Json.get_string "notes".toList record.notes ∧
    body.HasField Json.get_string "next_due_date".toList record.next_due_date

theorem submits_iff {text : Str} {record : Database.ServiceRecord} :
    Submits text record ↔ (Platform.parse text >>= readRecord) = .ok record := by
  have hint : ∀ n, Json.get_int .null ≠ .ok n := fun _ ↦ nofun
  have hstring : ∀ s, Json.get_string .null ≠ .ok s := fun _ ↦ nofun
  have hdouble : ∀ q, Json.get_double .null ≠ .ok q := fun _ ↦ nofun
  simp only [Submits, readRecord, except_bind_eq_ok, Json.get_bind_eq_ok hint,
    Json.get_bind_eq_ok hstring, Json.get_bind_eq_ok hdouble]
  refine exists_congr (fun body ↦ and_congr_right (fun _ ↦ ?_))
  constructor
  · rintro ⟨hid, h₁, h₂, h₃, h₄, h₅, h₆⟩
    refine ⟨_, h₁, _, h₂, _, h₃, _, h₄, _, h₅, _, h₆, ?_⟩
    rw [← hid]
    rfl
  · rintro ⟨_, h₁, _, h₂, _, h₃, _, h₄, _, h₅, _, h₆, ⟨⟩⟩
    exact ⟨rfl, h₁, h₂, h₃, h₄, h₅, h₆⟩

section Unconditional

variable (clock : Clock) (req : Request) (w : World δ)

def logoutEvents : List Event :=
  [.log (.inContext .INFO "User logout successful".toList webserver),
    .metric (.recordHttpRequest "POST".toList "/api/logout".toList 200 (1 / 1000)),
    .metric (.recordDbOperation "logout".toList true),
    .log (.logRequest (clientIp req) "POST".toList "/api/logout".toList 200 1)]

theorem logout_eq : logout req w =
    respond 200 (.ofEntries [("success".toList, .boolean true),
      ("message".toList, .string "Logged out successfully".toList)])
      (w.after (logoutEvents req)) := by
  simp only [logout, bind_apply, log_apply, metric_apply, World.after_after]
  rfl

def createDeviceEvents : List Event :=
  [.log (.inContext .WARNING ("Blocked device creation attempt from IP: ".toList ++ clientIp req)
      webserver),
    .log (.logDevice (-1) "create_blocked".toList false),
    .metric (.recordDeviceOperation "create_blocked".toList (-1) false),
    .metric (.recordHttpRequest "POST".toList "/api/devices".toList 403 (1 / 1000))]

theorem createDevice_eq : createDevice req w =
    respond 403 (failureJson "Adding new devices is disabled".toList)
      (w.after (createDeviceEvents req)) := by
  simp only [createDevice, bind_apply, log_apply, metric_apply, World.after_after]
  rfl

def readEvents (path operation : Str) (success : Bool) : List Event :=
  [.metric (.recordHttpRequest "GET".toList path 200 clock.seconds),
    .metric (.recordDbOperation operation success)]

def createEvents (id : ℤ) (success : Bool) : List Event :=
  [.metric (.recordServiceOperation "create".toList id success),
    .metric (.recordDbOperation "add_service_record".toList success),
    .metric (.recordHttpRequest "POST".toList "/api/service-history".toList
      (if success then 200 else 400) clock.seconds)]

end Unconditional

variable {clock : Clock} {req : Request} {w : World δ} {what : Str}

section Listing

variable {α : Type} {path operation : Str} {method : δ → Except Str α × δ} {toJson : α → Json}

theorem listing_error (h : (method w.db).1 = .error what) :
    listing path operation method toJson clock w = (.error what, w.withDb (method w.db).2) := by
  simp only [listing, bind_apply, database_apply, h]

theorem listing_ok {items : α} (h : (method w.db).1 = .ok items) :
    listing path operation method toJson clock w =
      respond 200 (toJson items)
        ((w.withDb (method w.db).2).after (readEvents clock path operation true)) := by
  simp only [listing, bind_apply, database_apply, h, metric_apply, World.after_after]
  rfl

end Listing

theorem createServiceRecord_unread (h : (Platform.parse req.body >>= readRecord) = .error what)
    [DatabaseApi δ] : createServiceRecord clock req w =
      respond 400 (failureJson what) (w.after (createEvents clock (-1) false)) := by
  simp only [createServiceRecord, tryCatch_apply, bind_apply, attempt_apply, h, metric_apply,
    World.after_after]
  rfl

variable [DatabaseApi δ]

theorem testDb_error (h : (DatabaseApi.testConnection w.db).1 = .error what) :
    testDb clock w = (.error what, w.withDb (DatabaseApi.testConnection w.db).2) := by
  simp only [testDb, bind_apply, database_apply, h]

theorem testDb_ok {connected : Bool} (h : (DatabaseApi.testConnection w.db).1 = .ok connected) :
    testDb clock w =
      respond 200 (.ofEntries [("database_connected".toList, .boolean connected),
          ("timestamp".toList, .number_integer clock.time)])
        ((w.withDb (DatabaseApi.testConnection w.db).2).after
          (readEvents clock "/api/test-db".toList "test_connection".toList connected)) := by
  simp only [testDb, bind_apply, database_apply, h, metric_apply, World.after_after]
  rfl

variable {record : Database.ServiceRecord}

theorem createServiceRecord_thrown (h : (Platform.parse req.body >>= readRecord) = .ok record)
    (hd : (DatabaseApi.addServiceRecord record w.db).1 = .error what) :
    createServiceRecord clock req w =
      respond 400 (failureJson what)
        ((w.withDb (DatabaseApi.addServiceRecord record w.db).2).after
          (createEvents clock (-1) false)) := by
  simp only [createServiceRecord, tryCatch_apply, bind_apply, attempt_apply, h, database_apply, hd,
    metric_apply, World.after_after]
  rfl

theorem createServiceRecord_ok {success : Bool}
    (h : (Platform.parse req.body >>= readRecord) = .ok record)
    (hd : (DatabaseApi.addServiceRecord record w.db).1 = .ok success) :
    createServiceRecord clock req w =
      respond 200 (.ofEntries [("success".toList, .boolean success)])
        ((w.withDb (DatabaseApi.addServiceRecord record w.db).2).after
          (createEvents clock (if success then 1 else -1) success)) := by
  have hvalid : (Json.ofEntries [("success".toList, .boolean success)]).Valid := by
    cases success <;> decide
  simp only [createServiceRecord, tryCatch_apply, bind_apply, attempt_apply, h, database_apply, hd,
    metric_apply, World.after_after, respond_valid hvalid]
  rfl

end ServiceSystem.WebServer
