import ServiceSystem.WebServer.Effects
import ServiceSystem.WebServer.Login

namespace ServiceSystem.WebServer

open Foundations Logging Metrics Handler

variable [Platform] {δ : Type}

def recordedRequests (es : List Event) : List (Str × Str × ℤ) :=
  es.filterMap fun
    | .metric (.recordHttpRequest method path status _) => some (method, path, status)
    | _ => none

/-- If there is a response, its status was recorded, once and for this method and path. -/
def RecordsStatus (method path : Str) (result : Except Str Response × World δ) : Prop :=
  ∀ res, result.1 = .ok res → recordedRequests result.2.events = [(method, path, res.code)]

section Handlers

variable {clock : Clock} {req : Request} {w : World δ}

theorem respond_recordsStatus {method path : Str} {code : ℤ} {es : List Event}
    (hw : w.events = []) (hes : recordedRequests es = [(method, path, code)]) (j : Json) :
    RecordsStatus method path (respond code j (w.after es)) := by
  intro res hres
  obtain ⟨-, rfl⟩ := respond_ok hres
  rw [respond_apply, World.after_events, hw]
  exact hes

theorem login_recordsStatus (hw : w.events = []) :
    RecordsStatus "POST".toList "/api/login".toList (login clock req w) := by
  cases hc : (Platform.parse req.body >>= readCredentials) with
  | error what =>
    rw [login_error hc]
    exact respond_recordsStatus hw rfl _
  | ok credentials =>
    have hcarries := carries_iff.mpr hc
    by_cases ha : Accepted credentials.1 credentials.2
    · obtain ⟨info, message, hlogin⟩ := login_accepted hcarries ha w
      rw [hlogin]
      rintro res ⟨⟩
      rw [World.after_events, hw]
      rfl
    · rw [login_rejected hcarries ha]
      rintro res ⟨⟩
      rw [World.after_events, hw]
      rfl

theorem logout_recordsStatus (hw : w.events = []) :
    RecordsStatus "POST".toList "/api/logout".toList (logout req w) := by
  rw [logout_eq]
  exact respond_recordsStatus hw rfl _

theorem createDevice_recordsStatus (hw : w.events = []) :
    RecordsStatus "POST".toList "/api/devices".toList (createDevice req w) := by
  rw [createDevice_eq]
  exact respond_recordsStatus hw rfl _

theorem listing_recordsStatus {α : Type} (path operation : Str) (method : δ → Except Str α × δ)
    (toJson : α → Json) (hw : w.events = []) :
    RecordsStatus "GET".toList path (listing path operation method toJson clock w) := by
  cases h : (method w.db).1 with
  | error what =>
    rw [listing_error h]
    exact fun _ ↦ nofun
  | ok items =>
    rw [listing_ok h]
    exact respond_recordsStatus (by exact hw) (by rfl) _

variable [DatabaseApi δ]

theorem testDb_recordsStatus (hw : w.events = []) :
    RecordsStatus "GET".toList "/api/test-db".toList (testDb clock w) := by
  cases h : (DatabaseApi.testConnection w.db).1 with
  | error what =>
    rw [testDb_error h]
    exact fun _ ↦ nofun
  | ok connected =>
    rw [testDb_ok h]
    exact respond_recordsStatus (by exact hw) (by rfl) _

theorem createServiceRecord_recordsStatus (hw : w.events = []) :
    RecordsStatus "POST".toList "/api/service-history".toList (createServiceRecord clock req w) ↔
      ¬ ∃ record, Submits req.body record ∧
        (DatabaseApi.addServiceRecord record w.db).1 = .ok false := by
  cases hs : (Platform.parse req.body >>= readRecord) with
  | error what =>
    refine iff_of_true ?_ ?_
    · rw [createServiceRecord_unread hs]
      exact respond_recordsStatus hw rfl _
    · rintro ⟨record, hsub, -⟩
      exact absurd ((submits_iff.mp hsub).symm.trans hs) nofun
  | ok record =>
    have hone : ∀ r, Submits req.body r ↔ r = record := by
      intro r
      rw [submits_iff, hs, Except.ok.injEq, eq_comm]
    simp only [hone, exists_eq_left]
    cases hd : (DatabaseApi.addServiceRecord record w.db).1 with
    | error what =>
      refine iff_of_true ?_ nofun
      rw [createServiceRecord_thrown hs hd]
      exact respond_recordsStatus (by exact hw) (by rfl) _
    | ok success =>
      rw [createServiceRecord_ok hs hd]
      cases success with
      | true =>
        refine iff_of_true ?_ nofun
        exact respond_recordsStatus (by exact hw) (by rfl) _
      | false =>
        have hvalid : (Json.ofEntries [("success".toList, .boolean false)]).Valid := by decide
        refine iff_of_false (fun h ↦ ?_) (fun h ↦ h rfl)
        have hcode := h _ (by rw [respond_valid hvalid])
        rw [respond_valid hvalid, World.after_events, World.withDb_events, hw] at hcode
        have hstatus : [(400 : ℤ)] = [200] :=
          congrArg (List.map (fun r : Str × Str × ℤ ↦ r.2.2)) hcode
        exact absurd hstatus (by decide)

end Handlers

/-- A handler records the status that it sends, once and for its own method and path, but
for a new service record that the database has turned down. -/
theorem recordsStatus_iff [DatabaseApi δ] (route : ApiRoute) (clock : Clock) (req : Request)
    (w : World δ) :
    let x := exchange w ⟨.api route, req, clock⟩
    RecordsStatus route.method route.path (x.reply, x.after) ↔
      ¬ (route = .createServiceRecord ∧ ∃ record, Submits req.body record ∧
        (DatabaseApi.addServiceRecord record w.db).1 = .ok false) := by
  have hcreate : RecordsStatus "POST".toList "/api/service-history".toList
      (createServiceRecord clock req { w with events := [] }) ↔ _ :=
    createServiceRecord_recordsStatus rfl
  cases route with
  | testDb => exact iff_of_true (testDb_recordsStatus rfl) nofun
  | login => exact iff_of_true (login_recordsStatus rfl) nofun
  | logout => exact iff_of_true (logout_recordsStatus rfl) nofun
  | createDevice => exact iff_of_true (createDevice_recordsStatus rfl) nofun
  | createServiceRecord => exact hcreate.trans (by simp only [true_and])
  | getDevices | getServiceTypes | getServiceHistory | getServiceRecords =>
    exact iff_of_true (listing_recordsStatus _ _ _ _ rfl) nofun

def danglingRecord : Request where
  remote_ip_address := []
  body := ("\x7b\"device_id\":7,\"service_id\":1,\"service_date\":\"2024-01-15\",\"cost\":50,".toList ++
    "\"notes\":\"\",\"next_due_date\":\"\"\x7d".toList)

@[reducible] def danglingPlatform : Platform :=
  .ofTable [(danglingRecord.body, .ofEntries [("device_id".toList, .number_unsigned 7),
    ("service_id".toList, .number_unsigned 1), ("service_date".toList, .string "2024-01-15".toList),
    ("cost".toList, .number_unsigned 50), ("notes".toList, .string []),
    ("next_due_date".toList, .string [])])]

omit [Platform] in
/-- The foreign key turns it down, status 400 is recorded, and 200 is sent. -/
theorem danglingRecord_not_recordsStatus : ¬ ∀ (_ : Platform) (δ : Type) (_ : DatabaseApi δ)
    (route : ApiRoute) (clock : Clock) (req : Request) (w : World δ),
    let x := exchange w ⟨.api route, req, clock⟩
    RecordsStatus route.method route.path (x.reply, x.after) := by
  intro h
  let _ := danglingPlatform
  let _ := Database.isoDates
  have hall := (createServiceRecord_recordsStatus rfl).mp (h danglingPlatform Backend _
    .createServiceRecord ⟨0, 0⟩ danglingRecord ⟨⟨Database.onePrinter, [], []⟩, .empty, []⟩)
  have hturned : (DatabaseApi.addServiceRecord ⟨0, 7, 1, "2024-01-15".toList, 50, [], []⟩
      (⟨Database.onePrinter, [], []⟩ : Backend)).1 = .ok false := by decide +kernel
  exact hall ⟨_, submits_iff.mpr (by rfl), hturned⟩

end ServiceSystem.WebServer
