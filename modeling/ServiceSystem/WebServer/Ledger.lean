import ServiceSystem.WebServer.Listings
import ServiceSystem.WebServer.Traces

namespace ServiceSystem.WebServer

open Foundations Database Metrics Program Handler

def recordedOperations (es : List Event) : List (Str × Bool) :=
  es.filterMap fun
    | .metric (.recordDbOperation operation success) => some (operation, success)
    | _ => none

def operationSeries (operation : Str) (success : Bool) : SeriesKey :=
  ⟨dbOperations, dbLabels operation success⟩

theorem dbLabels_inj {operation operation' : Str} {success success' : Bool} :
    dbLabels operation success = dbLabels operation' success' ↔
      (operation, success) = (operation', success') := by
  refine ⟨fun h ↦ ?_, fun h ↦ by cases h; rfl⟩
  have hget : ∀ key, (dbLabels operation success).labels.get? key =
      (dbLabels operation' success').labels.get? key := fun key ↦ by rw [h]
  have hop := hget "operation".toList
  have hsuccess := hget "success".toList
  have hkey : "operation".toList ≠ "success".toList := by decide
  have hbool : ofBool success = ofBool success' → success = success' := by
    cases success <;> cases success' <;> decide
  simp only [dbLabels, Labels.ofList, List.foldl_cons, List.foldl_nil, OrderedMap.assign_get,
    if_neg hkey, if_pos, Option.some.injEq] at hop hsuccess
  rw [hop, hbool hsuccess]

section Series

variable [Platform]

theorem names_countP {route : Route} {req : Request} {e : Event} (h : MayCall route req e)
    (operation : Str) (success : Bool) : e.names.countP (· = operationSeries operation success) =
      (recordedOperations [e]).count (operation, success) := by
  have hh : MetricsRegistry.httpRequests ≠ dbOperations := by decide
  have ha : MetricsRegistry.authAttempts ≠ dbOperations := by decide
  have hf : MetricsRegistry.authFailures ≠ dbOperations := by decide
  have hv : deviceOperations ≠ dbOperations := by decide
  have hs : serviceOperations ≠ dbOperations := by decide
  cases e with
  | log call => rfl
  | metric call =>
    cases call with
    | recordDbOperation operation' success' =>
      simp [Event.names, Call.names, operationSeries, recordedOperations, dbLabels_inj,
        List.countP_cons, List.count_cons]
    | recordAuthAttempt username success =>
      cases success <;> simp [Event.names, Call.names, operationSeries, recordedOperations, ha, hf]
    | recordHttpRequest | recordDeviceOperation | recordServiceOperation =>
      simp [Event.names, Call.names, operationSeries, recordedOperations, hh, hv, hs]
    | initializeMetrics | format => exact h.elim

theorem events_countP {route : Route} {req : Request} {es : List Event}
    (h : ∀ e ∈ es, MayCall route req e)
    (operation : Str) (success : Bool) :
    (es.flatMap Event.names).countP (· = operationSeries operation success) =
      (recordedOperations es).count (operation, success) := by
  induction es with
  | nil => rfl
  | cons e es ih =>
    obtain ⟨he, hes⟩ := List.forall_mem_cons.mp h
    have happend : recordedOperations (e :: es) = recordedOperations [e] ++ recordedOperations es :=
      List.filterMap_append (l := [e])
    rw [List.flatMap_cons, List.countP_append, names_countP he, ih hes, happend, List.count_append]

end Series

section

variable [Platform] [Postgres]

def ReadsInFull (c : Connection) (route : ListRoute) : Prop :=
  CanBegin c ∧ c.faults.exec = .none ∧ c.faults.commit = .none ∧
    (route = .serviceRecords → Attributed c.tables)

/-- The requests that are recorded as what they are: no logout, no read that fails, and
no text that is not a service record. -/
def Accounted (c : Connection) (a : Arrival) : Prop :=
  a.route ≠ .api .logout ∧
    (a.route = .api .createServiceRecord → ∃ record, Submits a.request.body record) ∧
    ∀ route : ListRoute, a.route = .api route.api → ReadsInFull c route

omit [Platform] in
theorem completes_of_readsInFull {c : Connection} {route : ListRoute} (h : ReadsInFull c route) :
    Completes c route.query route.element := by
  obtain ⟨hb, hf, hc, hattributed⟩ := h
  exact completes_iff.mpr ⟨hb, hf, hc, element_converts_iff.mpr hattributed⟩

def Balanced (w : World Backend) (x : Exchange Backend) : Prop :=
  x.after.db.ledger = w.db.ledger ++ recordedOperations x.events

section Balance

variable {w : World Backend} {a : Arrival} {db : Backend} {es : List Event}

theorem balanced_of
    (h : (a.route.handler a.clock a.request { w with events := [] }).2 =
      (({ w with events := [] } : World Backend).withDb db).after es)
    (hl : db.ledger = w.db.ledger ++ recordedOperations es) : Balanced w (exchange w a) := by
  have hafter : (exchange w a).after =
    (({ w with events := [] } : World Backend).withDb db).after es := h
  rw [Balanced, Exchange.events, hafter]
  exact hl

theorem balanced_of_respond {code : ℤ} {j : Json}
    (h : a.route.handler a.clock a.request { w with events := [] } =
      respond code j ((({ w with events := [] } : World Backend).withDb db).after es))
    (hl : db.ledger = w.db.ledger ++ recordedOperations es) : Balanced w (exchange w a) :=
  balanced_of (by rw [h, respond_snd]) hl

theorem balanced_of_after
    (h : (a.route.handler a.clock a.request { w with events := [] }).2 =
      ({ w with events := [] } : World Backend).after es)
    (hes : recordedOperations es = []) : Balanced w (exchange w a) :=
  balanced_of (show _ = (World.withDb { w with events := [] } w.db).after es from h)
    (by rw [hes, List.append_nil])

end Balance

theorem list_balanced {w : World Backend} {route : ListRoute} {req : Request} {clock : Clock}
    (h : ReadsInFull w.db.current route) :
    Balanced w (exchange w ⟨.api route.api, req, clock⟩) := by
  obtain ⟨db, completed, hresult, hledger, hcompleted⟩ :=
    handler_lists { w with events := [] } route req clock
  rw [hcompleted.mpr (completes_of_readsInFull h)] at hledger
  exact balanced_of_respond hresult hledger

theorem login_balanced (w : World Backend) (req : Request) (clock : Clock) :
    Balanced w (exchange w ⟨.api .login, req, clock⟩) := by
  cases hc : (Platform.parse req.body >>= readCredentials) with
  | error what =>
    have hfailed : (login clock req { w with events := [] }).2 =
        ({ w with events := [] } : World Backend).after (loginFailure clock req what) := by
      rw [login_error hc, respond_snd]
    exact balanced_of_after hfailed rfl
  | ok credentials =>
    have hcarries := carries_iff.mpr hc
    by_cases ha : Accepted credentials.1 credentials.2
    · obtain ⟨info, message, hlogin⟩ := login_accepted hcarries ha { w with events := [] }
      exact balanced_of_after (congrArg Prod.snd hlogin) rfl
    · exact balanced_of_after (congrArg Prod.snd (login_rejected hcarries ha _)) rfl

theorem exchange_balanced {w : World Backend} {a : Arrival} (h : Accounted w.db.current a) :
    Balanced w (exchange w a) := by
  obtain ⟨route, req, clock⟩ := a
  obtain ⟨hlogout, hrecord, hlist⟩ := h
  have hidle : ({ w with events := [] } : World Backend) =
    ({ w with events := [] } : World Backend).after [] := (World.after_nil _).symm
  cases route with
  | metrics => exact balanced_of_after hidle rfl
  | index => exact balanced_of_after ((indexHandler_snd _).trans hidle) rfl
  | static filename => exact balanced_of_after ((staticHandler_snd filename _).trans hidle) rfl
  | api route =>
    cases route with
    | testDb =>
      refine balanced_of_respond (testDb_ok rfl) ?_
      exact congrArg (fun b ↦ w.db.ledger ++ [("test_connection".toList, b)])
        (testConnection_reports w.db.current).symm
    | login => exact login_balanced w req clock
    | logout => exact absurd rfl hlogout
    | createDevice =>
      have hblocked := (congrArg Prod.snd (createDevice_eq req { w with events := [] })).trans
        (respond_snd _ _ _)
      exact balanced_of_after hblocked rfl
    | createServiceRecord =>
      obtain ⟨record, hsubmits⟩ := hrecord rfl
      refine balanced_of_respond (createServiceRecord_ok (submits_iff.mp hsubmits) rfl) ?_
      exact congrArg (fun b ↦ w.db.ledger ++ [("add_service_record".toList, b)])
        (mutate_reports w.db.current (.insertServiceRecord record)).symm
    | getDevices => exact list_balanced (hlist .devices rfl)
    | getServiceTypes => exact list_balanced (hlist .serviceTypes rfl)
    | getServiceHistory => exact list_balanced (hlist .serviceHistory rfl)
    | getServiceRecords => exact list_balanced (hlist .serviceRecords rfl)

def finish (w : World Backend) (requests : List Arrival) : World Backend :=
  requests.foldl (fun w a ↦ (exchange w a).after) w

/-- What `db_operations_total` has been raised to since `w`, and what the ledger has grown
by, agree for every operation. -/
def Agree (w w' : World Backend) : Prop :=
  ∀ operation success,
    w'.metrics.counters.level Counter.value (operationSeries operation success) +
        w.db.ledger.count (operation, success) =
      w.metrics.counters.level Counter.value (operationSeries operation success) +
        w'.db.ledger.count (operation, success)

theorem exchange_agree {w : World Backend} {a : Arrival} (h : Accounted w.db.current a) :
    Agree w (exchange w a).after := by
  intro operation success
  have hbalanced := exchange_balanced h
  rw [Balanced] at hbalanced
  rw [exchange_level, events_countP (exchange_traced w a).2, hbalanced, List.count_append]
  omega

/-- In a run whose requests are all accounted for, `db_operations_total` counts the
operations that were carried out, each under its own success. -/
theorem operations_counted {w : World Backend} {requests : List Arrival}
    (h : ∀ x ∈ serve w requests, Accounted x.before.db.current x.arrival) :
    Agree w (finish w requests) := by
  induction requests generalizing w with
  | nil => exact fun _ _ ↦ rfl
  | cons a requests ih =>
    obtain ⟨ha, hrequests⟩ := List.forall_mem_cons.mp h
    intro operation success
    have hfirst : _ = _ := exchange_agree (w := w) (a := a) ha operation success
    have hrest : _ = _ := ih hrequests operation success
    rw [finish, List.foldl_cons, ← finish]
    omega

end

def readDevices : Arrival := ⟨.api .getDevices, ⟨[], []⟩, ⟨0, 0⟩⟩

theorem operations_counted_readDevices :
    letI := Platform.ofTable []
    letI := isoDates
    let w : World Backend := ⟨⟨onePrinter, [], []⟩, .empty, []⟩
    Agree w (finish w [readDevices]) := by
  let _ := Platform.ofTable []
  let _ := isoDates
  refine operations_counted fun x hx ↦ ?_
  obtain rfl := List.mem_singleton.mp hx
  exact ⟨nofun, nofun, fun _ _ ↦ ⟨by decide, rfl, rfl, fun _ _ ↦ nofun⟩⟩

def closedBackend : @Backend isoDates :=
  letI := isoDates
  ⟨{ onePrinter with is_open := false }, [], []⟩

/-- The connection is closed, and reading the devices is recorded as a success. -/
theorem readDevices_not_agree : ¬ ∀ (_ : Platform) (_ : Postgres) (w : World Backend)
    (requests : List Arrival), Agree w (finish w requests) := by
  intro h
  let _ := Platform.ofTable []
  let _ := isoDates
  have hagree := h (Platform.ofTable []) isoDates ⟨closedBackend, .empty, []⟩
    [readDevices] "get_devices".toList true
  revert hagree
  decide +kernel

end ServiceSystem.WebServer
