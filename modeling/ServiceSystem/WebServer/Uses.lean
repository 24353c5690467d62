import ServiceSystem.WebServer.Login
import ServiceSystem.WebServer.Threads

namespace ServiceSystem.WebServer

open Foundations Program Interleaving Database
open Logging (LogCall)

section Rules

variable {β : Type} {Op₁ J₁ ρ₁ : Type} {Ans₁ : Op₁ → Type} {v : View ServerAns Ans₁}
  {code : J₁ → Program Op₁ Ans₁ ρ₁} {R : List (J₁ × ρ₁) → Except Str β → Prop}
  {g : Unit → Routine β}

theorem makes_log {entry : LogCall} (hv : v.Foreign (.log entry))
    (h : v.Makes code (g ()).run R) : v.Makes code (Routine.log entry >>= g).run R :=
  .lift_bind ⟨hv, fun _ ↦ trivial⟩ fun _ ↦ h

def dumped (code : ℤ) (j : Json) : Except Str Response := j.dump.map fun _ ↦ .json code j

theorem makes_respond {R : List (J₁ × ρ₁) → Except Str Response → Prop} {code' : ℤ} {j : Json}
    (h : R [] (dumped code' j)) : v.Makes code (Routine.respond code' j).run R := by
  unfold dumped at h
  refine .except_bind (fun a ha ↦ .pure_run ?_) fun e he ↦ ?_
  · rwa [ha] at h
  · rwa [he] at h

theorem dumped_valid {code : ℤ} {j : Json} (h : j.Valid) : dumped code j = .ok (.json code j) := by
  rw [dumped, Json.dump_eq_ok.mpr h]
  rfl

theorem makes_respond_valid {R : List (J₁ × ρ₁) → Except Str Response → Prop} {code' : ℤ} {j : Json}
    (h : j.Valid) (hR : R [] (.ok (.json code' j))) :
    v.Makes code (Routine.respond code' j).run R :=
  makes_respond ((dumped_valid h).symm ▸ hR)

theorem metric_bind (c : Metrics.Call) : Routine.metric c >>= g = Routine.measure c >>= fun _ ↦ g () := by
  simp only [Routine.metric, bind_assoc, pure_bind]

end Rules

section Database

theorem log_foreign (entry : LogCall) : databaseView.Foreign (.log entry) := fun _ ↦ nofun

theorem embed_foreign {α : Type} (p : Program Metrics.Op Metrics.Ans α) :
    Only databaseView.Foreign (metricsView.embed p) := by
  induction p with
  | ret r => trivial
  | call op k ih => exact ⟨fun _ ↦ nofun, fun a ↦ ih a⟩

variable [Postgres]

variable {β : Type} {R : List ((Faults × Call) × Reply) → Except Str β → Prop}
  {f : Faults} {j : Call}

theorem asks_measure {c : Metrics.Call} {g : List Metrics.Printed → Routine β}
    (h : ∀ a, databaseView.Makes faultySystem.code (g a).run R) :
    databaseView.Makes faultySystem.code (Routine.measure c >>= g).run R :=
  .lift_bind (embed_foreign _) h

theorem asks_metric {c : Metrics.Call} {g : Unit → Routine β}
    (h : databaseView.Makes faultySystem.code (g ()).run R) :
    databaseView.Makes faultySystem.code (Routine.metric c >>= g).run R := by
  rw [metric_bind]
  exact asks_measure fun _ ↦ h

theorem asks_ask {g : Reply → Routine β}
    (h : ∀ r, databaseView.Makes faultySystem.code (g r).run
      (fun l r' ↦ R (((f, j), r) :: l) r')) :
    databaseView.Makes faultySystem.code (Routine.ask f j >>= g).run R :=
  .sub_bind (j := (f, j)) h

def createdJson (success : Bool) : Json := .ofEntries [("success".toList, .boolean success)]

def connectedJson (clock : Clock) (connected : Bool) : Json :=
  .ofEntries [("database_connected".toList, .boolean connected),
    ("timestamp".toList, .number_integer clock.time)]

def Listed (x : Faults × Arrival) (j : Call) (toJson : Reply → Json)
    (l : List ((Faults × Call) × Reply)) (res : Except Str Response) : Prop :=
  ∃ r, l = [((x.1, j), r)] ∧ res = dumped 200 (toJson r)

theorem listing_asks (f : Faults) (clock : Clock) (path operation : Str) (j : Call)
    (toJson : Reply → Json) :
    databaseView.Makes faultySystem.code (Routine.listing f clock path operation j toJson).run
      (fun l res ↦ ∃ r, l = [((f, j), r)] ∧ res = dumped 200 (toJson r)) :=
  asks_ask fun r ↦ asks_metric (asks_metric (makes_respond ⟨r, rfl, rfl⟩))

theorem testDb_asks (f : Faults) (clock : Clock) :
    databaseView.Makes faultySystem.code (Routine.testDb f clock).run
      (fun l res ↦ ∃ r, l = [((f, .testConnection), r)] ∧
        res = dumped 200 (connectedJson clock (toBool r))) :=
  asks_ask fun r ↦ asks_metric (asks_metric (makes_respond ⟨r, rfl, rfl⟩))

theorem logout_asks (req : Request) :
    databaseView.Makes faultySystem.code (Routine.logout req).run (fun l _ ↦ l = []) :=
  makes_log (log_foreign _) <| asks_metric <| asks_metric <| makes_log (log_foreign _) <|
    makes_respond rfl

theorem createDevice_asks (req : Request) :
    databaseView.Makes faultySystem.code (Routine.createDevice req).run (fun l _ ↦ l = []) :=
  makes_log (log_foreign _) <| makes_log (log_foreign _) <| asks_metric <| asks_metric <|
    makes_respond rfl

theorem checkCredentials_foreign (username password client_ip : Str) {g : Bool × Str → Routine β}
    (h : ∀ a, databaseView.Makes faultySystem.code (g a).run R) :
    databaseView.Makes faultySystem.code
      (Routine.checkCredentials username password client_ip >>= g).run R := by
  unfold Routine.checkCredentials
  split_ifs
  all_goals
    rw [bind_assoc]
    exact makes_log (log_foreign _) (h _)

theorem loginFailed_asks (clock : Clock) (req : Request) (what : Str) :
    databaseView.Makes faultySystem.code (Routine.loginFailed clock req what).run
      (fun l _ ↦ l = []) :=
  makes_log (log_foreign _) <| makes_log (log_foreign _) <| asks_metric <| asks_metric <|
    makes_respond rfl

theorem createFailed_asks (clock : Clock) (what : Str) :
    databaseView.Makes faultySystem.code (Routine.createFailed clock what).run
      (fun l res ↦ l = [] ∧ res = dumped 400 (failureJson what)) :=
  asks_metric <| asks_metric <| asks_metric <| makes_respond ⟨rfl, rfl⟩

variable [Platform]

theorem login_asks (clock : Clock) (req : Request) :
    databaseView.Makes faultySystem.code (Routine.login clock req).run (fun l _ ↦ l = []) := by
  refine .try_catch (.except_bind (fun a _ ↦ ?_) fun e _ ↦ loginFailed_asks clock req e)
  refine makes_log (log_foreign _) (checkCredentials_foreign _ _ _ fun _ ↦ ?_)
  refine makes_log (log_foreign _) (asks_metric (asks_metric (makes_respond ?_)))
  split
  · rfl
  · exact loginFailed_asks clock req _

omit [Postgres] [Platform] in
theorem created_valid (success : Bool) : (createdJson success).Valid := by
  cases success <;> decide

/-- A record is added if the body of the request is one. -/
def Created (x : Faults × Arrival) (l : List ((Faults × Call) × Reply))
    (res : Except Str Response) : Prop :=
  match Platform.parse x.2.request.body >>= readRecord with
  | .ok record => Listed x (.addServiceRecord record) (fun r ↦ createdJson (toBool r)) l res
  | .error what => l = [] ∧ res = dumped 400 (failureJson what)

/-- The calls to the database for a request, and what its response makes of their replies. -/
def Asked (x : Faults × Arrival) (l : List ((Faults × Call) × Reply))
    (res : Except Str Response) : Prop :=
  match x.2.route with
  | .api .testDb => Listed x .testConnection (fun r ↦ connectedJson x.2.clock (toBool r)) l res
  | .api .getDevices =>
    Listed x .getAllDevices (fun r ↦ .array ((toDevices r).map deviceJson)) l res
  | .api .getServiceTypes =>
    Listed x .getAllServiceTypes (fun r ↦ .array ((toServiceTypes r).map serviceTypeJson)) l res
  | .api .getServiceHistory =>
    Listed x .getDetailedServiceHistory
      (fun r ↦ .array ((toDetailedHistory r).map detailedRecordJson)) l res
  | .api .getServiceRecords =>
    Listed x .getAllServiceRecords
      (fun r ↦ .array ((toServiceRecords r).map serviceRecordJson)) l res
  | .api .createServiceRecord => Created x l res
  | .api .login | .api .logout | .api .createDevice | .metrics | .index | .static _ => l = []

theorem createServiceRecord_asks (x : Faults × Arrival) :
    databaseView.Makes faultySystem.code
      (Routine.createServiceRecord x.1 x.2.clock x.2.request).run (Created x) := by
  refine .try_catch (.except_bind (fun record hok ↦ ?_) fun what herror ↦ ?_)
  · refine asks_ask fun r ↦ asks_metric (asks_metric (asks_metric ?_))
    refine makes_respond_valid (created_valid (toBool r)) ?_
    simp only [Created, hok]
    exact ⟨r, rfl, (dumped_valid (created_valid (toBool r))).symm⟩
  · refine (createFailed_asks x.2.clock what).mono fun l res hl ↦ ?_
    simp only [Created, herror]
    exact hl

theorem routine_asks (x : Faults × Arrival) :
    databaseView.Makes faultySystem.code (server.code x) (Asked x) := by
  obtain ⟨f, route, req, clock⟩ := x
  have hnone : ∀ {p : Routine Response}, (∀ l res, l = [] → Asked (f, ⟨route, req, clock⟩) l res) →
      databaseView.Makes faultySystem.code p.run (fun l _ ↦ l = []) →
      databaseView.Makes faultySystem.code p.run (Asked (f, ⟨route, req, clock⟩)) :=
    fun h hp ↦ hp.mono h
  cases route with
  | metrics => exact hnone (fun _ _ h ↦ h) (asks_measure fun _ ↦ .pure_run rfl)
  | index =>
    refine hnone (fun _ _ h ↦ h) ?_
    show databaseView.Makes _ (Routine.indexHandler).run _
    unfold Routine.indexHandler
    split <;> exact .pure_run rfl
  | static filename =>
    refine hnone (fun _ _ h ↦ h) ?_
    show databaseView.Makes _ (Routine.staticHandler filename).run _
    unfold Routine.staticHandler
    split <;> exact .pure_run rfl
  | api route =>
    cases route with
    | testDb => exact testDb_asks f clock
    | login => exact hnone (fun _ _ h ↦ h) (login_asks clock req)
    | logout => exact hnone (fun _ _ h ↦ h) (logout_asks req)
    | createDevice => exact hnone (fun _ _ h ↦ h) (createDevice_asks req)
    | getDevices | getServiceTypes | getServiceHistory | getServiceRecords =>
      exact listing_asks f clock _ _ _ _
    | createServiceRecord => exact createServiceRecord_asks (f, ⟨_, req, clock⟩)

end Database

section Metrics

open Metrics

/-- What a reading route records. -/
def readCalls (clock : Clock) (path operation : Str) (success : Bool) : List Metrics.Call :=
  [.recordHttpRequest "GET".toList path 200 clock.seconds, .recordDbOperation operation success]

def createCalls (clock : Clock) (id : ℤ) (success : Bool) : List Metrics.Call :=
  [.recordServiceOperation "create".toList id success,
    .recordDbOperation "add_service_record".toList success,
    .recordHttpRequest "POST".toList "/api/service-history".toList (if success then 200 else 400)
      clock.seconds]

def loginCalls (clock : Clock) (username : Str) (success : Bool) (code : ℤ) : List Metrics.Call :=
  [.recordAuthAttempt username success,
    .recordHttpRequest "POST".toList "/api/login".toList code clock.seconds]

/-- What the registry is told of a request, beside the response that the client gets. -/
def Recorded (x : Faults × Arrival) [Platform] (js : List Metrics.Call)
    (res : Except Str Response) : Prop :=
  match x.2.route with
  | .metrics => js = [.format]
  | .index | .static _ => js = []
  | .api .testDb => ∃ connected,
    js = readCalls x.2.clock "/api/test-db".toList "test_connection".toList connected ∧
      res = dumped 200 (connectedJson x.2.clock connected)
  | .api .getDevices => js = readCalls x.2.clock "/api/devices".toList "get_devices".toList true
  | .api .getServiceTypes =>
    js = readCalls x.2.clock "/api/service-types".toList "get_service_types".toList true
  | .api .getServiceHistory =>
    js = readCalls x.2.clock "/api/service-history".toList "get_service_history".toList true
  | .api .getServiceRecords =>
    js = readCalls x.2.clock "/api/service-records".toList "get_service_records".toList true
  | .api .createDevice =>
    js = [.recordDeviceOperation "create_blocked".toList (-1) false,
      .recordHttpRequest "POST".toList "/api/devices".toList 403 (1 / 1000)]
  | .api .logout =>
    js = [.recordHttpRequest "POST".toList "/api/logout".toList 200 (1 / 1000),
      .recordDbOperation "logout".toList true]
  | .api .createServiceRecord =>
    match Platform.parse x.2.request.body >>= readRecord with
    | .ok _ => ∃ success : Bool, js = createCalls x.2.clock (if success then 1 else -1) success ∧
      res = dumped 200 (createdJson success)
    | .error what => js = createCalls x.2.clock (-1) false ∧ res = dumped 400 (failureJson what)
  | .api .login =>
    match Platform.parse x.2.request.body >>= readCredentials with
    | .ok (username, password) =>
      let success : Bool := Accepted username password
      let code := if success then 200 else 401
      js = loginCalls x.2.clock username success code ∧
        ∃ message, res = .ok (.json code (loginJson username message success))
    | .error what => js = loginCalls x.2.clock "unknown".toList false 400 ∧
      res = dumped 400 (failureJson what)

variable {β : Type} {R : List (Metrics.Call × List Printed) → Except Str β → Prop}

theorem log_foreign' (entry : LogCall) : metricsView.Foreign (.log entry) := fun _ ↦ nofun

theorem ask_foreign {α : Type} (p : Program FaultyOp FaultyAns α) :
    Only metricsView.Foreign (databaseView.embed p) := by
  induction p with
  | ret r => trivial
  | call op k ih => exact ⟨fun _ ↦ nofun, fun a ↦ ih a⟩

theorem measures_ask {f : Faults} {j : Database.Call} {g : Reply → Routine β}
    (h : ∀ r, metricsView.Makes Metrics.code (g r).run R) :
    metricsView.Makes Metrics.code (Routine.ask f j >>= g).run R :=
  .lift_bind (ask_foreign _) h

theorem measures_metric {c : Metrics.Call} {g : Unit → Routine β}
    (h : ∀ r, metricsView.Makes Metrics.code (g ()).run (fun l r' ↦ R ((c, r) :: l) r')) :
    metricsView.Makes Metrics.code (Routine.metric c >>= g).run R := by
  rw [metric_bind]
  exact .sub_bind h

theorem measures_check (username password client_ip : Str) {g : Bool × Str → Routine β}
    (h : ∀ message, Utf8.Valid message →
      metricsView.Makes Metrics.code (g (decide (Accepted username password), message)).run R) :
    metricsView.Makes Metrics.code
      (Routine.checkCredentials username password client_ip >>= g).run R := by
  unfold Routine.checkCredentials
  split_ifs with hadmin huser
  · rw [show decide (Accepted username password) = true from decide_eq_true (.inl hadmin)] at h
    rw [bind_assoc]
    exact makes_log (log_foreign' _) (h _ (by decide))
  · rw [show decide (Accepted username password) = true from decide_eq_true (.inr huser)] at h
    rw [bind_assoc]
    exact makes_log (log_foreign' _) (h _ (by decide))
  · rw [show decide (Accepted username password) = false from
      decide_eq_false (not_or.mpr ⟨hadmin, huser⟩)] at h
    rw [bind_assoc]
    exact makes_log (log_foreign' _) (h _ (by decide))

theorem listing_measures (f : Faults) (clock : Clock) (path operation : Str) (j : Database.Call)
    (toJson : Reply → Json) :
    metricsView.Makes Metrics.code (Routine.listing f clock path operation j toJson).run
      (fun l _ ↦ l.map Prod.fst = readCalls clock path operation true) :=
  measures_ask fun _ ↦ measures_metric fun _ ↦ measures_metric fun _ ↦ makes_respond rfl

theorem testDb_measures (f : Faults) (clock : Clock) :
    metricsView.Makes Metrics.code (Routine.testDb f clock).run (fun l res ↦ ∃ connected,
      l.map Prod.fst =
        readCalls clock "/api/test-db".toList "test_connection".toList connected ∧
          res = dumped 200 (connectedJson clock connected)) :=
  measures_ask fun r ↦ measures_metric fun _ ↦ measures_metric fun _ ↦
    makes_respond ⟨toBool r, rfl, rfl⟩

theorem loginFailed_measures (clock : Clock) (req : Request) (what : Str) :
    metricsView.Makes Metrics.code (Routine.loginFailed clock req what).run (fun l res ↦
      l.map Prod.fst = loginCalls clock "unknown".toList false 400 ∧
        res = dumped 400 (failureJson what)) :=
  makes_log (log_foreign' _) <| makes_log (log_foreign' _) <| measures_metric fun _ ↦
    measures_metric fun _ ↦ makes_respond ⟨rfl, rfl⟩

theorem createFailed_measures (clock : Clock) (what : Str) :
    metricsView.Makes Metrics.code (Routine.createFailed clock what).run (fun l res ↦
      l.map Prod.fst = createCalls clock (-1) false ∧ res = dumped 400 (failureJson what)) :=
  measures_metric fun _ ↦ measures_metric fun _ ↦ measures_metric fun _ ↦ makes_respond ⟨rfl, rfl⟩

/-- What the registry has been told by the time a request is answered. -/
def Measured [Platform] (x : Faults × Arrival) (l : List (Metrics.Call × List Printed))
    (res : Except Str Response) : Prop := Recorded x (l.map Prod.fst) res

variable [Platform]

theorem login_measures (x : Faults × Arrival) (h : x.2.route = .api .login) :
    metricsView.Makes Metrics.code (Routine.login x.2.clock x.2.request).run (Measured x) := by
  refine .try_catch (.except_bind (fun a hok ↦ ?_) fun what herror ↦ ?_)
  · obtain ⟨username, password⟩ := a
    have hu : Utf8.Valid username := (carries_iff.mpr hok).valid
    refine makes_log (log_foreign' _) (measures_check _ _ _ fun message hm ↦ ?_)
    refine makes_log (log_foreign' _) (measures_metric fun _ ↦ measures_metric fun _ ↦ ?_)
    refine makes_respond_valid (loginJson_valid _ hu hm) ?_
    simp only [Measured, Recorded, h, hok]
    exact ⟨rfl, message, rfl⟩
  · refine (loginFailed_measures x.2.clock x.2.request what).mono fun l res hl ↦ ?_
    simp only [Measured, Recorded, h, herror]
    exact hl

theorem createServiceRecord_measures (x : Faults × Arrival)
    (h : x.2.route = .api .createServiceRecord) :
    metricsView.Makes Metrics.code
      (Routine.createServiceRecord x.1 x.2.clock x.2.request).run (Measured x) := by
  refine .try_catch (.except_bind (fun record hok ↦ ?_) fun what herror ↦ ?_)
  · refine measures_ask fun r ↦ measures_metric fun _ ↦ measures_metric fun _ ↦
      measures_metric fun _ ↦ ?_
    refine makes_respond_valid (created_valid (toBool r)) ?_
    simp only [Measured, Recorded, h, hok]
    exact ⟨toBool r, rfl, (dumped_valid (created_valid (toBool r))).symm⟩
  · refine (createFailed_measures x.2.clock what).mono fun l res hl ↦ ?_
    simp only [Measured, Recorded, h, herror]
    exact hl

theorem routine_measures [Postgres] (x : Faults × Arrival) :
    metricsView.Makes Metrics.code (server.code x) (Measured x) := by
  obtain ⟨f, route, req, clock⟩ := x
  cases route with
  | metrics => exact .sub_bind fun _ ↦ .pure_run rfl
  | index =>
    show metricsView.Makes _ (Routine.indexHandler).run _
    unfold Routine.indexHandler
    split <;> exact .pure_run rfl
  | static filename =>
    show metricsView.Makes _ (Routine.staticHandler filename).run _
    unfold Routine.staticHandler
    split <;> exact .pure_run rfl
  | api route =>
    cases route with
    | testDb => exact testDb_measures f clock
    | login => exact login_measures (f, ⟨_, req, clock⟩) rfl
    | logout =>
      exact makes_log (log_foreign' _) <| measures_metric fun _ ↦ measures_metric fun _ ↦
        makes_log (log_foreign' _) <| makes_respond rfl
    | createDevice =>
      exact makes_log (log_foreign' _) <| makes_log (log_foreign' _) <| measures_metric fun _ ↦
        measures_metric fun _ ↦ makes_respond rfl
    | getDevices | getServiceTypes | getServiceHistory | getServiceRecords =>
      exact (listing_measures f clock _ _ _ _).mono fun _ _ h ↦ h
    | createServiceRecord => exact createServiceRecord_measures (f, ⟨_, req, clock⟩) rfl

end Metrics

end ServiceSystem.WebServer
