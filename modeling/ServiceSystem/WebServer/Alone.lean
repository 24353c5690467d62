import ServiceSystem.WebServer.Concurrency

namespace ServiceSystem.WebServer

open Foundations Program Interleaving Database Logging

variable [Postgres] [Platform] {α β : Type}

/-- The same exception, or values that correspond. -/
def Alike (R : α → β → Prop) : Except Str α → Except Str β → Prop
  | .ok a, .ok b => R a b
  | .error e, .error e' => e = e'
  | _, _ => False

def logged (es : List Event) : List LogCall :=
  es.filterMap fun
    | .log entry => some entry
    | .metric _ => none

/-- The objects that threads share, and what handlers pass on from one to the next, where the calls
of the database meet the troubles `fs` and the log held `past` before. -/
structure Mirrors (past : List LogCall) (fs : List Faults) (s : Shared) (w : World Backend) :
    Prop where
  connection : s.connection.facing .healthy = w.db.connection.facing .healthy
  faults : w.db.faults = fs
  metrics : s.metrics = ⟨w.metrics, false⟩
  log : s.log = past ++ logged w.events

/-- Run alone, `p` does to the shared objects what `q` does. -/
def Simulates (fs fs' : List Faults) (R : α → β → Prop) (p : Routine α) (q : Handler Backend β) :
    Prop :=
  ∀ past s w, Mirrors past fs s w →
    Alike R (p.run.run serverExec s).1 (q w).1 ∧ Mirrors past fs' (p.run.run serverExec s).2 (q w).2

/-- And neither throws. -/
def SimulatesOk (fs fs' : List Faults) (R : α → β → Prop) (p : Routine α) (q : Handler Backend β) :
    Prop :=
  ∀ past s w, Mirrors past fs s w → ∃ a b, (p.run.run serverExec s).1 = .ok a ∧
    (q w).1 = .ok b ∧ R a b ∧ Mirrors past fs' (p.run.run serverExec s).2 (q w).2

section Rules

variable {γ δ : Type} {fs fs' fs'' : List Faults} {R : α → β → Prop} {T : γ → δ → Prop}
  {p : Routine α} {q : Handler Backend β} {g : α → Routine γ} {h : β → Handler Backend δ}

theorem SimulatesOk.simulates (hp : SimulatesOk fs fs' R p q) : Simulates fs fs' R p q := by
  intro past s w hw
  obtain ⟨a, b, ha, hb, hab, hw'⟩ := hp past s w hw
  refine ⟨?_, hw'⟩
  rw [ha, hb]
  exact hab

theorem run_bind_ok {s : Shared} {a : α} (ha : (p.run.run serverExec s).1 = .ok a) :
    ((p >>= g).run.run serverExec s) = (g a).run.run serverExec (p.run.run serverExec s).2 := by
  show Program.run serverExec (p.run >>= ExceptT.bindCont g) s = _
  rw [run_bind, ha]
  rfl

omit [Platform] in
theorem handler_bind_ok {w : World Backend} {b : β} (hb : (q w).1 = .ok b) :
    (q >>= h) w = h b (q w).2 := by
  rw [Handler.bind_apply]
  rcases hq : q w with ⟨e | b', w'⟩
  · rw [hq] at hb
    cases hb
  · rw [hq] at hb
    cases hb
    rfl

theorem SimulatesOk.bind (hp : SimulatesOk fs fs' R p q)
    (hg : ∀ a b, R a b → Simulates fs' fs'' T (g a) (h b)) :
    Simulates fs fs'' T (p >>= g) (q >>= h) := by
  intro past s w hw
  obtain ⟨a, b, ha, hb, hab, hw'⟩ := hp past s w hw
  rw [run_bind_ok ha, handler_bind_ok hb]
  exact hg a b hab past _ _ hw'

theorem SimulatesOk.bind_ok (hp : SimulatesOk fs fs' R p q)
    (hg : ∀ a b, R a b → SimulatesOk fs' fs'' T (g a) (h b)) :
    SimulatesOk fs fs'' T (p >>= g) (q >>= h) := by
  intro past s w hw
  obtain ⟨a, b, ha, hb, hab, hw'⟩ := hp past s w hw
  rw [run_bind_ok ha, handler_bind_ok hb]
  exact hg a b hab past _ _ hw'

theorem SimulatesOk.pure {a : α} {b : β} (hab : R a b) :
    SimulatesOk fs fs R (Pure.pure a) (Pure.pure b) :=
  fun _ _ _ hw ↦ ⟨a, b, rfl, rfl, hab, hw⟩

theorem simulates_attempt {x : Except Str γ} {g : γ → Routine α} {h : γ → Handler Backend β}
    (hok : ∀ a, x = .ok a → Simulates fs fs' R (g a) (h a)) (herror : ∀ e, x = .error e → fs = fs') :
    Simulates fs fs' R (Routine.attempt x >>= g) (Handler.attempt x >>= h) := by
  cases x with
  | ok a => exact hok a rfl
  | error e =>
    obtain rfl := herror e rfl
    exact fun _ _ _ hw ↦ ⟨rfl, hw⟩

theorem simulates_catch {handler : Str → Routine α} {handler' : Str → Handler Backend β}
    (hp : Simulates fs fs' R p q) (hh : ∀ e, Simulates fs' fs' R (handler e) (handler' e)) :
    Simulates fs fs' R (tryCatch p handler) (tryCatch q handler') := by
  intro past s w hw
  obtain ⟨halike, hw'⟩ := hp past s w hw
  have hrun : (tryCatch p handler).run.run serverExec s =
      match p.run.run serverExec s with
      | (.ok a, s) => (.ok a, s)
      | (.error e, s) => (handler e).run.run serverExec s := by
    show Program.run serverExec (p.run >>= _) s = _
    rw [run_bind]
    rcases p.run.run serverExec s with ⟨e | a, s'⟩ <;> rfl
  rw [hrun, Handler.tryCatch_apply]
  rcases hps : p.run.run serverExec s with ⟨e | a, s'⟩ <;> rcases hqw : q w with ⟨e' | b, w'⟩ <;>
    rw [hps, hqw] at halike hw'
  · obtain rfl : e = e' := halike
    exact hh e past _ _ hw'
  · exact halike.elim
  · exact halike.elim
  · exact ⟨halike, hw'⟩

theorem simulates_respond (code : ℤ) (j : Json) :
    Simulates fs fs Eq (Routine.respond code j) (respond code j : Handler Backend Response) := by
  refine simulates_attempt (fun _ _ ↦ ?_) fun _ _ ↦ rfl
  exact (SimulatesOk.pure rfl).simulates

end Rules

section Primitives

variable {fs : List Faults} {past : List LogCall} {s : Shared} {w : World Backend}

theorem metricsView_run (p : Program Metrics.Op Metrics.Ans α) (s : Shared) :
    (metricsView.embed p).run serverExec s =
      ((p.run (Metrics.exec Platform.order) s.metrics).1,
        { s with metrics := (p.run (Metrics.exec Platform.order) s.metrics).2 }) := by
  induction p generalizing s with
  | ret r => rfl
  | call op k ih => exact ih _ _

theorem databaseView_run (p : Program FaultyOp FaultyAns α) (s : Shared) :
    (databaseView.embed p).run serverExec s =
      ((p.run execUnder s.connection).1,
        { s with connection := (p.run execUnder s.connection).2 }) := by
  induction p generalizing s with
  | ret r => rfl
  | call op k ih => exact ih _ _

omit [Postgres] [Platform] in
/-- Run alone, a call of the registry leaves its mutex as free as it was. -/
theorem code_run (order : Metrics.IterationOrder) (m : Metrics.MetricsRegistry) (j : Metrics.Call) :
    ((Metrics.code j).run (Metrics.exec order) ⟨m, false⟩).2 = ⟨Metrics.perform order m j, false⟩ := by
  cases j with
  | format =>
    rw [Metrics.perform_format]
    simp [Metrics.code, Metrics.formatProgram, Metrics.exec, Metrics.printItems_run]
  | recordAuthAttempt username success => cases success <;> rfl
  | initializeMetrics | recordHttpRequest | recordDbOperation | recordDeviceOperation |
    recordServiceOperation => rfl

omit [Postgres] [Platform] in
theorem logged_append (es es' : List Event) : logged (es ++ es') = logged es ++ logged es' :=
  List.filterMap_append

theorem simulates_log (entry : LogCall) :
    SimulatesOk fs fs Eq (Routine.log entry) (Handler.log entry) := by
  intro past s w hw
  refine ⟨(), (), rfl, rfl, rfl, hw.connection, hw.faults, hw.metrics, ?_⟩
  show s.log ++ [entry] = past ++ logged (w.events ++ [.log entry])
  rw [logged_append, hw.log, List.append_assoc]
  rfl

theorem simulates_metric (call : Metrics.Call) :
    SimulatesOk fs fs Eq (Routine.metric call) (Handler.metric call) := by
  intro past s w hw
  have hrun : (Routine.metric call).run.run serverExec s =
      (.ok (), { s with metrics := ⟨Metrics.perform Platform.order w.metrics call, false⟩ }) := by
    rw [Routine.metric, Routine.measure, lift_bind_run, run_bind, metricsView_run, hw.metrics,
      code_run]
    rfl
  rw [hrun]
  refine ⟨(), (), rfl, rfl, rfl, hw.connection, hw.faults, rfl, ?_⟩
  show s.log = past ++ logged (w.events ++ [.metric call])
  rw [logged_append, hw.log]
  exact congrArg (past ++ ·) (List.append_nil _).symm

omit [Platform] in
theorem facing_eq {c c' : Connection} (h : c.facing .healthy = c'.facing .healthy) (f : Faults) :
    c.facing f = c'.facing f := by
  rw [← facing_facing c .healthy f, h, facing_facing]

theorem simulates_ask {f : Faults} {j : Database.Call} {γ : Type} {method : Program Op Ans (Outcome γ)}
    {k : γ → Reply} (hj : Database.code j = returning k method) (operation : Str) :
    SimulatesOk (f :: fs) fs (fun r a ↦ r = k a) (Routine.ask f j)
      (Handler.database (Backend.call operation method)) := by
  intro past s w hw
  have hcurrent : w.db.current = s.connection.facing f := by
    rw [facing_eq hw.connection f, Backend.current, hw.faults]
    rfl
  have hrun : (Routine.ask f j).run.run serverExec s =
      (.ok (k (method.run exec w.db.current).1.value),
        { s with connection := (method.run exec w.db.current).2.facing s.connection.faults }) := by
    show Program.run serverExec
      (databaseView.embed (under f (Database.code j)) >>= fun a ↦ Program.ret (Except.ok a)) s = _
    rw [run_bind, databaseView_run, under_run, hj, returning, run_bind, hcurrent]
    rfl
  rw [hrun]
  refine ⟨_, _, rfl, rfl, rfl, facing_facing _ _ _, ?_, hw.metrics, hw.log⟩
  show w.db.faults.tail = fs
  rw [hw.faults]
  rfl

end Primitives

section Routes

variable {fs : List Faults} {clock : Clock} {req : Request}

theorem simulates_listing {f : Faults} {path operation : Str} {j : Database.Call} {γ : Type}
    {R : Reply → γ → Prop} {method : Backend → Except Str γ × Backend} {toJson : Reply → Json}
    {toJson' : γ → Json} (hmethod : SimulatesOk (f :: fs) fs R (Routine.ask f j)
      (Handler.database method)) (hjson : ∀ r a, R r a → toJson r = toJson' a) :
    Simulates (f :: fs) fs Eq (Routine.listing f clock path operation j toJson)
      (listing path operation method toJson' clock) := by
  refine hmethod.bind fun r a hra ↦ (simulates_metric _).bind fun _ _ _ ↦
    (simulates_metric _).bind fun _ _ _ ↦ ?_
  rw [hjson r a hra]
  exact simulates_respond _ _

theorem simulates_testDb (f : Faults) :
    Simulates (f :: fs) fs Eq (Routine.testDb f clock) (testDb clock) := by
  refine (simulates_ask (k := .bool) rfl _).bind fun r connected hr ↦ ?_
  subst hr
  exact (simulates_metric _).bind fun _ _ _ ↦ (simulates_metric _).bind fun _ _ _ ↦
    simulates_respond _ _

theorem simulates_logout : Simulates fs fs Eq (Routine.logout req) (logout req) :=
  (simulates_log _).bind fun _ _ _ ↦ (simulates_metric _).bind fun _ _ _ ↦
    (simulates_metric _).bind fun _ _ _ ↦ (simulates_log _).bind fun _ _ _ ↦ simulates_respond _ _

theorem simulates_createDevice :
    Simulates fs fs Eq (Routine.createDevice req) (createDevice req) :=
  (simulates_log _).bind fun _ _ _ ↦ (simulates_log _).bind fun _ _ _ ↦
    (simulates_metric _).bind fun _ _ _ ↦ (simulates_metric _).bind fun _ _ _ ↦
      simulates_respond _ _

theorem simulates_check (username password client_ip : Str) :
    SimulatesOk fs fs Eq (Routine.checkCredentials username password client_ip)
      (checkCredentials username password client_ip) := by
  unfold Routine.checkCredentials checkCredentials
  split_ifs
  all_goals exact (simulates_log _).bind_ok fun _ _ _ ↦ .pure rfl

theorem simulates_login : Simulates fs fs Eq (Routine.login clock req) (login clock req) := by
  refine simulates_catch (simulates_attempt (fun a _ ↦ ?_) fun _ _ ↦ rfl) fun what ↦ ?_
  · refine (simulates_log _).bind fun _ _ _ ↦ (simulates_check _ _ _).bind fun x y hxy ↦ ?_
    subst hxy
    exact (simulates_log _).bind fun _ _ _ ↦ (simulates_metric _).bind fun _ _ _ ↦
      (simulates_metric _).bind fun _ _ _ ↦ simulates_respond _ _
  · exact (simulates_log _).bind fun _ _ _ ↦ (simulates_log _).bind fun _ _ _ ↦
      (simulates_metric _).bind fun _ _ _ ↦ (simulates_metric _).bind fun _ _ _ ↦
        simulates_respond _ _

theorem simulates_create (f : Faults) (record : ServiceRecord)
    (h : Platform.parse req.body >>= readRecord = .ok record) :
    Simulates (f :: fs) fs Eq (Routine.createServiceRecord f clock req)
      (createServiceRecord clock req) := by
  unfold Routine.createServiceRecord createServiceRecord
  refine simulates_catch ?_ fun what ↦ (simulates_metric _).bind fun _ _ _ ↦
    (simulates_metric _).bind fun _ _ _ ↦ (simulates_metric _).bind fun _ _ _ ↦
      simulates_respond _ _
  rw [h]
  refine simulates_attempt (fun a ha ↦ ?_) fun e he ↦ nomatch he
  refine (simulates_ask (k := .bool) rfl _).bind fun r success hr ↦ ?_
  subst hr
  exact (simulates_metric _).bind fun _ _ _ ↦ (simulates_metric _).bind fun _ _ _ ↦
    (simulates_metric _).bind fun _ _ _ ↦ simulates_respond _ _

theorem simulates_unread (f : Faults) {what : Str}
    (h : Platform.parse req.body >>= readRecord = .error what) :
    Simulates fs fs Eq (Routine.createServiceRecord f clock req) (createServiceRecord clock req) := by
  unfold Routine.createServiceRecord createServiceRecord
  refine simulates_catch ?_ fun what ↦ (simulates_metric _).bind fun _ _ _ ↦
    (simulates_metric _).bind fun _ _ _ ↦ (simulates_metric _).bind fun _ _ _ ↦
      simulates_respond _ _
  rw [h]
  exact simulates_attempt (fun _ ha ↦ nomatch ha) fun _ _ ↦ rfl

theorem simulates_metricsHandler :
    Simulates fs fs Eq Routine.metricsHandler metricsHandler := by
  intro past s w hw
  have hrun : Routine.metricsHandler.run.run serverExec s =
      (.ok { (Response.new 200).set_header "Content-Type".toList
        "text/plain; version=0.0.4; charset=utf-8".toList with
          body := .text (w.metrics.format Platform.order) }, s) := by
    unfold Routine.metricsHandler
    rw [Routine.measure, lift_bind_run, run_bind, metricsView_run, hw.metrics, code_run,
      Metrics.perform_format, ← hw.metrics, ← Metrics.formatProgram_run, ← hw.metrics]
    rfl
  rw [hrun]
  exact ⟨rfl, hw⟩

theorem simulates_files {a : Routine Response} {res : Response}
    {b : Handler Backend Response} (ha : a = pure res) (hb : b = pure res) :
    Simulates fs fs Eq a b := by
  subst ha hb
  exact (SimulatesOk.pure rfl).simulates

omit [Postgres] in
/-- The request is handled by a method of the class `Database`. -/
def Arrival.asks (a : Arrival) : Bool :=
  match a.route with
  | .api .testDb | .api .getDevices | .api .getServiceTypes | .api .getServiceHistory
  | .api .getServiceRecords => true
  | .api .createServiceRecord => (Platform.parse a.request.body >>= readRecord).isOk
  | .api .login | .api .logout | .api .createDevice | .metrics | .index | .static _ => false

/-- What goes wrong in the calls of the database that the requests lead to. -/
def troubles (xs : List (Faults × Arrival)) : List Faults := (xs.filter (·.2.asks)).map (·.1)

/-- Run alone, the routine of a route does what its handler does. -/
theorem simulates_routine (x : Faults × Arrival) (xs : List (Faults × Arrival)) :
    Simulates (troubles (x :: xs)) (troubles xs) Eq
      (x.2.route.routine x.1 x.2.clock x.2.request) (x.2.route.handler x.2.clock x.2.request) := by
  obtain ⟨f, route, req, clock⟩ := x
  cases route with
  | metrics => exact simulates_metricsHandler
  | index =>
    show Simulates _ _ _ Routine.indexHandler indexHandler
    unfold Routine.indexHandler indexHandler
    cases openFile "index.html".toList <;> exact simulates_files rfl rfl
  | static filename =>
    show Simulates _ _ _ (Routine.staticHandler filename) (staticHandler filename)
    unfold Routine.staticHandler staticHandler
    cases openFile filename <;> exact simulates_files rfl rfl
  | api route =>
    cases route with
    | login => exact simulates_login
    | logout => exact simulates_logout
    | createDevice => exact simulates_createDevice
    | testDb => exact simulates_testDb f
    | getDevices =>
      exact simulates_listing (simulates_ask (k := .devices) rfl _) fun _ _ h ↦ h ▸ rfl
    | getServiceTypes =>
      exact simulates_listing (simulates_ask (k := .serviceTypes) rfl _) fun _ _ h ↦ h ▸ rfl
    | getServiceRecords =>
      exact simulates_listing (simulates_ask (k := .serviceRecords) rfl _) fun _ _ h ↦ h ▸ rfl
    | getServiceHistory =>
      refine simulates_listing (R := fun r j ↦ ∃ records, r = .detailedHistory records ∧
        j = .array (records.map detailedRecordJson)) ?_ ?_
      · intro past s w hw
        obtain ⟨r, records, hr, hrecords, heq, hw'⟩ :=
          simulates_ask (j := .getDetailedServiceHistory) (k := .detailedHistory) rfl
            "get_service_history".toList past s w hw
        refine ⟨r, _, hr, ?_, ⟨records, heq, rfl⟩, hw'⟩
        exact congrArg (Except.map fun records ↦ Json.array (records.map detailedRecordJson)) hrecords
      · intro r j h
        obtain ⟨records, rfl, rfl⟩ := h
        rfl
    | createServiceRecord =>
      cases hrecord : Platform.parse req.body >>= readRecord with
      | ok record =>
        have htroubles : troubles ((f, ⟨.api .createServiceRecord, req, clock⟩) :: xs) =
            f :: troubles xs := by
          simp [troubles, Arrival.asks, hrecord, Except.isOk, Except.toBool]
        rw [htroubles]
        exact simulates_create f record hrecord
      | error what =>
        have htroubles : troubles ((f, ⟨.api .createServiceRecord, req, clock⟩) :: xs) =
            troubles xs := by
          simp [troubles, Arrival.asks, hrecord, Except.isOk, Except.toBool]
        rw [htroubles]
        exact simulates_unread f hrecord

end Routes

def Exchange.entries (x : Exchange Backend) : List LogCall := logged x.events

/-- Where the requests have led that were handled one after the other. -/
def World.served (w : World Backend) (as : List Arrival) : World Backend :=
  as.foldl (fun w a ↦ (exchange w a).after) w

/-- The thread has given the responses of the handlers called one after the other, and the objects
that it shares with the others are as those leave them. -/
structure AsServed (s₀ s : Shared) (w : World Backend) (as : List Arrival)
    (responses : List (Except Str Response)) : Prop where
  responses : responses = (serve w as).map Exchange.reply
  connection : s.connection.facing .healthy = (w.served as).db.connection.facing .healthy
  metrics : s.metrics = ⟨(w.served as).metrics, false⟩
  log : s.log = s₀.log ++ (serve w as).flatMap Exchange.entries

omit [Platform] in
theorem Mirrors.fresh {past : List LogCall} {fs : List Faults} {s : Shared} {w : World Backend}
    (h : Mirrors past fs s w) : Mirrors s.log fs s { w with events := [] } :=
  ⟨h.connection, h.faults, h.metrics, (List.append_nil _).symm⟩

theorem serial_served {ι : Type} (i : ι) (xs : List (Faults × Arrival)) {past : List LogCall}
    {s : Shared} {w : World Backend} (hw : Mirrors past (troubles xs) s w) :
    AsServed s (serial server (xs.map (i, ·)) s).2 w (xs.map Prod.snd)
      ((serial server (xs.map (i, ·)) s).1.map (·.2.2)) := by
  induction xs generalizing past s w with
  | nil => exact ⟨rfl, hw.connection, hw.metrics, (List.append_nil _).symm⟩
  | cons x xs ih =>
    obtain ⟨halike, hw'⟩ := simulates_routine x xs s.log s _ hw.fresh
    obtain ⟨hresponses, hconnection, hmetrics, hlog⟩ := ih (w := (exchange w x.2).after) hw'
    have hreply : ((server.code x).run serverExec s).1 = (exchange w x.2).reply := by
      have hboth : Alike Eq ((server.code x).run serverExec s).1 (exchange w x.2).reply := halike
      revert hboth
      cases ((server.code x).run serverExec s).1 <;> cases (exchange w x.2).reply
      · exact congrArg _
      · exact False.elim
      · exact False.elim
      · exact congrArg _
    refine ⟨congrArg₂ List.cons hreply hresponses, hconnection, hmetrics, ?_⟩
    rw [List.map_cons, serial]
    refine hlog.trans ?_
    rw [hw'.log, List.append_assoc]
    rfl

theorem alone_as_served {ι : Type} [DecidableEq ι] {s₀ : Shared}
    {calls : ι → List (Faults × Arrival)}
    {c : Config ι (Faults × Arrival) ServerOp ServerAns (Except Str Response) Shared} {i : ι}
    {past : List LogCall} {w : World Backend} (hothers : ∀ k, k ≠ i → calls k = [])
    (h : Reaches server anyStep (initial s₀ calls) c) (hf : Finished c)
    (hw : Mirrors past (troubles (calls i)) s₀ w) :
    AsServed s₀ c.shared w ((calls i).map Prod.snd) ((c.thread i).done.map (·.2.2)) := by
  obtain ⟨hreplies, hstate⟩ := sole hothers h hf
  have hdone : (c.thread i).done.map (·.2.2) = (replies (c.thread i)).map (·.2) := by
    rw [replies, List.map_map]
    rfl
  rw [hdone, hreplies, hstate, List.map_map]
  exact serial_served i (calls i) hw

def errands (i : Fin 2) : List (Faults × Arrival) :=
  if i = 0 then visitors 0 ++ visitors 1 else []

def openedWorld : World (@Backend isoDates) :=
  letI := isoDates
  ⟨⟨opened.connection, [.healthy, .healthy], []⟩, .empty, []⟩

def errandsRun : Config (Fin 2) (Faults × Arrival) ServerOp ServerAns (Except Str Response)
    (@Shared isoDates) :=
  letI := isoDates
  letI := submissionPlatform
  played server (initial opened errands) (List.replicate 30 0)

omit [Postgres] [Platform] in
theorem errandsRun_finished : Finished errandsRun := by decide +kernel

omit [Postgres] [Platform] in
theorem alone_as_served_errands : @AsServed isoDates submissionPlatform opened errandsRun.shared
    openedWorld ((errands 0).map Prod.snd) ((errandsRun.thread 0).done.map (·.2.2)) :=
  letI := isoDates
  letI := submissionPlatform
  have hw : Mirrors [] (troubles (errands 0)) opened openedWorld :=
    ⟨rfl, by decide +kernel, rfl, rfl⟩
  alone_as_served (c := errandsRun) (fun _ hk ↦ if_neg hk)
    (.played (initial opened errands) (List.replicate 30 0)) errandsRun_finished hw

end ServiceSystem.WebServer
