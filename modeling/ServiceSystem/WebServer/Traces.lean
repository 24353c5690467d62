import ServiceSystem.WebServer.Login

namespace ServiceSystem.WebServer

open Foundations Logging Metrics Handler Exposition

variable [Platform] {δ : Type}

/-- The calls of the registry that a request may lead to. -/
def MayRecord (route : Route) (req : Request) : Metrics.Call → Prop
  | .recordHttpRequest method path _ _ => Plain method ∧ Plain path
  | .recordDbOperation operation _ | .recordDeviceOperation operation _ _
  | .recordServiceOperation operation _ _ => Plain operation
  | .recordAuthAttempt username _ => route = .api .login ∧
    (username = "unknown".toList ∨ ∃ password, Carries req.body username password)
  | .initializeMetrics | .format => False

def MayCall (route : Route) (req : Request) : Event → Prop
  | .log _ => True
  | .metric call => MayRecord route req call

variable {clock : Clock} {route : Route} {req : Request}

theorem checkCredentials_traced (username password client_ip : Str) :
    Traced (MayCall route req)
      (checkCredentials username password client_ip : Handler δ (Bool × Str)) := by
  unfold checkCredentials
  split_ifs
  all_goals exact .bind (.emit trivial) fun _ ↦ .pure _

theorem login_traced :
    Traced (MayCall (.api .login) req) (login clock req : Handler δ Response) := by
  have hhttp : ∀ code, MayCall (.api .login) req (.metric (.recordHttpRequest "POST".toList
      "/api/login".toList code clock.seconds)) := fun _ ↦ ⟨by decide, by decide⟩
  refine .tryCatch (.attempt_bind fun credentials hc ↦ ?_) fun _ ↦ ?_
  · have hcarries := carries_iff.mpr hc
    refine .bind (.emit trivial) fun _ ↦ .bind (checkCredentials_traced _ _ _) fun _ ↦ ?_
    refine .bind (.emit trivial) fun _ ↦ .bind (.emit ⟨rfl, .inr ⟨_, hcarries⟩⟩) fun _ ↦ ?_
    exact .bind (.emit (hhttp _)) fun _ ↦ respond_traced _ _
  · refine .bind (.emit trivial) fun _ ↦ .bind (.emit trivial) fun _ ↦ ?_
    exact .bind (.emit ⟨rfl, .inl rfl⟩) fun _ ↦ .bind (.emit (hhttp _)) fun _ ↦ respond_traced _ _

theorem logout_traced : Traced (MayCall route req) (logout req : Handler δ Response) :=
  .bind (.emit trivial) fun _ ↦ .bind (.emit ⟨by decide, by decide⟩) fun _ ↦
    .bind (.emit (show Plain _ by decide)) fun _ ↦ .bind (.emit trivial) fun _ ↦ respond_traced _ _

theorem createDevice_traced : Traced (MayCall route req) (createDevice req : Handler δ Response) :=
  .bind (.emit trivial) fun _ ↦ .bind (.emit trivial) fun _ ↦
    .bind (.emit (show Plain _ by decide)) fun _ ↦ .bind (.emit ⟨by decide, by decide⟩) fun _ ↦
      respond_traced _ _

theorem listing_traced {α : Type} {path operation : Str} (hp : Plain path) (ho : Plain operation)
    (method : δ → Except Str α × δ) (toJson : α → Json) :
    Traced (MayCall route req) (listing path operation method toJson clock) :=
  .bind (.database _) fun _ ↦ .bind (.emit ⟨by decide, hp⟩) fun _ ↦ .bind (.emit ho) fun _ ↦
    respond_traced _ _

variable [DatabaseApi δ]

theorem testDb_traced : Traced (MayCall route req) (testDb clock : Handler δ Response) :=
  .bind (.database _) fun _ ↦ .bind (.emit ⟨by decide, by decide⟩) fun _ ↦
    .bind (.emit (show Plain _ by decide)) fun _ ↦ respond_traced _ _

theorem createServiceRecord_traced :
    Traced (MayCall route req) (createServiceRecord clock req : Handler δ Response) := by
  have hservice : ∀ id success, MayCall route req (.metric (.recordServiceOperation
      "create".toList id success)) := fun _ _ ↦ show Plain _ by decide
  have hdb : ∀ success, MayCall route req (.metric (.recordDbOperation "add_service_record".toList
      success)) := fun _ ↦ show Plain _ by decide
  have hhttp : ∀ code, MayCall route req (.metric (.recordHttpRequest "POST".toList
      "/api/service-history".toList code clock.seconds)) := fun _ ↦ ⟨by decide, by decide⟩
  refine .tryCatch (.bind (.attempt _) fun _ ↦ .bind (.database _) fun _ ↦ ?_) fun _ ↦ ?_
  · refine .bind (.emit (hservice _ _)) fun _ ↦ .bind (.emit (hdb _)) fun _ ↦ ?_
    exact .bind (.emit (hhttp _)) fun _ ↦ respond_traced _ _
  · refine .bind (.emit (hservice _ _)) fun _ ↦ .bind (.emit (hdb _)) fun _ ↦ ?_
    exact .bind (.emit (hhttp _)) fun _ ↦ respond_traced _ _

theorem handler_traced (route : Route) :
    Traced (MayCall route req) (route.handler clock req : Handler δ Response) := by
  cases route with
  | metrics => exact .idle fun _ ↦ rfl
  | index => exact .idle (r := fun w ↦ (indexHandler w).1) fun w ↦ Prod.ext rfl (indexHandler_snd w)
  | static filename =>
    exact .idle (r := fun w ↦ (staticHandler filename w).1) fun w ↦
      Prod.ext rfl (staticHandler_snd filename w)
  | api route =>
    cases route with
    | testDb => exact testDb_traced
    | login => exact login_traced
    | logout => exact logout_traced
    | createDevice => exact createDevice_traced
    | createServiceRecord => exact createServiceRecord_traced
    | getDevices | getServiceTypes | getServiceHistory | getServiceRecords =>
      exact listing_traced (by decide) (by decide) _ _

theorem exchange_traced (w : World δ) (a : Arrival) :
    (exchange w a).after.metrics = (exchange w a).events.foldl Event.apply w.metrics ∧
      ∀ e ∈ (exchange w a).events, MayCall a.route a.request e := by
  have htraced : Traced (MayCall a.route a.request)
      (a.route.handler a.clock a.request : Handler δ Response) := handler_traced a.route
  obtain ⟨db, es, hw, hes⟩ := htraced { w with events := [] }
  have hafter : (exchange w a).after = ({ w with events := [] }.withDb db).after es := hw
  rw [Exchange.events, hafter]
  exact ⟨rfl, hes⟩

theorem exchange_level (w : World δ) (a : Arrival) (s : SeriesKey) :
    (exchange w a).after.metrics.counters.level Counter.value s =
      w.metrics.counters.level Counter.value s +
        ((exchange w a).events.flatMap Event.names).countP (· = s) := by
  rw [(exchange_traced w a).1]
  exact w.after_level _ s

end ServiceSystem.WebServer
