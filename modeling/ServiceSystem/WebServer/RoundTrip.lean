import ServiceSystem.Metrics.Keys
import ServiceSystem.Metrics.Printing
import ServiceSystem.WebServer.Traces

namespace ServiceSystem.WebServer

open Foundations Metrics Exposition

variable [Platform] {δ : Type}

/-- The registry that `setupRoutes` finds, whatever the requests that follow. -/
def startupMetrics : MetricsRegistry := MetricsRegistry.empty.initializeMetrics

def scrape (w : World δ) : Str := w.metrics.format Platform.order

def Exposes (w : World δ) : Prop := RoundTrips w.metrics (scrape w)

/-- The request is no login with a user name that would have to be escaped. -/
def PlainLogin (a : Arrival) : Prop :=
  a.route = .api .login → ∀ username password, Carries a.request.body username password →
    Plain username

theorem exposes_of_printable {w : World δ} (h : Printable w.metrics) : Exposes w :=
  h.roundTrips Platform.order

/-- The body of the response to `GET /metrics` is the text that is scraped. -/
theorem metricsHandler_body (w : World δ) :
    ∃ res, (metricsHandler w).1 = .ok res ∧ res.body = .text (scrape w) := ⟨_, rfl, rfl⟩

theorem plainly_of_mayRecord {a : Arrival} {call : Metrics.Call} (h : PlainLogin a)
    (hcall : MayRecord a.route a.request call) : call.Plainly := by
  cases call with
  | recordAuthAttempt username success =>
    obtain ⟨hroute, rfl | ⟨password, hcarries⟩⟩ := hcall
    · exact show Plain _ by decide
    · exact h hroute username password hcarries
  | initializeMetrics | format => trivial
  | recordHttpRequest | recordDbOperation | recordDeviceOperation | recordServiceOperation =>
    exact hcall

theorem events_printable {a : Arrival} (h : PlainLogin a) {es : List Event}
    (hes : ∀ e ∈ es, MayCall a.route a.request e) {m : MetricsRegistry} (hm : Printable m) :
    Printable (es.foldl Event.apply m) := by
  refine List.foldlRecOn (motive := Printable) es _ hm (fun m hm e he ↦ ?_)
  cases e with
  | log call => exact hm
  | metric call => exact hm.perform Platform.order (plainly_of_mayRecord h (hes _ he))

theorem exchange_printable {w : World δ} {a : Arrival} [DatabaseApi δ] (h : PlainLogin a)
    (hw : Printable w.metrics) : Printable (exchange w a).after.metrics := by
  obtain ⟨hmetrics, hevents⟩ := exchange_traced w a
  rw [hmetrics]
  exact events_printable h hevents hw

theorem serve_printable [DatabaseApi δ] {w : World δ} {requests : List Arrival}
    (h : ∀ a ∈ requests, PlainLogin a) (hw : Printable w.metrics) :
    ∀ x ∈ serve w requests, Printable x.before.metrics ∧ Printable x.after.metrics := by
  induction requests generalizing w with
  | nil => exact fun x hx ↦ absurd hx List.not_mem_nil
  | cons a requests ih =>
    obtain ⟨ha, hrequests⟩ := List.forall_mem_cons.mp h
    have hafter := exchange_printable ha hw
    exact List.forall_mem_cons.mpr ⟨⟨hw, hafter⟩, ih hrequests hafter⟩

theorem exchange_keyed {w : World δ} {a : Arrival} [DatabaseApi δ] (hw : w.metrics.Keyed) :
    (exchange w a).after.metrics.Keyed := by
  rw [(exchange_traced w a).1]
  refine List.foldlRecOn (motive := MetricsRegistry.Keyed) _ _ hw (fun m hm e _ ↦ ?_)
  cases e with
  | log call => exact hm
  | metric call => exact hm.perform Platform.order call

theorem exchange_rejected {w : World δ} {req : Request} (clock : Clock) [DatabaseApi δ]
    {username password : Str} (h : Carries req.body username password)
    (ha : ¬ Accepted username password) (hw : w.metrics.Keyed) :
    ∃ c s, (exchange w ⟨.api .login, req, clock⟩).after.metrics.counters.get s = some c ∧
      c.name = MetricsRegistry.authAttempts ∧ c.labels = authLabels username false := by
  have hevents : (exchange w ⟨.api .login, req, clock⟩).events =
      (login clock req { w with events := [] }).2.events := rfl
  have hlevel := exchange_level w ⟨.api .login, req, clock⟩
    ⟨MetricsRegistry.authAttempts, authLabels username false⟩
  have hkeyed := exchange_keyed (a := ⟨.api .login, req, clock⟩) hw
  have hcount : 0 < ((exchange w ⟨.api .login, req, clock⟩).events.flatMap Event.names).countP
      (· = ⟨MetricsRegistry.authAttempts, authLabels username false⟩) := by
    rw [hevents, login_rejected h ha]
    refine List.countP_pos_iff.mpr ⟨⟨MetricsRegistry.authAttempts, authLabels username false⟩,
      ?_, by simp⟩
    simp [attemptStarted, loginEvents, Event.names, Call.names]
  cases hget : (exchange w ⟨.api .login, req, clock⟩).after.metrics.counters.get
      ⟨MetricsRegistry.authAttempts, authLabels username false⟩ with
  | none =>
    rw [Families.level, hget, Option.elim_none] at hlevel
    omega
  | some c =>
    have hkey := hkeyed.counters _ c hget
    exact ⟨c, _, hget, congrArg SeriesKey.name hkey, congrArg SeriesKey.labels hkey⟩

/-- From startup, in every state that a run of requests reaches, the text of `/metrics` reads
back as what the registry holds, if no login brings a user name that has to be escaped. -/
theorem exposition_roundTrips [DatabaseApi δ] {w : World δ} {requests : List Arrival}
    (hw : w.metrics = startupMetrics) (h : ∀ a ∈ requests, PlainLogin a) :
    ∀ x ∈ serve w requests, Exposes x.before ∧ Exposes x.after := by
  have hstart : Printable w.metrics := hw ▸ Printable.empty.initializeMetrics
  intro x hx
  obtain ⟨hbefore, hafter⟩ := serve_printable h hstart x hx
  exact ⟨exposes_of_printable hbefore, exposes_of_printable hafter⟩

omit [Platform] in
theorem exposition_roundTrips_rejected :
    letI := wrongPasswordPlatform
    letI := Database.isoDates
    let w : World Backend := ⟨⟨Database.onePrinter, [], []⟩, startupMetrics, []⟩
    let x := exchange w (loginArrival (wrongPassword, ⟨0, 0⟩))
    Exposes x.before ∧ Exposes x.after := by
  let _ := wrongPasswordPlatform
  let _ := Database.isoDates
  intro w x
  have hcarries : Carries wrongPassword.body "admin".toList "wrong".toList :=
    carries_iff.mpr (by rfl)
  have hplain : ∀ a ∈ [loginArrival (wrongPassword, ⟨0, 0⟩)], PlainLogin a := by
    refine List.forall_mem_singleton.mpr fun _ username password h ↦ ?_
    have hsame := (carries_iff.mp h).symm.trans (carries_iff.mp hcarries)
    obtain ⟨rfl, -⟩ := Prod.mk.inj (Except.ok.inj hsame)
    decide
  exact exposition_roundTrips (w := w) rfl hplain x List.mem_cons_self

def quotedUser : Request where
  remote_ip_address := []
  body := "\x7b\"username\":\"a\\\"b\",\"password\":\"x\"\x7d".toList

@[reducible] def quotedUserPlatform : Platform :=
  .ofTable [(quotedUser.body, .ofEntries [("username".toList, .string "a\"b".toList),
    ("password".toList, .string "x".toList)])]

omit [Platform] in
theorem quotedUser_unreadable (n : Str) :
    line (MetricsRegistry.authAttempts ++ (authLabels "a\"b".toList false).toString ++ n) =
      none := by
  rfl

omit [Platform] in
theorem quotedUser_not_exposes : ¬ ∀ (_ : Platform) (δ : Type) (_ : DatabaseApi δ) (w : World δ)
    (requests : List Arrival), w.metrics = startupMetrics →
      ∀ x ∈ serve w requests, Exposes x.before ∧ Exposes x.after := by
  intro h
  let _ := quotedUserPlatform
  let _ := Database.isoDates
  let w : World Backend := ⟨⟨Database.onePrinter, [], []⟩, startupMetrics, []⟩
  obtain ⟨-, doc, hdoc, -⟩ := h quotedUserPlatform Backend _ w
    [⟨.api .login, quotedUser, ⟨0, 0⟩⟩] rfl _ List.mem_cons_self
  have hcarries : Carries quotedUser.body "a\"b".toList "x".toList := carries_iff.mpr (by rfl)
  obtain ⟨c, s, hget, hname, hlabels⟩ := exchange_rejected ⟨0, 0⟩ hcarries (by decide)
    (show w.metrics.Keyed from MetricsRegistry.Keyed.empty.initializeMetrics)
  have hline : c.line = MetricsRegistry.authAttempts ++
      (authLabels "a\"b".toList false).toString ++ ([' '] ++ Str.ofNat c.value) := by
    rw [Counter.line, hname, hlabels, Str.fixed_zero_natCast, List.append_assoc]
  have hnewline : '\n' ∉ c.line := by
    have hlabelled : '\n' ∉ MetricsRegistry.authAttempts ++
        (authLabels "a\"b".toList false).toString := by decide
    have hvalue : '\n' ∉ Str.ofNat c.value := fun hn ↦ absurd (Str.isDigit_ofNat hn) (by decide)
    rw [hline]
    simp only [List.mem_append, List.mem_singleton, not_or] at hlabelled ⊢
    exact ⟨hlabelled, by decide, hvalue⟩
  have hnone := format_unreadable hget hnewline (hline ▸ quotedUser_unreadable _) Platform.order
  exact absurd (hdoc.symm.trans hnone) nofun

end ServiceSystem.WebServer
