import ServiceSystem.WebServer.Backend

namespace ServiceSystem.WebServer

open Foundations Logging Metrics Handler MetricsRegistry

variable [Platform] {δ : Type}

/-- The credentials that the text of a login request carries. -/
def Carries (text username password : Str) : Prop :=
  ∃ body, Platform.parse text = .ok body ∧
    body.HasField Json.get_string "username".toList username ∧
    body.HasField Json.get_string "password".toList password

def Accepted (username password : Str) : Prop :=
  username = "admin".toList ∧ password = "admin123".toList ∨
    username = "user".toList ∧ password = "user123".toList

instance (username password : Str) : Decidable (Accepted username password) :=
  inferInstanceAs (Decidable (_ ∨ _))

section Handler

variable {clock : Clock} {req : Request} {username password : Str}

omit [Platform] in
theorem readCredentials_eq_ok {body : Json} :
    readCredentials body = .ok (username, password) ↔
      body.HasField Json.get_string "username".toList username ∧
        body.HasField Json.get_string "password".toList password := by
  have hnull : ∀ s, Json.get_string .null ≠ .ok s := fun _ ↦ nofun
  simp only [readCredentials, except_bind_eq_ok, Json.get_bind_eq_ok hnull]
  constructor
  · rintro ⟨u, hu, p, hp, ⟨⟩⟩
    exact ⟨hu, hp⟩
  · rintro ⟨hu, hp⟩
    exact ⟨_, hu, _, hp, rfl⟩

theorem carries_iff : Carries req.body username password ↔
    (Platform.parse req.body >>= readCredentials) = .ok (username, password) := by
  simp only [Carries, except_bind_eq_ok, readCredentials_eq_ok]

theorem Carries.valid (h : Carries req.body username password) : Utf8.Valid username := by
  obtain ⟨body, hb, hu, -⟩ := h
  exact hu.valid (Platform.parse_valid hb)

omit [Platform] in
theorem loginJson_valid {message : Str} (success : Bool) (hu : Utf8.Valid username)
    (hm : Utf8.Valid message) : (loginJson username message success).Valid := by
  have ht : Utf8.Valid (if success then "mock-jwt-token-".toList ++ username else []) := by
    have hprefix : Utf8.Valid "mock-jwt-token-".toList := by decide
    cases success
    · rfl
    · exact hprefix.append hu
  refine Json.Valid.ofEntries ?_
  simp only [List.forall_mem_cons, Json.Valid.string_iff]
  exact ⟨⟨by decide, .boolean _⟩, ⟨by decide, hm⟩, ⟨by decide, hu⟩,
    ⟨by decide, ht⟩, by simp⟩

variable (clock req)

def loginEvents (username : Str) (success : Bool) (code : ℤ) : List Event :=
  [.log (.logRequest (clientIp req) "POST".toList "/api/login".toList code clock.duration_ms),
    .metric (.recordAuthAttempt username success),
    .metric (.recordHttpRequest "POST".toList "/api/login".toList code clock.seconds)]

def loginFailure (what : Str) : List Event :=
  [.log (.logRequest (clientIp req) "POST".toList "/api/login".toList 400 clock.duration_ms),
    .log (.inContext .ERROR ("Login error: ".toList ++ what) webserver),
    .metric (.recordAuthAttempt "unknown".toList false),
    .metric (.recordHttpRequest "POST".toList "/api/login".toList 400 clock.seconds)]

def attemptStarted (username : Str) : Event :=
  .log (.logAuth username true (clientIp req) "Login attempt started".toList)

variable {clock req}

theorem login_error {what : Str}
    (h : (Platform.parse req.body >>= readCredentials) = .error what) (w : World δ) :
    login clock req w = respond 400 (failureJson what) (w.after (loginFailure clock req what)) := by
  simp only [login, tryCatch_apply, bind_apply, attempt_apply, h, log_apply, metric_apply,
    World.after_after]
  rfl

theorem login_accepted (h : Carries req.body username password) (ha : Accepted username password)
    (w : World δ) : ∃ info message,
    login clock req w = (.ok (.json 200 (loginJson username message true)),
      w.after ([attemptStarted req username, .log (.inContext .INFO info webserver)] ++
        loginEvents clock req username true 200)) := by
  have hu := h.valid
  have hc := carries_iff.mp h
  by_cases hadmin : username = "admin".toList ∧ password = "admin123".toList
  · have hd : (loginJson username "Administrator login successful".toList true).Valid :=
      loginJson_valid true hu (by decide)
    refine ⟨"Admin user authenticated successfully".toList,
      "Administrator login successful".toList, ?_⟩
    simp only [login, checkCredentials, tryCatch_apply, bind_apply, attempt_apply, hc,
      log_apply, metric_apply,
      World.after_after, if_pos hadmin, pure_apply, if_true, respond_valid hd]
    rfl
  · have huser := ha.resolve_left hadmin
    have hd : (loginJson username "User login successful".toList true).Valid :=
      loginJson_valid true hu (by decide)
    refine ⟨"Regular user authenticated successfully".toList, "User login successful".toList, ?_⟩
    simp only [login, checkCredentials, tryCatch_apply, bind_apply, attempt_apply, hc,
      log_apply, metric_apply,
      World.after_after, if_neg hadmin, if_pos huser, pure_apply, if_true, respond_valid hd]
    rfl

theorem login_rejected (h : Carries req.body username password)
    (ha : ¬ Accepted username password) (w : World δ) :
    login clock req w = (.ok (.json 401 (loginJson username "Invalid credentials".toList false)),
      w.after ([attemptStarted req username,
        .log (.logAuth username false (clientIp req) "Invalid username or password".toList)] ++
          loginEvents clock req username false 401)) := by
  obtain ⟨hadmin, huser⟩ := not_or.mp ha
  have hc := carries_iff.mp h
  have hd : (loginJson username "Invalid credentials".toList false).Valid :=
    loginJson_valid false h.valid (by decide)
  simp only [login, checkCredentials, tryCatch_apply, bind_apply, attempt_apply, hc,
    log_apply, metric_apply,
    World.after_after, if_neg hadmin, if_neg huser, pure_apply, respond_valid hd]
  rfl

end Handler

/-- The records of the log that `logAuth` writes, with their user and success. -/
def attempts (es : List Event) : List (Str × Bool) :=
  es.filterMap fun
    | .log (.logAuth username success _ _) => some (username, success)
    | _ => none

def Response.success (res : Response) : Option Bool :=
  match res.body with
  | .json (.object entries) =>
    match OrderedMap.lookupIn "success".toList entries with
    | some (.boolean b) => some b
    | _ => none
  | _ => none

namespace Exchange

variable (x : Exchange δ)

def Answered (success : Bool) : Prop :=
  ∃ res, x.reply = .ok res ∧ res.success = some success ∧ (res.code = 200 ↔ success = true)

def Counted (username : Str) (success : Bool) : Prop :=
  ∀ s : SeriesKey, s.name = authAttempts →
    x.after.metrics.counters.level Counter.value s =
      x.before.metrics.counters.level Counter.value s +
        if s = ⟨authAttempts, authLabels username success⟩ then 1 else 0

/-- The log, the metric and the response agree on a login request. -/
structure LogsTruth : Prop where
  granted : ∀ username, (username, true) ∈ attempts x.events → x.Answered true
  once : ∀ username password, Carries x.arrival.request.body username password →
    ∃ success, attempts x.events = [(username, success)] ∧ x.Answered success ∧
      x.Counted username success

end Exchange

def loginArrival (a : Request × Clock) : Arrival := ⟨.api .login, a.1, a.2⟩

variable [DatabaseApi δ]

omit [Platform] in
theorem loginEvents_countP (clock : Clock) (req : Request) (username : Str) (success : Bool)
    (code : ℤ) {s : SeriesKey} (hs : s.name = authAttempts) :
    ((loginEvents clock req username success code).flatMap Event.names).countP (· = s) =
      if s = ⟨authAttempts, authLabels username success⟩ then 1 else 0 := by
  have hne : ∀ name l, name ≠ authAttempts → s ≠ ⟨name, l⟩ := by
    rintro name l hn rfl
    exact hn hs
  have hh := hne httpRequests (httpLabels "POST".toList "/api/login".toList (Str.ofInt code))
    (by decide)
  have hf := hne authFailures .empty (by decide)
  cases success <;>
    simp only [loginEvents, Event.names, Call.names, List.flatMap_cons, List.flatMap_nil,
      List.countP_append, List.countP_cons, List.countP_nil, decide_eq_true_eq, hh, hf,
      eq_comm (b := s), if_true, if_false, Bool.false_eq_true, Nat.zero_add, Nat.add_zero]

theorem exchange_logsTruth_iff (w : World δ) (a : Request × Clock) :
    (exchange w (loginArrival a)).LogsTruth ↔
      ∀ username password, Carries a.1.body username password → Accepted username password := by
  obtain ⟨req, clock⟩ := a
  have hexchange : exchange w (loginArrival (req, clock)) =
    ⟨loginArrival (req, clock), { w with events := [] },
      (login clock req { w with events := [] }).1,
      (login clock req { w with events := [] }).2⟩ := rfl
  constructor
  · intro h username password hc
    by_contra ha
    obtain ⟨success, hone, -⟩ := h.once username password hc
    rw [hexchange, Exchange.events, login_rejected hc ha] at hone
    simp [attempts, attemptStarted, loginEvents] at hone
  · intro h
    cases hc : (Platform.parse req.body >>= readCredentials) with
    | error what =>
      have hnone : attempts (exchange w (loginArrival (req, clock))).events = [] := by
        rw [hexchange, Exchange.events, login_error hc, respond_apply]
        rfl
      constructor
      · intro username hm
        rw [hnone] at hm
        cases hm
      · intro username password hcarries
        exact absurd ((carries_iff.mp hcarries).symm.trans hc) nofun
    | ok credentials =>
      obtain ⟨username, password⟩ := credentials
      have hcarries := carries_iff.mpr hc
      have ha := h username password hcarries
      obtain ⟨info, message, hlogin⟩ := login_accepted hcarries ha { w with events := [] }
      have hanswered : (exchange w (loginArrival (req, clock))).Answered true := by
        rw [hexchange, hlogin]
        exact ⟨_, rfl, rfl, iff_of_true rfl rfl⟩
      refine ⟨fun _ _ ↦ hanswered, fun u p hcarries' ↦ ?_⟩
      obtain ⟨rfl, rfl⟩ : u = username ∧ p = password := by
        have hsame := (carries_iff.mp hcarries').symm.trans hc
        exact Prod.mk.inj (Except.ok.inj hsame)
      refine ⟨true, ?_, hanswered, ?_⟩
      · rw [hexchange, Exchange.events, hlogin]
        rfl
      · intro s hs
        rw [hexchange, hlogin, World.after_level, List.flatMap_append, List.countP_append,
          loginEvents_countP _ _ _ _ _ hs]
        simp [attemptStarted, Event.names]

/-- Over every run of login requests, the log of authentication attempts tells the truth
just in case no request carries credentials that are turned down. -/
theorem logsTruth_iff (w : World δ) (requests : List (Request × Clock)) :
    (∀ x ∈ serve w (requests.map loginArrival), x.LogsTruth) ↔
      ∀ a ∈ requests, ∀ username password, Carries a.1.body username password →
        Accepted username password := by
  induction requests generalizing w with
  | nil => simp [serve]
  | cons a requests ih =>
    rw [List.map_cons, serve, List.forall_mem_cons, List.forall_mem_cons, exchange_logsTruth_iff,
      ih]

def wrongPassword : Request where
  remote_ip_address := []
  body := "\x7b\"username\":\"admin\",\"password\":\"wrong\"\x7d".toList

@[reducible] def wrongPasswordPlatform : Platform :=
  .ofTable [(wrongPassword.body, .ofEntries [("username".toList, .string "admin".toList),
    ("password".toList, .string "wrong".toList)])]

omit [Platform] in
theorem wrongPassword_not_logsTruth : ¬ ∀ (_ : Platform) (δ : Type) (_ : DatabaseApi δ)
    (w : World δ) (requests : List (Request × Clock)),
    ∀ x ∈ serve w (requests.map loginArrival), x.LogsTruth := by
  intro h
  let _ := wrongPasswordPlatform
  let _ := Database.isoDates
  let b : Backend := ⟨Database.onePrinter, [], []⟩
  have hfirst : (exchange ⟨b, .empty, []⟩ (loginArrival (wrongPassword, ⟨0, 0⟩))).LogsTruth :=
    h wrongPasswordPlatform Backend _ ⟨b, .empty, []⟩ [(wrongPassword, ⟨0, 0⟩)] _ (.head _)
  have hc : Carries wrongPassword.body "admin".toList "wrong".toList :=
    carries_iff.mpr (by rfl)
  exact absurd ((exchange_logsTruth_iff _ _).mp hfirst _ _ hc) (by decide)

end ServiceSystem.WebServer
