import ServiceSystem.Database.Reads
import ServiceSystem.WebServer.Effects
import ServiceSystem.WebServer.Login

namespace ServiceSystem.WebServer

open Foundations Database Program Handler

section Within

variable {δ α β : Type} {R : δ → δ → Prop} {p : Handler δ α}

/-- Whatever state a handler starts from, `R` holds of the database before and after. -/
def Within (R : δ → δ → Prop) (p : Handler δ α) : Prop := ∀ w, R w.db (p w).2.db

namespace Within

theorem idle {r : World δ → Except Str α} (hR : ∀ d, R d d) (h : ∀ w, p w = (r w, w)) :
    Within R p := by
  intro w
  rw [h]
  exact hR w.db

theorem database {method : δ → Except Str α × δ} (h : ∀ d, R d (method d).2) :
    Within R (Handler.database method) := fun w ↦ h w.db

theorem bind {f : α → Handler δ β} (htrans : ∀ a b c, R a b → R b c → R a c) (hp : Within R p)
    (hf : ∀ a, Within R (f a)) : Within R (p >>= f) := by
  intro w
  have hw := hp w
  rw [bind_apply]
  rcases hr : p w with ⟨e | a, w'⟩
  · rwa [hr] at hw
  · rw [hr] at hw
    exact htrans _ _ _ hw (hf a w')

theorem emit [Platform] (hR : ∀ d, R d d) (e : Event) :
    Within R (Handler.emit e : Handler δ Unit) := fun w ↦ hR w.db

theorem respond (hR : ∀ d, R d d) (code : ℤ) (j : Json) :
    Within R (WebServer.respond code j : Handler δ Response) := idle hR (respond_apply code j)

theorem tryCatch {handler : Str → Handler δ α} (htrans : ∀ a b c, R a b → R b c → R a c)
    (hp : Within R p) (hh : ∀ e, Within R (handler e)) : Within R (tryCatch p handler) := by
  intro w
  have hw := hp w
  rw [tryCatch_apply]
  rcases hr : p w with ⟨e | a, w'⟩
  · rw [hr] at hw
    exact htrans _ _ _ hw (hh e w')
  · rwa [hr] at hw

end Within

end Within

/-- A relation that holds of the database before and after each method that reads. -/
structure Reading {δ : Type} [DatabaseApi δ] (R : δ → δ → Prop) : Prop where
  refl : ∀ d, R d d
  trans : ∀ a b c, R a b → R b c → R a c
  testConnection : ∀ d, R d (DatabaseApi.testConnection d).2
  getAllDevices : ∀ d, R d (DatabaseApi.getAllDevices d).2
  getAllServiceTypes : ∀ d, R d (DatabaseApi.getAllServiceTypes d).2
  getDetailedServiceHistory : ∀ d, R d (DatabaseApi.getDetailedServiceHistory d).2
  getAllServiceRecords : ∀ d, R d (DatabaseApi.getAllServiceRecords d).2

section

variable [Platform] {δ : Type}

theorem login_db (clock : Clock) (req : Request) (w : World δ) :
    (login clock req w).2.db = w.db := by
  cases hc : (Platform.parse req.body >>= readCredentials) with
  | error what =>
    rw [login_error hc, respond_snd]
    rfl
  | ok credentials =>
    have hcarries := carries_iff.mpr hc
    by_cases ha : Accepted credentials.1 credentials.2
    · obtain ⟨info, message, hlogin⟩ := login_accepted hcarries ha w
      rw [hlogin]
      rfl
    · rw [login_rejected hcarries ha]
      rfl

variable [DatabaseApi δ] {R : δ → δ → Prop}

theorem Reading.listing (hR : Reading R) {α : Type} {path operation : Str}
    {method : δ → Except Str α × δ} {toJson : α → Json} {clock : Clock}
    (h : ∀ d, R d (method d).2) :
    Within R (WebServer.listing path operation method toJson clock) :=
  .bind hR.trans (.database h) fun _ ↦
    .bind hR.trans (.emit hR.refl _) fun _ ↦
      .bind hR.trans (.emit hR.refl _) fun _ ↦ .respond hR.refl _ _

theorem Reading.createServiceRecord (hR : Reading R)
    (h : ∀ record d, R d (DatabaseApi.addServiceRecord record d).2) (clock : Clock)
    (req : Request) : Within R (WebServer.createServiceRecord clock req : Handler δ Response) := by
  have hrecord {call : Metrics.Call} {p : Handler δ Response} (hp : Within R p) :
      Within R (metric call >>= fun _ ↦ p) := .bind hR.trans (.emit hR.refl _) fun _ ↦ hp
  refine .tryCatch hR.trans ?_ fun what ↦ ?_
  · refine .bind hR.trans (.idle hR.refl fun _ ↦ rfl) fun record ↦ ?_
    refine .bind hR.trans (.database (h record)) fun success ↦ ?_
    exact hrecord (hrecord (hrecord (.respond hR.refl _ _)))
  · exact hrecord (hrecord (hrecord (.respond hR.refl _ _)))

theorem Reading.handler (hR : Reading R) {route : Route}
    (h : route = .api .createServiceRecord →
      ∀ record d, R d (DatabaseApi.addServiceRecord record d).2) (clock : Clock) (req : Request) :
    Within R (route.handler clock req : Handler δ Response) := by
  have hsame {p : Handler δ Response} (hp : ∀ w, (p w).2.db = w.db) : Within R p := by
    intro w
    rw [hp]
    exact hR.refl _
  cases route with
  | metrics => exact hsame fun _ ↦ rfl
  | index => exact hsame fun w ↦ congrArg World.db (indexHandler_snd w)
  | static filename => exact hsame fun w ↦ congrArg World.db (staticHandler_snd filename w)
  | api route =>
    cases route with
    | testDb =>
      exact .bind hR.trans (.database hR.testConnection) fun _ ↦
        .bind hR.trans (.emit hR.refl _) fun _ ↦
          .bind hR.trans (.emit hR.refl _) fun _ ↦ .respond hR.refl _ _
    | login => exact hsame (login_db clock req)
    | logout =>
      refine hsame fun w ↦ ?_
      rw [show Route.handler clock req (.api .logout) w = logout req w from rfl,
        logout_eq, respond_snd]
      rfl
    | createDevice =>
      refine hsame fun w ↦ ?_
      rw [show Route.handler clock req (.api .createDevice) w = createDevice req w from rfl,
        createDevice_eq, respond_snd]
      rfl
    | createServiceRecord => exact hR.createServiceRecord (h rfl) clock req
    | getDevices => exact hR.listing hR.getAllDevices
    | getServiceTypes => exact hR.listing hR.getAllServiceTypes
    | getServiceHistory => exact hR.listing hR.getDetailedServiceHistory
    | getServiceRecords => exact hR.listing hR.getAllServiceRecords

end

section

variable [Postgres]

def World.tables (w : World Backend) : Tables := w.db.connection.tables

def SameTables (b b' : Backend) : Prop := b'.connection.tables = b.connection.tables

theorem call_readAll_tables {α : Type} (operation : Str) (q : Query)
    (ofRow : Row → Except PqxxError α) (b : Backend) :
    SameTables b (Backend.call operation (readAll q ofRow) b).2 :=
  readAll_tables b.current q ofRow

theorem sameTables_reading : Reading SameTables where
  refl _ := rfl
  trans _ _ _ hab hbc := Eq.trans hbc hab
  testConnection b := testConnection_tables b.current
  getAllDevices b := call_readAll_tables _ _ _ b
  getAllServiceTypes b := call_readAll_tables _ _ _ b
  getDetailedServiceHistory b := call_readAll_tables _ _ _ b
  getAllServiceRecords b := call_readAll_tables _ _ _ b

variable [Platform]

omit [Platform] in
theorem addServiceRecord_tables (record : ServiceRecord) (b : Backend) :
    let result := (addServiceRecord record).run exec b.current
    ∃ rows, result.2.tables = b.connection.tables.append rows ∧ rows.length ≤ 1 ∧
      (result.1.value = true → ∃ row,
        serviceHistoryRow b.connection.sequences.record_id record = .ok row ∧ rows = [row]) := by
  have hcases := mutate_cases b.current (.insertServiceRecord record)
  rcases hcases with ⟨hvalue, -, htables, -⟩ | ⟨t, -, ht, hcommit⟩
  · refine ⟨[], htables.trans (Tables.append_nil _).symm, by simp, fun h ↦ ?_⟩
    exact absurd (hvalue.symm.trans h) nofun
  · obtain ⟨row, hrow, rfl⟩ := execute_insertServiceRecord ht
    cases hf : b.current.faults.commit with
    | none =>
      rw [hf] at hcommit
      exact ⟨[row], hcommit.2, by simp, fun _ ↦ ⟨row, hrow, rfl⟩⟩
    | rejected =>
      rw [hf] at hcommit
      refine ⟨[], hcommit.2.trans (Tables.append_nil _).symm, by simp, fun h ↦ ?_⟩
      exact absurd ((congrArg Outcome.value hcommit.1).symm.trans h) nofun
    | unknown applied lost =>
      rw [hf] at hcommit
      have hfalse : ∀ {p : Prop},
          ((addServiceRecord record).run exec b.current).1.value = true → p :=
        fun h ↦ absurd ((congrArg Outcome.value hcommit.1).symm.trans h) nofun
      cases applied with
      | false => exact ⟨[], hcommit.2.trans (Tables.append_nil _).symm, by simp, fun h ↦ hfalse h⟩
      | true => exact ⟨[row], hcommit.2, by simp, fun h ↦ hfalse h⟩

omit [Postgres] [Platform] in
theorem failureJson_success (what : Str) (code : ℤ) :
    (Response.json code (failureJson what)).success = some false := rfl

theorem createServiceRecord_tables (clock : Clock) (req : Request) (w : World Backend) :
    ∃ rows, (createServiceRecord clock req w).2.tables = w.tables.append rows ∧ rows.length ≤ 1 ∧
      ∀ res, (createServiceRecord clock req w).1 = .ok res → res.success = some true →
        ∃ record row, Submits req.body record ∧
          serviceHistoryRow w.db.connection.sequences.record_id record = .ok row ∧
          rows = [row] := by
  cases hs : (Platform.parse req.body >>= readRecord) with
  | error what =>
    rw [createServiceRecord_unread hs]
    refine ⟨[], ?_, by simp, fun res hres hsuccess ↦ ?_⟩
    · rw [respond_snd, Tables.append_nil]
      rfl
    · obtain ⟨-, rfl⟩ := respond_ok hres
      rw [failureJson_success] at hsuccess
      cases hsuccess
  | ok record =>
    obtain ⟨rows, htables, hlength, htrue⟩ := addServiceRecord_tables record w.db
    have hadd : (DatabaseApi.addServiceRecord record w.db).1 =
        .ok ((addServiceRecord record).run exec w.db.current).1.value := rfl
    rw [createServiceRecord_ok hs hadd]
    refine ⟨rows, ?_, hlength, fun res hres hsuccess ↦ ?_⟩
    · rw [respond_snd]
      exact htables
    · obtain ⟨-, rfl⟩ := respond_ok hres
      have hvalue : some ((addServiceRecord record).run exec w.db.current).1.value = some true :=
        hsuccess
      obtain ⟨row, hrow, hrows⟩ := htrue (Option.some.inj hvalue)
      exact ⟨record, row, submits_iff.mpr hs, hrow, hrows⟩

def CreatesRecord (r : Incoming) : Prop :=
  r.method = "POST".toList ∧ r.path = "/api/service-history".toList

instance (r : Incoming) : Decidable (CreatesRecord r) := inferInstanceAs (Decidable (_ ∧ _))

def Router.ReportsSuccess (router : Router) (w : World Backend) (r : Incoming) : Prop :=
  router.route r.method r.path = some (.api .createServiceRecord) ∧
    ∃ res, router.reply w r = some (.ok res) ∧ res.success = some true

/-- The rows that a request adds to `Service_History`: at most one, only for a new record, and
that of the record that was read if the request is answered with success. -/
structure Footprint (router : Router) (w : World Backend) (r : Incoming)
    (rows : List ServiceHistoryRow) : Prop where
  tables : (router.step w r).tables = w.tables.append rows
  one : rows.length ≤ 1
  creates : rows ≠ [] → CreatesRecord r
  inserted : router.ReportsSuccess w r → ∃ record row, Submits r.request.body record ∧
    serviceHistoryRow w.db.connection.sequences.record_id record = .ok row ∧ rows = [row]

variable (router : Router)

theorem step_footprint (w : World Backend) (r : Incoming) : ∃ rows, Footprint router w r rows := by
  have hunchanged : (router.step w r).tables = w.tables → ¬ router.ReportsSuccess w r →
      Footprint router w r [] := fun h hno ↦
    ⟨h.trans (Tables.append_nil _).symm, by simp, by simp, fun hyes ↦ absurd hyes hno⟩
  cases hroute : router.route r.method r.path with
  | none =>
    refine ⟨[], hunchanged ?_ fun h ↦ ?_⟩
    · simp [Router.step, Router.deliver, hroute]
    · exact absurd (hroute.symm.trans h.1) nofun
  | some route =>
    have hstep : router.step w r = (exchange w ⟨route, r.request, r.clock⟩).after := by
      simp [Router.step, Router.deliver, hroute]
    by_cases hcreate : route = .api .createServiceRecord
    · subst hcreate
      obtain ⟨rows, htables, hlength, hsuccess⟩ :=
        createServiceRecord_tables r.clock r.request { w with events := [] }
      refine ⟨rows, by rw [hstep]; exact htables, hlength, fun _ ↦ router.post hroute rfl, ?_⟩
      rintro ⟨-, res, hreply, htrue⟩
      simp only [Router.reply, Router.deliver, hroute, Option.map_some, Option.some.injEq] at hreply
      exact hsuccess res hreply htrue
    · refine ⟨[], hunchanged ?_ fun h ↦ hcreate (Option.some.inj (hroute.symm.trans h.1))⟩
      rw [hstep]
      exact sameTables_reading.handler (fun h ↦ absurd h hcreate) r.clock r.request
        { w with events := [] }

theorem run_tables (w : World Backend) (requests : List Incoming) :
    ∃ rows, (requests.foldl router.step w).tables = w.tables.append rows ∧
      rows.length ≤ requests.countP (fun r ↦ CreatesRecord r) := by
  induction requests generalizing w with
  | nil => exact ⟨[], (Tables.append_nil _).symm, by simp⟩
  | cons r requests ih =>
    obtain ⟨rows, htables, hlength, hcreates, -⟩ := step_footprint router w r
    obtain ⟨rows', htables', hlength'⟩ := ih (router.step w r)
    refine ⟨rows ++ rows', ?_, ?_⟩
    · rw [List.foldl_cons, htables', htables, Tables.append_append]
    · rw [List.length_append, List.countP_cons]
      by_cases hr : CreatesRecord r
      · rw [if_pos (by simpa using hr)]
        omega
      · have hnone : rows = [] := by
          by_contra hne
          exact hr (hcreates hne)
        rw [hnone, List.length_nil]
        omega

end

end ServiceSystem.WebServer
