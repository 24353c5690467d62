import ServiceSystem.Database.Reads
import ServiceSystem.WebServer.Backend
import ServiceSystem.WebServer.Effects

namespace ServiceSystem.WebServer

open Foundations Database Program Handler

/-- The endpoints that list the rows of a query. -/
inductive ListRoute
  | devices
  | serviceTypes
  | serviceHistory
  | serviceRecords
  deriving DecidableEq

namespace ListRoute

def api : ListRoute → ApiRoute
  | devices => .getDevices
  | serviceTypes => .getServiceTypes
  | serviceHistory => .getServiceHistory
  | serviceRecords => .getServiceRecords

def query : ListRoute → Query
  | devices => .devices
  | serviceTypes => .serviceTypes
  | serviceHistory => .detailedHistory
  | serviceRecords => .serviceRecords

def operation : ListRoute → Str
  | devices => "get_devices".toList
  | serviceTypes => "get_service_types".toList
  | serviceHistory => "get_service_history".toList
  | serviceRecords => "get_service_records".toList

def element : ListRoute → Row → Except PqxxError Json
  | devices => fun row ↦ (Device.ofRow row).map deviceJson
  | serviceTypes => fun row ↦ (ServiceType.ofRow row).map serviceTypeJson
  | serviceHistory => fun row ↦ (DetailedRecord.ofRow row).map detailedRecordJson
  | serviceRecords => fun row ↦ (ServiceRecord.ofRow row).map serviceRecordJson

end ListRoute

section Elements

variable {row : Row} {j : Json}

theorem deviceJson_valid {d : Device} (h : ∀ f ∈ row, Field.Encoded f)
    (hd : Device.ofRow row = .ok d) :
    (deviceJson d).Valid := by
  simp only [Device.ofRow, except_bind_eq_ok] at hd
  obtain ⟨id, -, name, hname, model, hmodel, date, hdate, status, hstatus, ⟨⟩⟩ := hd
  have hn := as_string_valid (field_encoded h 1) hname
  have hm := orDefault_valid Utf8.valid_nil (field_encoded h 2) hmodel
  have hp := orDefault_valid Utf8.valid_nil (field_encoded h 3) hdate
  have hs := orDefault_valid (by decide) (field_encoded h 4) hstatus
  refine Json.Valid.ofEntries ?_
  simp only [List.forall_mem_cons, Json.Valid.string_iff]
  exact ⟨⟨by decide, .number_integer _⟩, ⟨by decide, hn⟩, ⟨by decide, hm⟩, ⟨by decide, hp⟩,
    ⟨by decide, hs⟩, nofun⟩

theorem serviceTypeJson_valid {t : ServiceType} (h : ∀ f ∈ row, Field.Encoded f)
    (ht : ServiceType.ofRow row = .ok t) : (serviceTypeJson t).Valid := by
  simp only [ServiceType.ofRow, except_bind_eq_ok] at ht
  obtain ⟨id, -, name, hname, interval, -, cost, -, ⟨⟩⟩ := ht
  have hn := as_string_valid (field_encoded h 1) hname
  refine Json.Valid.ofEntries ?_
  simp only [List.forall_mem_cons, Json.Valid.string_iff]
  exact ⟨⟨by decide, .number_integer _⟩, ⟨by decide, hn⟩, ⟨by decide, .number_integer _⟩,
    ⟨by decide, .number_float _⟩, nofun⟩

theorem serviceRecordJson_valid {r : ServiceRecord} (h : ∀ f ∈ row, Field.Encoded f)
    (hr : ServiceRecord.ofRow row = .ok r) : (serviceRecordJson r).Valid := by
  simp only [ServiceRecord.ofRow, except_bind_eq_ok] at hr
  obtain ⟨id, -, device, -, service, -, date, hdate, cost, -, notes, hnotes, next, hnext, ⟨⟩⟩ := hr
  have hd := as_string_valid (field_encoded h 3) hdate
  have hn := orDefault_valid Utf8.valid_nil (field_encoded h 5) hnotes
  have hx := orDefault_valid Utf8.valid_nil (field_encoded h 6) hnext
  refine Json.Valid.ofEntries ?_
  simp only [List.forall_mem_cons, Json.Valid.string_iff]
  exact ⟨⟨by decide, .number_integer _⟩, ⟨by decide, .number_integer _⟩,
    ⟨by decide, .number_integer _⟩, ⟨by decide, hd⟩, ⟨by decide, .number_float _⟩,
    ⟨by decide, hn⟩, ⟨by decide, hx⟩, nofun⟩

theorem detailedRecordJson_valid {r : DetailedRecord} (h : ∀ f ∈ row, Field.Encoded f)
    (hr : DetailedRecord.ofRow row = .ok r) : (detailedRecordJson r).Valid := by
  simp only [DetailedRecord.ofRow, except_bind_eq_ok] at hr
  obtain ⟨id, -, device, hdevice, model, hmodel, service, hservice, date, hdate, cost, -, notes,
    hnotes, next, hnext, ⟨⟩⟩ := hr
  have hd := as_string_valid (field_encoded h 1) hdevice
  have hm := orDefault_valid Utf8.valid_nil (field_encoded h 2) hmodel
  have hs := as_string_valid (field_encoded h 3) hservice
  have ht := as_string_valid (field_encoded h 4) hdate
  have hn := orDefault_valid Utf8.valid_nil (field_encoded h 6) hnotes
  have hx := orDefault_valid Utf8.valid_nil (field_encoded h 7) hnext
  refine Json.Valid.ofEntries ?_
  simp only [List.forall_mem_cons, Json.Valid.string_iff]
  exact ⟨⟨by decide, .number_integer _⟩, ⟨by decide, hd⟩, ⟨by decide, hm⟩, ⟨by decide, hs⟩,
    ⟨by decide, ht⟩, ⟨by decide, .number_float _⟩, ⟨by decide, hn⟩, ⟨by decide, hx⟩, nofun⟩

theorem except_map_eq_ok {α β : Type} {x : Except PqxxError α} {f : α → β} {b : β}
    (h : x.map f = .ok b) : ∃ a, x = .ok a ∧ f a = b := by
  cases x with
  | error e => cases h
  | ok a => exact ⟨a, rfl, Except.ok.inj h⟩

theorem element_valid {route : ListRoute} (h : ∀ f ∈ row, Field.Encoded f)
    (hj : route.element row = .ok j) : j.Valid := by
  cases route with
  | devices =>
    obtain ⟨d, hd, rfl⟩ := except_map_eq_ok hj
    exact deviceJson_valid h hd
  | serviceTypes =>
    obtain ⟨t, ht, rfl⟩ := except_map_eq_ok hj
    exact serviceTypeJson_valid h ht
  | serviceHistory =>
    obtain ⟨r, hr, rfl⟩ := except_map_eq_ok hj
    exact detailedRecordJson_valid h hr
  | serviceRecords =>
    obtain ⟨r, hr, rfl⟩ := except_map_eq_ok hj
    exact serviceRecordJson_valid h hr

end Elements

section

variable [Postgres]

def listed (c : Connection) (route : ListRoute) : Json :=
  .array ((queryResult c route.query).elim [] (fun rows ↦ (convert route.element rows).1))

theorem listed_eq {α : Type} (c : Connection) (route : ListRoute) {ofRow : Row → Except PqxxError α}
    {toJson : α → Json} (h : route.element = fun row ↦ (ofRow row).map toJson) :
    .array (((readAll route.query ofRow).run exec c).1.value.map toJson) = listed c route := by
  rw [listed, readAll_value, h]
  cases queryResult c route.query with
  | none => rfl
  | some rows => rw [Option.elim_some, Option.elim_some, convert_map]

theorem completes_map {α β : Type} {c : Connection} {q : Query} {ofRow : Row → Except PqxxError α}
    {f : α → β} : Completes c q (fun row ↦ (ofRow row).map f) ↔ Completes c q ofRow := by
  simp only [Completes, convert_map]

theorem queryResult_eq_some {c : Connection} {q : Query} {rows : List Row} :
    queryResult c q = some rows ↔
      CanBegin c ∧ c.faults.exec = .none ∧ rows = select c.tables q := by
  rw [queryResult_eq]
  split_ifs with h
  · simp [h, eq_comm]
  · simp only [false_iff]
    exact fun ⟨hb, hf, _⟩ ↦ h ⟨hb, hf⟩

theorem listed_valid {c : Connection} (h : Encoded c.tables) (route : ListRoute) :
    (listed c route).Valid := by
  refine Json.Valid.array_iff.mpr (fun j hj ↦ ?_)
  cases hq : queryResult c route.query with
  | none => simp [hq] at hj
  | some rows =>
    rw [hq, Option.elim_some] at hj
    obtain ⟨row, hrow, he⟩ := mem_convert hj
    obtain ⟨-, -, rfl⟩ := queryResult_eq_some.mp hq
    exact element_valid (select_encoded h _ row hrow) he

theorem element_converts_iff {t : Tables} {route : ListRoute} :
    (∀ row ∈ select t route.query, ∃ j, route.element row = .ok j) ↔
      (route = .serviceRecords → Attributed t) := by
  have hmap : ∀ {α : Type} {x : Except PqxxError α} {f : α → Json},
      (∃ j, x.map f = .ok j) ↔ ∃ a, x = .ok a := by
    intro α x f
    cases x with
    | error e => exact iff_of_false (fun ⟨_, h⟩ ↦ nomatch h) (fun ⟨_, h⟩ ↦ nomatch h)
    | ok a => exact iff_of_true ⟨f a, rfl⟩ ⟨a, rfl⟩
  cases route with
  | devices =>
    simp only [ListRoute.element, hmap]
    exact iff_of_true devices_convert nofun
  | serviceTypes =>
    simp only [ListRoute.element, hmap]
    exact iff_of_true serviceTypes_convert nofun
  | serviceHistory =>
    simp only [ListRoute.element, hmap]
    exact iff_of_true detailedHistory_convert nofun
  | serviceRecords =>
    simp only [ListRoute.element, hmap, forall_const]
    exact serviceRecords_convert_iff

end

section

variable [Platform] [Postgres]

/-- What a list endpoint does: the array is sent, and the read is noted, whatever has
become of it. -/
structure Lists (w : World Backend) (route : ListRoute) (clock : Clock)
    (result : Except Str Response × World Backend) (db : Backend) (completed : Bool) : Prop where
  result_eq : result = respond 200 (listed w.db.current route) ((w.withDb db).after
    (readEvents clock route.api.path route.operation true))
  ledger_eq : db.ledger = w.db.ledger ++ [(route.operation, completed)]
  completed_iff : completed = true ↔ Completes w.db.current route.query route.element

theorem lists_of {α : Type} {w : World Backend} {route : ListRoute} {clock : Clock}
    {ofRow : Row → Except PqxxError α} {toJson : α → Json}
    {result : Except Str Response × World Backend}
    (helement : route.element = fun row ↦ (ofRow row).map toJson)
    (h : result = respond 200
      (.array (((readAll route.query ofRow).run exec w.db.current).1.value.map toJson))
      ((w.withDb (Backend.call route.operation (readAll route.query ofRow) w.db).2).after
        (readEvents clock route.api.path route.operation true))) :
    ∃ db completed, Lists w route clock result db completed := by
  refine ⟨(Backend.call route.operation (readAll route.query ofRow) w.db).2,
    ((readAll route.query ofRow).run exec w.db.current).1.caught.isNone, ?_, rfl, ?_⟩
  · rw [h, listed_eq _ _ helement]
  · rw [Option.isNone_iff_eq_none, readAll_caught, helement, completes_map]

theorem handler_lists (w : World Backend) (route : ListRoute) (req : Request) (clock : Clock) :
    ∃ db completed, Lists w route clock (route.api.handler clock req w) db completed := by
  cases route with
  | devices => exact lists_of rfl (listing_ok rfl)
  | serviceTypes => exact lists_of rfl (listing_ok rfl)
  | serviceHistory => exact lists_of rfl (listing_ok rfl)
  | serviceRecords => exact lists_of rfl (listing_ok rfl)

/-- A response with status 200 carries an array with one element for each row of the
query result, in its order. -/
def AllOrNothing (c : Connection) (route : ListRoute) (reply : Except Str Response) : Prop :=
  ∀ res, reply = .ok res → res.code = 200 → ∃ rows items, queryResult c route.query = some rows ∧
    res.body = .json (.array items) ∧
    List.Forall₂ (fun row item ↦ route.element row = .ok item) rows items

section Listed

variable {w : World Backend} (h : Encoded w.db.current.tables) (route : ListRoute) (req : Request)
  (clock : Clock)

include h

theorem exchange_reply : (exchange w ⟨.api route.api, req, clock⟩).reply =
    .ok (.json 200 (listed w.db.current route)) := by
  obtain ⟨db, completed, hl⟩ := handler_lists { w with events := [] } route req clock
  rw [show (exchange w ⟨.api route.api, req, clock⟩).reply = _ from congrArg Prod.fst hl.result_eq,
    respond_valid (listed_valid h route)]

theorem converts_of_allOrNothing
    (hall : AllOrNothing w.db.current route (exchange w ⟨.api route.api, req, clock⟩).reply) :
    CanBegin w.db.current ∧ w.db.current.faults.exec = .none ∧
      ∀ row ∈ select w.db.current.tables route.query, ∃ item, route.element row = .ok item := by
  rw [exchange_reply h] at hall
  obtain ⟨rows, items, hrows, -, hitems⟩ := hall _ rfl rfl
  obtain ⟨hb, hf, rfl⟩ := queryResult_eq_some.mp hrows
  have hconvert := (List.forall₂_and_left _ _).mp
    (hitems.imp fun _ item hitem ↦ And.intro (Exists.intro item hitem) hitem)
  exact ⟨hb, hf, hconvert.1⟩

/-- A list endpoint answers with all rows or not at all just in case the query succeeds
and no row of the service records has a null identifier. -/
theorem allOrNothing_iff :
    AllOrNothing w.db.current route (exchange w ⟨.api route.api, req, clock⟩).reply ↔
      CanBegin w.db.current ∧ w.db.current.faults.exec = .none ∧
        (route = .serviceRecords → Attributed w.db.current.tables) := by
  rw [← element_converts_iff]
  refine ⟨converts_of_allOrNothing h route req clock, ?_⟩
  rw [exchange_reply h]
  rintro ⟨hb, hf, hconvert⟩ res ⟨⟩ -
  have hrows : queryResult w.db.current route.query =
      some (select w.db.current.tables route.query) :=
    queryResult_eq_some.mpr ⟨hb, hf, rfl⟩
  refine ⟨_, _, hrows, ?_, convert_forall₂ (convert_snd_eq_none.mpr hconvert)⟩
  rw [Response.json, listed, hrows, Option.elim_some]

end Listed

end

/-- Two records of services, the second on no device, as docker/init.sql allows. -/
def unattributed : @Backend isoDates :=
  letI := isoDates
  { connection :=
      { trans := false
        is_open := true
        session := .idle
        tables :=
          { devices := [⟨1, "Printer".toList, none, none, some "active".toList⟩]
            service_types := [⟨1, "Cleaning".toList, some 12, some 10000⟩]
            service_history := [⟨1, some 1, some 1, (2023, 7, 15), some 5000, none, none⟩,
              ⟨2, none, some 1, (2023, 1, 15), none, none, none⟩] }
        sequences := ⟨2, 2, 3⟩
        faults := .healthy }
    faults := []
    ledger := [] }

theorem unattributed_encoded : letI := isoDates; Encoded unattributed.current.tables :=
  letI := isoDates
  ⟨by decide, by decide, by decide⟩

theorem unattributed_not_allOrNothing : ¬ ∀ (_ : Platform) (_ : Postgres) (w : World Backend)
    (route : ListRoute) (req : Request) (clock : Clock), Encoded w.db.current.tables →
    AllOrNothing w.db.current route (exchange w ⟨.api route.api, req, clock⟩).reply := by
  intro h
  let _ := Platform.ofTable []
  let _ := isoDates
  have hall := converts_of_allOrNothing (w := ⟨unattributed, .empty, []⟩) unattributed_encoded
    .serviceRecords ⟨[], []⟩ ⟨0, 0⟩ (h _ _ _ _ _ _ unattributed_encoded)
  have hattributed := element_converts_iff.mp hall.2.2
  have hnull := hattributed rfl ⟨2, none, some 1, (2023, 1, 15), none, none, none⟩
    (.tail _ (.head _))
  exact absurd hnull.1 nofun

theorem allOrNothing_devices :
    letI := Platform.ofTable []
    letI := isoDates
    AllOrNothing unattributed.current .devices
      (exchange ⟨unattributed, .empty, []⟩ ⟨.api ListRoute.devices.api, ⟨[], []⟩, ⟨0, 0⟩⟩).reply :=
  letI := Platform.ofTable []
  letI := isoDates
  (allOrNothing_iff (w := ⟨unattributed, .empty, []⟩) unattributed_encoded .devices ⟨[], []⟩
    ⟨0, 0⟩).mpr ⟨by decide, rfl, nofun⟩

end ServiceSystem.WebServer
