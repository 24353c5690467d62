import ServiceSystem.Database.Commit
import ServiceSystem.Nlohmann.Valid
import ServiceSystem.WebServer.Routes

namespace ServiceSystem.WebServer

open Foundations Database Program

def detailedRecordJson (record : DetailedRecord) : Json :=
  .ofEntries [("record_id".toList, .number_integer record.record_id),
    ("device_name".toList, .string record.device_name), ("model".toList, .string record.model),
    ("service_name".toList, .string record.service_name),
    ("service_date".toList, .string record.service_date),
    ("cost".toList, .number_float record.cost),
    ("notes".toList, .string record.notes), ("next_due_date".toList, .string record.next_due_date)]

variable [Postgres]

/-- The shared connection, what goes wrong in each of the coming calls of a method, and
the operations carried out so far, each with whether it completed without an error. -/
structure Backend where
  connection : Connection
  faults : List Faults
  ledger : List (Str × Bool)

namespace Backend

def current (b : Backend) : Connection := { b.connection with faults := b.faults.headD .healthy }

def call {α : Type} (operation : Str) (method : Program Op Ans (Outcome α)) (b : Backend) :
    Except Str α × Backend :=
  let result := method.run exec b.current
  (.ok result.1.value,
    ⟨result.2, b.faults.tail, b.ledger ++ [(operation, result.1.caught.isNone)]⟩)

instance : DatabaseApi Backend where
  testConnection := call "test_connection".toList Database.testConnection
  getAllDevices := call "get_devices".toList Database.getAllDevices
  getAllServiceTypes := call "get_service_types".toList Database.getAllServiceTypes
  getDetailedServiceHistory b :=
    let result := call "get_service_history".toList Database.getDetailedServiceHistory b
    (result.1.map (fun records ↦ .array (records.map detailedRecordJson)), result.2)
  addServiceRecord record :=
    call "add_service_record".toList (Database.addServiceRecord record)
  getAllServiceRecords := call "get_service_records".toList Database.getAllServiceRecords

end Backend

/-- The platform with the parser that the server is built with. -/
@[reducible] def Platform.nlohmann (order : Metrics.IterationOrder) (readFile : Str → Option Str) :
    Platform where
  parse := Nlohmann.parse
  parse_valid := Nlohmann.parse_valid
  order := order
  readFile := readFile

/-- A platform whose parser knows the texts of a table only. -/
@[reducible] def Platform.ofTable (known : List (Str × Json)) : Platform where
  parse text :=
    match known.find? (·.1 = text) with
    | some (_, j) =>
      if j.Valid then .ok j else .error "invalid string: ill-formed UTF-8 byte".toList
    | none => .error "[json.exception.parse_error.101] parse error".toList
  parse_valid {text j} h := by
    split at h
    · split_ifs at h with hj
      obtain ⟨rfl⟩ := h
      exact hj
    · cases h
  order := .sorted
  readFile _ := none

end ServiceSystem.WebServer
