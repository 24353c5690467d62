import ServiceSystem.Database.Connection

namespace ServiceSystem.Database

open Foundations Program

variable [Postgres] {α : Type}

abbrev Field := Option Value

def as_int : Field → Except PqxxError ℤ
  | some (.int n) => .ok n
  | _ => .error .conversion_error

def as_string : Field → Except PqxxError Str
  | some (.text s) => .ok s
  | some (.int n) => .ok (Str.ofInt n)
  | some (.numeric n) => .ok (Str.fixed 2 (n / 100))
  | none => .error .conversion_error

def as_double : Field → Except PqxxError ℚ
  | some (.numeric n) => .ok (n / 100)
  | some (.int n) => .ok n
  | _ => .error .conversion_error

/-- `as<T>(default_value)`: a null field gives the default. -/
def orDefault (as : Field → Except PqxxError α) (default_value : α) (f : Field) :
    Except PqxxError α :=
  if f.isNone then .ok default_value else as f

def field (row : Row) (i : ℕ) : Field := (row[i]?).join

namespace Device

def ofRow (row : Row) : Except PqxxError Device := do
  let id ← as_int (field row 0)
  let name ← as_string (field row 1)
  let model ← orDefault as_string [] (field row 2)
  let purchase_date ← orDefault as_string [] (field row 3)
  let status ← orDefault as_string "active".toList (field row 4)
  return ⟨id, name, model, purchase_date, status⟩

end Device

namespace ServiceType

def ofRow (row : Row) : Except PqxxError ServiceType := do
  let id ← as_int (field row 0)
  let name ← as_string (field row 1)
  let recommended_interval_months ← orDefault as_int 0 (field row 2)
  let standard_cost ← orDefault as_double 0 (field row 3)
  return ⟨id, name, recommended_interval_months, standard_cost⟩

end ServiceType

namespace ServiceRecord

def ofRow (row : Row) : Except PqxxError ServiceRecord := do
  let id ← as_int (field row 0)
  let device_id ← as_int (field row 1)
  let service_id ← as_int (field row 2)
  let service_date ← as_string (field row 3)
  let cost ← orDefault as_double 0 (field row 4)
  let notes ← orDefault as_string [] (field row 5)
  let next_due_date ← orDefault as_string [] (field row 6)
  return ⟨id, device_id, service_id, service_date, cost, notes, next_due_date⟩

end ServiceRecord

structure DetailedRecord where
  record_id : ℤ
  device_name : Str
  model : Str
  service_name : Str
  service_date : Str
  cost : ℚ
  notes : Str
  next_due_date : Str
  deriving DecidableEq

namespace DetailedRecord

def ofRow (row : Row) : Except PqxxError DetailedRecord := do
  let record_id ← as_int (field row 0)
  let device_name ← as_string (field row 1)
  let model ← orDefault as_string [] (field row 2)
  let service_name ← as_string (field row 3)
  let service_date ← as_string (field row 4)
  let cost ← orDefault as_double 0 (field row 5)
  let notes ← orDefault as_string [] (field row 6)
  let next_due_date ← orDefault as_string [] (field row 7)
  return ⟨record_id, device_name, model, service_name, service_date, cost, notes, next_due_date⟩

end DetailedRecord

/-- The row loop: the items pushed before the first row that cannot be converted. -/
def convert (ofRow : Row → Except PqxxError α) : List Row → List α × Option PqxxError
  | [] => ([], none)
  | row :: rows =>
    match ofRow row with
    | .error e => ([], some e)
    | .ok a => (a :: (convert ofRow rows).1, (convert ofRow rows).2)

/-- The catch block, after the transaction has been destroyed. -/
def abandon (txn : Work) (onError : α) (e : PqxxError) : Program Op Ans (Outcome α) := do
  perform (Op.destroy txn)
  return ⟨onError, some e⟩

def outcome (returned onError : α) : Except PqxxError Unit → Outcome α
  | .error e => ⟨onError, some e⟩
  | .ok () => ⟨returned, none⟩

def complete (txn : Work) (returned onError : α) : Program Op Ans (Outcome α) := do
  let (result, txn) ← perform (Op.commit txn)
  perform (Op.destroy txn)
  return outcome returned onError result

def readAll (q : Query) (ofRow : Row → Except PqxxError α) : Program Op Ans (Outcome (List α)) := do
  match ← perform Op.work with
  | .error e => return ⟨[], some e⟩
  | .ok txn =>
    match ← perform (Op.exec txn q) with
    | .error e => abandon txn [] e
    | .ok rows =>
      match convert ofRow rows with
      | (items, some e) => abandon txn items e
      | (items, none) => complete txn items items

def mutate (s : Statement) : Program Op Ans (Outcome Bool) := do
  match ← perform Op.work with
  | .error e => return ⟨false, some e⟩
  | .ok txn =>
    match ← perform (Op.exec_params txn s) with
    | .error e => abandon txn false e
    | .ok () => complete txn true false

def testConnection : Program Op Ans (Outcome Bool) := do
  match ← perform Op.work with
  | .error e => return ⟨false, some e⟩
  | .ok txn =>
    let result ← perform (Op.exec txn .select1)
    perform (Op.destroy txn)
    return outcome true false (result.map fun _ ↦ ())

def getAllDevices : Program Op Ans (Outcome (List Device)) := readAll .devices Device.ofRow

def addDevice (device : Device) : Program Op Ans (Outcome Bool) := mutate (.insertDevice device)

def updateDevice (id : ℤ) (device : Device) : Program Op Ans (Outcome Bool) :=
  mutate (.updateDevice id device)

def deleteDevice (id : ℤ) : Program Op Ans (Outcome Bool) := mutate (.deleteDevice id)

def getAllServiceTypes : Program Op Ans (Outcome (List ServiceType)) :=
  readAll .serviceTypes ServiceType.ofRow

def addServiceType (type : ServiceType) : Program Op Ans (Outcome Bool) :=
  mutate (.insertServiceType type)

def updateServiceType (id : ℤ) (type : ServiceType) : Program Op Ans (Outcome Bool) :=
  mutate (.updateServiceType id type)

def deleteServiceType (id : ℤ) : Program Op Ans (Outcome Bool) := mutate (.deleteServiceType id)

def getAllServiceRecords : Program Op Ans (Outcome (List ServiceRecord)) :=
  readAll .serviceRecords ServiceRecord.ofRow

def addServiceRecord (record : ServiceRecord) : Program Op Ans (Outcome Bool) :=
  mutate (.insertServiceRecord record)

def updateServiceRecord (id : ℤ) (record : ServiceRecord) : Program Op Ans (Outcome Bool) :=
  mutate (.updateServiceRecord id record)

def deleteServiceRecord (id : ℤ) : Program Op Ans (Outcome Bool) := mutate (.deleteServiceRecord id)

def getDetailedServiceHistory : Program Op Ans (Outcome (List DetailedRecord)) :=
  readAll .detailedHistory DetailedRecord.ofRow

end ServiceSystem.Database
