import ServiceSystem.Foundations.Utf8
import Mathlib.Data.List.Sort
import Mathlib.Order.Basic
import Mathlib.Data.Prod.Lex

namespace ServiceSystem.Database

open Foundations

/-- What docker/init.sql leaves to PostgreSQL: how dates are read, written and compared,
and in which order the rows of a table or join come before they are sorted. -/
class Postgres where
  Date : Type
  [dateEq : DecidableEq Date]
  [dateOrder : LinearOrder Date]
  date_in : Str → Option Date
  date_out : Date → Str
  date_out_ascii : ∀ d, ∀ c ∈ date_out d, c.toNat < 0x80
  scan : ∀ {α : Type}, List α → List α
  scan_perm : ∀ {α : Type} (rows : List α), (scan rows).Perm rows

attribute [reducible, instance] Postgres.dateEq Postgres.dateOrder

@[reducible] def isoDates : Postgres where
  Date := ℕ ×ₗ ℕ ×ₗ ℕ
  date_in s :=
    if s.length = 10 ∧ (s.take 4 ++ (s.drop 5).take 2 ++ s.drop 8).all Char.isDigit ∧
        s[4]? = some '-' ∧ s[7]? = some '-' then
      some (toLex (Nat.ofDigitChars 10 (s.take 4) 0,
        toLex (Nat.ofDigitChars 10 ((s.drop 5).take 2) 0, Nat.ofDigitChars 10 (s.drop 8) 0)))
    else none
  date_out d := Str.zeroPad 4 (Str.ofNat d.1) ++ '-' :: Str.zeroPad 2 (Str.ofNat d.2.1) ++
    '-' :: Str.zeroPad 2 (Str.ofNat d.2.2)
  date_out_ascii d c hc := by
    have hdash : ('-' : Char).toNat < 0x80 := by decide
    simp only [List.append_assoc, List.cons_append, List.mem_append, List.mem_cons] at hc
    rcases hc with hc | rfl | hc | rfl | hc
    · exact Utf8.ascii_of_isDigit (Str.isDigit_zeroPad hc)
    · exact hdash
    · exact Utf8.ascii_of_isDigit (Str.isDigit_zeroPad hc)
    · exact hdash
    · exact Utf8.ascii_of_isDigit (Str.isDigit_zeroPad hc)
  scan rows := rows
  scan_perm rows := .refl rows

structure Device where
  id : ℤ
  name : Str
  model : Str
  purchase_date : Str
  status : Str
  deriving DecidableEq

/-- A `double` is taken as the decimal that it is written as. -/
structure ServiceType where
  id : ℤ
  name : Str
  recommended_interval_months : ℤ
  standard_cost : ℚ
  deriving DecidableEq

structure ServiceRecord where
  id : ℤ
  device_id : ℤ
  service_id : ℤ
  service_date : Str
  cost : ℚ
  notes : Str
  next_due_date : Str
  deriving DecidableEq

section Tables

variable [Postgres]

open Postgres

structure DeviceRow where
  device_id : ℤ
  name : Str
  model : Option Str
  purchase_date : Option Date
  status : Option Str
  deriving DecidableEq

/-- `standard_cost` is a `DECIMAL(10,2)`, counted in hundredths. -/
structure ServiceTypeRow where
  service_id : ℤ
  name : Str
  recommended_interval_months : Option ℤ
  standard_cost : Option ℤ
  deriving DecidableEq

structure ServiceHistoryRow where
  record_id : ℤ
  device_id : Option ℤ
  service_id : Option ℤ
  service_date : Date
  cost : Option ℤ
  notes : Option Str
  next_due_date : Option Date
  deriving DecidableEq

structure Tables where
  devices : List DeviceRow
  service_types : List ServiceTypeRow
  service_history : List ServiceHistoryRow
  deriving DecidableEq

/-- The next values of the `SERIAL` columns, which no rollback takes back. -/
structure Sequences where
  device_id : ℤ
  service_id : ℤ
  record_id : ℤ
  deriving DecidableEq

inductive SqlError
  | invalid_byte_sequence
  | invalid_datetime
  | value_too_long
  | numeric_overflow
  | sequence_exhausted
  | unique_violation
  | foreign_key_violation
  deriving DecidableEq

/-- A text parameter ends at its first NUL and has to be valid UTF-8. -/
def textParam (s : Str) : Except SqlError Str :=
  let t := s.takeWhile (· ≠ '\x00')
  if Utf8.Valid t then .ok t else .error .invalid_byte_sequence

/-- An assignment to `VARCHAR(n)`: only spaces may be cut off. -/
def varchar (n : ℕ) (s : Str) : Except SqlError Str :=
  let (kept, excess) := Utf8.splitAt n s
  if excess.all (· = ' ') then .ok kept else .error .value_too_long

def dateParam (s : Str) : Except SqlError Date := do
  let t ← textParam s
  match date_in t with
  | some d => .ok d
  | none => .error .invalid_datetime

/-- A date that the source passes as a null pointer when it is empty. -/
def optionalDate (s : Str) : Except SqlError (Option Date) :=
  if s = [] then .ok none else some <$> dateParam s

/-- An assignment to `DECIMAL(10,2)`: rounding half away from zero, eight digits in front
of the point. -/
def decimal (q : ℚ) : Except SqlError ℤ :=
  let n := ⌊|q| * 100 + 1 / 2⌋
  if n < 10 ^ 10 then .ok (if q < 0 then -n else n) else .error .numeric_overflow

def deviceRow (id : ℤ) (d : Device) : Except SqlError DeviceRow := do
  let name ← textParam d.name
  let model ← textParam d.model
  let purchase_date ← optionalDate d.purchase_date
  let status ← textParam d.status
  return ⟨id, ← varchar 100 name, some (← varchar 100 model), purchase_date,
    some (← varchar 20 status)⟩

def serviceTypeRow (id : ℤ) (t : ServiceType) : Except SqlError ServiceTypeRow := do
  let name ← textParam t.name
  return ⟨id, ← varchar 100 name, some t.recommended_interval_months,
    some (← decimal t.standard_cost)⟩

def serviceHistoryRow (id : ℤ) (r : ServiceRecord) : Except SqlError ServiceHistoryRow := do
  let service_date ← dateParam r.service_date
  let notes ← textParam r.notes
  let next_due_date ← optionalDate r.next_due_date
  return ⟨id, some r.device_id, some r.service_id, service_date,
    some (← decimal r.cost), some notes,
    next_due_date⟩

def maxSerial : ℤ := 2147483647

/-- The references of a row of `Service_History`, a null one being no reference. -/
def Referenced (t : Tables) (r : ServiceHistoryRow) : Prop :=
  (∀ id ∈ r.device_id, id ∈ t.devices.map DeviceRow.device_id) ∧
    ∀ id ∈ r.service_id, id ∈ t.service_types.map ServiceTypeRow.service_id

instance (t : Tables) (r : ServiceHistoryRow) : Decidable (Referenced t r) := by
  unfold Referenced
  infer_instance

inductive Statement
  | insertDevice (d : Device)
  | updateDevice (id : ℤ) (d : Device)
  | deleteDevice (id : ℤ)
  | insertServiceType (t : ServiceType)
  | updateServiceType (id : ℤ) (t : ServiceType)
  | deleteServiceType (id : ℤ)
  | insertServiceRecord (r : ServiceRecord)
  | updateServiceRecord (id : ℤ) (r : ServiceRecord)
  | deleteServiceRecord (id : ℤ)
  deriving DecidableEq

/-- A new identifier; the sequence moves on even if the insertion fails after this. -/
def nextval (next : ℤ) : Except SqlError ℤ :=
  if next ≤ maxSerial then .ok next else .error .sequence_exhausted

/-- A statement inside its transaction: the tables after it, or the error that it ends
the transaction with. -/
def execute (t : Tables) (s : Sequences) : Statement → Except SqlError Tables × Sequences
  | .insertDevice d =>
    match deviceRow s.device_id d, nextval s.device_id with
    | .error e, _ => (.error e, s)
    | .ok _, .error e => (.error e, s)
    | .ok row, .ok _ =>
      (if row.device_id ∈ t.devices.map DeviceRow.device_id then .error .unique_violation
        else .ok { t with devices := t.devices ++ [row] }, { s with device_id := s.device_id + 1 })
  | .updateDevice id d =>
    match deviceRow id d with
    | .error e => (.error e, s)
    | .ok row =>
      (.ok { t with devices := t.devices.map (fun r ↦ if r.device_id = id then row else r) }, s)
  | .deleteDevice id =>
    (if id ∈ t.devices.map DeviceRow.device_id ∧
        some id ∈ t.service_history.map ServiceHistoryRow.device_id then
          .error .foreign_key_violation
      else .ok { t with devices := t.devices.filter (·.device_id ≠ id) }, s)
  | .insertServiceType st =>
    match serviceTypeRow s.service_id st, nextval s.service_id with
    | .error e, _ => (.error e, s)
    | .ok _, .error e => (.error e, s)
    | .ok row, .ok _ =>
      (if row.service_id ∈ t.service_types.map ServiceTypeRow.service_id then
        .error .unique_violation
        else .ok { t with service_types := t.service_types ++ [row] },
        { s with service_id := s.service_id + 1 })
  | .updateServiceType id st =>
    match serviceTypeRow id st with
    | .error e => (.error e, s)
    | .ok row =>
      (.ok { t with
        service_types := t.service_types.map (fun r ↦ if r.service_id = id then row else r) }, s)
  | .deleteServiceType id =>
    (if id ∈ t.service_types.map ServiceTypeRow.service_id ∧
        some id ∈ t.service_history.map ServiceHistoryRow.service_id then
          .error .foreign_key_violation
      else .ok { t with service_types := t.service_types.filter (·.service_id ≠ id) }, s)
  | .insertServiceRecord r =>
    match serviceHistoryRow s.record_id r, nextval s.record_id with
    | .error e, _ => (.error e, s)
    | .ok _, .error e => (.error e, s)
    | .ok row, .ok _ =>
      (if row.record_id ∈ t.service_history.map ServiceHistoryRow.record_id then
          .error .unique_violation
        else if Referenced t row then .ok { t with service_history := t.service_history ++ [row] }
        else .error .foreign_key_violation, { s with record_id := s.record_id + 1 })
  | .updateServiceRecord id r =>
    match serviceHistoryRow id r with
    | .error e => (.error e, s)
    | .ok row =>
      (if id ∈ t.service_history.map ServiceHistoryRow.record_id ∧ ¬ Referenced t row then
          .error .foreign_key_violation
        else .ok { t with
          service_history := t.service_history.map
            (fun x ↦ if x.record_id = id then row else x) }, s)
  | .deleteServiceRecord id =>
    (.ok { t with service_history := t.service_history.filter (·.record_id ≠ id) }, s)

inductive Value
  | int (n : ℤ)
  | text (s : Str)
  | numeric (hundredths : ℤ)
  deriving DecidableEq

abbrev Row := List (Option Value)

inductive Query
  | select1
  | devices
  | serviceTypes
  | serviceRecords
  | detailedHistory
  deriving DecidableEq

def dateValue (d : Date) : Value := .text (date_out d)

def latestFirst {α : Type} (date : α → Date) (rows : List α) : List α :=
  (scan rows).insertionSort (fun a b ↦ date b ≤ date a)

/-- The join of `Service_History` with the tables it refers to. -/
def history (t : Tables) : List (ServiceHistoryRow × DeviceRow × ServiceTypeRow) :=
  t.service_history.flatMap fun sh ↦
    (t.devices.filter (fun d ↦ sh.device_id = some d.device_id)).flatMap fun d ↦
      (t.service_types.filter (fun st ↦ sh.service_id = some st.service_id)).map
        fun st ↦ (sh, d, st)

def select (t : Tables) : Query → List Row
  | .select1 => [[some (.int 1)]]
  | .devices =>
    ((scan t.devices).insertionSort (fun a b ↦ a.device_id ≤ b.device_id)).map fun d ↦
      [some (.int d.device_id), some (.text d.name), d.model.map .text,
        d.purchase_date.map dateValue, d.status.map .text]
  | .serviceTypes =>
    ((scan t.service_types).insertionSort (fun a b ↦ a.service_id ≤ b.service_id)).map fun st ↦
      [some (.int st.service_id), some (.text st.name), st.recommended_interval_months.map .int,
        st.standard_cost.map .numeric]
  | .serviceRecords =>
    (latestFirst ServiceHistoryRow.service_date t.service_history).map fun sh ↦
      [some (.int sh.record_id), sh.device_id.map .int, sh.service_id.map .int,
        some (dateValue sh.service_date), sh.cost.map .numeric, sh.notes.map .text,
        sh.next_due_date.map dateValue]
  | .detailedHistory =>
    (latestFirst (fun x : ServiceHistoryRow × DeviceRow × ServiceTypeRow ↦ x.1.service_date)
      (history t)).map fun (sh, d, st) ↦
        [some (.int sh.record_id), some (.text d.name), d.model.map .text, some (.text st.name),
          some (dateValue sh.service_date), sh.cost.map .numeric, sh.notes.map .text,
          sh.next_due_date.map dateValue]

def Tables.append (t : Tables) (rows : List ServiceHistoryRow) : Tables :=
  { t with service_history := t.service_history ++ rows }

@[simp] theorem Tables.append_nil (t : Tables) : t.append [] = t := by
  simp [Tables.append]

@[simp] theorem Tables.append_append (t : Tables) (rows rows' : List ServiceHistoryRow) :
    (t.append rows).append rows' = t.append (rows ++ rows') := by
  simp [Tables.append]

theorem execute_insertServiceRecord {t t' : Tables} {s : Sequences} {record : ServiceRecord}
    (h : (execute t s (.insertServiceRecord record)).1 = .ok t') :
    ∃ row, serviceHistoryRow s.record_id record = .ok row ∧ t' = t.append [row] := by
  simp only [execute] at h
  split at h
  · cases h
  · cases h
  · rename_i row _ hrow _
    dsimp only at h
    split_ifs at h
    obtain ⟨rfl⟩ := h
    exact ⟨row, hrow, rfl⟩

end Tables

end ServiceSystem.Database
