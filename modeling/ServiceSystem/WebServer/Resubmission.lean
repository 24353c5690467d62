import ServiceSystem.Database.Ranges
import ServiceSystem.WebServer.Costs
import ServiceSystem.WebServer.Ids

namespace ServiceSystem.WebServer

open Foundations Program Interleaving Database Nlohmann

variable {r : ServiceRecord} {n : ℤ} {d : ℚ}

/-- What the members of the `struct` hold of a row that has been read. -/
structure Held (r : ServiceRecord) : Prop where
  id : InRange r.id
  device_id : InRange r.device_id
  service_id : InRange r.service_id
  service_date : Utf8.Valid r.service_date
  cost : ∃ n : ℤ, |n| < 10 ^ 10 ∧ r.cost = n / 100
  notes : Utf8.Valid r.notes
  next_due_date : Utf8.Valid r.next_due_date

/-- The record with the `double` that the text of its cost is converted to. -/
def inDoubles (r : ServiceRecord) : ServiceRecord := { r with cost := (toDouble r.cost).getD 0 }

/-- The entries of the object, in the order of the keys. -/
theorem serviceRecordJson_eq (r : ServiceRecord) : serviceRecordJson r = .object
    [("cost".toList, .number_float r.cost), ("device_id".toList, .number_integer r.device_id),
      ("id".toList, .number_integer r.id), ("next_due_date".toList, .string r.next_due_date),
      ("notes".toList, .string r.notes), ("service_date".toList, .string r.service_date),
      ("service_id".toList, .number_integer r.service_id)] := rfl

theorem inRange_of_serial (hpos : 0 < n) (hle : n ≤ maxSerial) : InRange n := by
  unfold maxSerial at hle
  unfold InRange
  omega

theorem InRange.representable (h : InRange n) : Representable (.number_integer n) := by
  obtain ⟨hlow, hhigh⟩ := h
  exact (by omega : -2 ^ 63 ≤ n ∧ n < 2 ^ 63)

theorem Held.valid (h : Held r) (d : ℚ) : (serviceRecordJson { r with cost := d }).Valid := by
  refine Json.Valid.ofEntries ?_
  simp only [List.forall_mem_cons, Json.Valid.string_iff]
  exact ⟨⟨by decide, .number_integer _⟩, ⟨by decide, .number_integer _⟩,
    ⟨by decide, .number_integer _⟩, ⟨by decide, h.service_date⟩, ⟨by decide, .number_float _⟩,
    ⟨by decide, h.notes⟩, ⟨by decide, h.next_due_date⟩, nofun⟩

theorem Held.representable (h : Held r) (hcost : toDouble d = some d) :
    Representable (serviceRecordJson { r with cost := d }) := by
  refine ofEntries_representable ?_
  simp only [List.forall_mem_cons]
  exact ⟨⟨isBytes_of_valid (by decide), h.id.representable⟩,
    ⟨isBytes_of_valid (by decide), h.device_id.representable⟩,
    ⟨isBytes_of_valid (by decide), h.service_id.representable⟩,
    ⟨isBytes_of_valid (by decide), isBytes_of_valid h.service_date⟩,
    ⟨isBytes_of_valid (by decide), hcost⟩,
    ⟨isBytes_of_valid (by decide), isBytes_of_valid h.notes⟩,
    ⟨isBytes_of_valid (by decide), isBytes_of_valid h.next_due_date⟩, nofun⟩

/-- An `int` is the same after it has been read as an unsigned number. -/
theorem get_int_canonical (h : InRange n) : (canonical (.number_integer n)).get_int = .ok n := by
  have hvalue : integerOf (canonical (.number_integer n)) = some n := by cases n <;> rfl
  rw [get_int_of_integerOf hvalue, wrap_of_inRange h]

theorem readRecord_canonical (h : Held r) (d : ℚ) :
    readRecord (canonical (serviceRecordJson { r with cost := d })) =
      .ok { r with id := 0, cost := d } := by
  have hdevice := get_int_canonical h.device_id
  have hservice := get_int_canonical h.service_id
  rw [serviceRecordJson_eq]
  dsimp only
  rw [readRecord, get_canonical "device_id".toList rfl, get_canonical "service_id".toList rfl,
    get_canonical "service_date".toList rfl, get_canonical "cost".toList rfl,
    get_canonical "notes".toList rfl, get_canonical "next_due_date".toList rfl]
  change ((canonical (.number_integer r.device_id)).get_int >>= fun device_id ↦
    (canonical (.number_integer r.service_id)).get_int >>= fun service_id ↦
      Except.ok (ServiceRecord.mk 0 device_id service_id r.service_date d r.notes
        r.next_due_date)) = _
  rw [hdevice, hservice]
  rfl

theorem inDoubles_double (h : Held r) : toDouble (inDoubles r).cost = some (inDoubles r).cost := by
  obtain ⟨n, hn, hcost⟩ := h.cost
  obtain ⟨d, hd, -, -⟩ := cents_toDouble hn
  rw [inDoubles, hcost, hd, Option.getD_some, toDouble_toDouble hd]

variable [Postgres] {rs : List ServiceRecord} {t : Tables} {q : Sequences}

/-- The double of a cost is stored as the cost is. -/
theorem serviceHistoryRow_inDoubles (h : Held r) (id : ℤ) :
    serviceHistoryRow id { inDoubles r with id := 0 } = serviceHistoryRow id r := by
  obtain ⟨n, hn, hcost⟩ := h.cost
  obtain ⟨d, hd, hnear, hzero⟩ := cents_toDouble hn
  have hdouble : decimal d = .ok n := decimal_cents hn hnear hzero
  have hexact : decimal r.cost = .ok n := by
    refine decimal_cents hn ?_ fun hn ↦ ?_
    · rw [hcost, sub_self, abs_zero]
      positivity
    · rw [hcost, hn, Int.cast_zero, zero_div]
  have hsame : (inDoubles r).cost = d := by rw [inDoubles, hcost, hd, Option.getD_some]
  simp only [serviceHistoryRow, hsame, hdouble, hexact]
  rfl

/-- The listing of records is a text from which each of them, sent back as the body of a request,
is read as it was and is stored as it was. -/
def Resubmits (rs : List ServiceRecord) : Prop :=
  ∃ text items, dump (.array ((rs.map inDoubles).map serviceRecordJson)) = .ok text ∧
    parse text = .ok (.array items) ∧
    List.Forall₂ (fun item r ↦ ∃ body, dump item = .ok body ∧
      (parse body >>= readRecord) = .ok { inDoubles r with id := 0 } ∧
      ∀ id, serviceHistoryRow id { inDoubles r with id := 0 } = serviceHistoryRow id r) items rs

theorem resubmits_of_held (h : ∀ r ∈ rs, Held r) : Resubmits rs := by
  rw [Resubmits, List.map_map]
  have helement : ∀ r ∈ rs, Representable (serviceRecordJson (inDoubles r)) :=
    fun r hr ↦ (h r hr).representable (inDoubles_double (h r hr))
  have hvalid : ∀ r ∈ rs, (serviceRecordJson (inDoubles r)).Valid := fun r hr ↦ (h r hr).valid _
  obtain ⟨text, hdump, hparse, -⟩ := valid_roundTrips
    (j := .array (rs.map (serviceRecordJson ∘ inDoubles)))
    (itemsRepresentable_iff.mpr (List.forall_mem_map.mpr helement))
    (Json.Valid.array_iff.mpr (List.forall_mem_map.mpr hvalid))
  refine ⟨text, _, hdump, hparse, ?_⟩
  rw [canonicalItems_eq_map, List.map_map, List.forall₂_map_left_iff, List.forall₂_same]
  intro r hr
  -- The element that was read is written as the record's own object is.
  obtain ⟨body, -, hbody, hagain⟩ := valid_roundTrips (helement r hr) (hvalid r hr)
  refine ⟨body, hagain, ?_, serviceHistoryRow_inDoubles (h r hr)⟩
  rw [hbody]
  exact readRecord_canonical (h r hr) _

theorem dateText_valid (d : Option Postgres.Date) : Utf8.Valid (dateText d) := by
  cases d with
  | none => exact Utf8.valid_nil
  | some d => exact Utf8.valid_of_ascii (Postgres.date_out_ascii d)

omit [Postgres] in
theorem hundredths_held {cost : Option ℤ} (h : ∀ n ∈ cost, |n| < 10 ^ 10) :
    ∃ n : ℤ, |n| < 10 ^ 10 ∧ hundredths cost = n / 100 := by
  cases cost with
  | none => exact ⟨0, by decide, by rw [Int.cast_zero, zero_div]; rfl⟩
  | some n => exact ⟨n, h n rfl, rfl⟩

/-- What is read of a row is within the types of the members. -/
theorem record_held (h : Ranged t q) {row : ServiceHistoryRow} (hrow : row ∈ t.service_history) :
    Held row.record := by
  have hserial : ∀ k, ∀ id ∈ t.ids k, InRange id :=
    fun k id hid ↦ inRange_of_serial (h.ids k id hid).1 (h.ids k id hid).2
  obtain ⟨device, hdevice, hdevice_id⟩ := h.integrity.devices row hrow
  obtain ⟨type, htype, hservice_id⟩ := h.integrity.service_types row hrow
  obtain ⟨hcost, hnotes⟩ := h.rows row hrow
  refine ⟨hserial .service_history _ (List.mem_map_of_mem hrow), ?_, ?_,
    Utf8.valid_of_ascii (Postgres.date_out_ascii _), hundredths_held hcost, ?_, dateText_valid _⟩
  · rw [ServiceHistoryRow.record, hdevice_id]
    exact hserial .devices _ (List.mem_map_of_mem hdevice)
  · rw [ServiceHistoryRow.record, hservice_id]
    exact hserial .service_types _ (List.mem_map_of_mem htype)
  · show Utf8.Valid (row.notes.getD [])
    cases hnote : row.notes with
    | none => exact Utf8.valid_nil
    | some s => exact hnotes s hnote

/-- Whatever calls have come to the database of docker/init.sql, and however they overlapped. -/
theorem records_resubmitted {ι : Type} [DecidableEq ι] {calls : ι → List (Faults × Call)}
    {c : Config ι (Faults × Call) FaultyOp FaultyAns Reply Connection}
    (h : Reaches faultySystem anyStep (initial (connect initialized) calls) c) :
    Resubmits (records (c.shared.tables, c.shared.sequences)) := by
  have hranged : Ranged c.shared.tables c.shared.sequences := (Ranged.reached h).1
  refine resubmits_of_held fun r hr ↦ ?_
  obtain ⟨row, hrow, rfl⟩ :=
    List.mem_map.mp ((records_perm hranged.integrity.attributed).mem_iff.mp hr)
  exact record_held hranged hrow

omit [Postgres] in
theorem records_resubmitted_inAddition :
    letI := isoDates
    Resubmits (records (inAddition.shared.tables, inAddition.shared.sequences)) :=
  letI := isoDates
  records_resubmitted (c := inAddition) ⟨_, playFrom_run freshly [0, 0, 1, 1, 1, 0]⟩

end ServiceSystem.WebServer
