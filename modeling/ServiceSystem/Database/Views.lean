import ServiceSystem.Database.Init

namespace ServiceSystem.Database

open Foundations Program Postgres Rows

section Values

variable [Postgres] {α β : Type}

omit [Postgres] in
theorem convert_map_ok {ofRow : Row → Except PqxxError α} {row : β → Row} {item : β → α}
    {bs : List β} (h : ∀ b ∈ bs, ofRow (row b) = .ok (item b)) :
    (convert ofRow (bs.map row)).1 = bs.map item := by
  induction bs with
  | nil => rfl
  | cons b bs ih =>
    obtain ⟨hb, hbs⟩ := List.forall_mem_cons.mp h
    rw [List.map_cons, convert, hb, List.map_cons]
    exact congrArg (item b :: ·) (ih hbs)

theorem readAll_connect {st : Tables × Sequences} {q : Query} {ofRow : Row → Except PqxxError α}
    {row : β → Row} {item : β → α} {bs : List β} (hq : select st.1 q = bs.map row)
    (h : ∀ b ∈ bs, ofRow (row b) = .ok (item b)) :
    ((readAll q ofRow).run exec (connect st)).1.value = bs.map item := by
  have hb : CanBegin (connect st) ∧ (connect st).faults.exec = .none := ⟨⟨rfl, rfl, rfl⟩, rfl⟩
  rw [readAll_value, queryResult_eq, if_pos hb, Option.elim_some,
    show (connect st).tables = st.1 from rfl, hq, convert_map_ok h]

def hundredths (n : Option ℤ) : ℚ := n.elim 0 (fun n ↦ n / 100)

def dateText (d : Option Date) : Str := d.elim [] date_out

def DeviceRow.device (d : DeviceRow) : Device :=
  ⟨d.device_id, d.name, d.model.getD [], dateText d.purchase_date, d.status.getD "active".toList⟩

def ServiceTypeRow.type (st : ServiceTypeRow) : ServiceType :=
  ⟨st.service_id, st.name, st.recommended_interval_months.getD 0, hundredths st.standard_cost⟩

def ServiceHistoryRow.record (r : ServiceHistoryRow) : ServiceRecord :=
  ⟨r.record_id, r.device_id.getD 0, r.service_id.getD 0, date_out r.service_date, hundredths r.cost,
    r.notes.getD [], dateText r.next_due_date⟩

def detail (x : ServiceHistoryRow × DeviceRow × ServiceTypeRow) : DetailedRecord :=
  ⟨x.1.record_id, x.2.1.name, x.2.1.model.getD [], x.2.2.name, date_out x.1.service_date,
    hundredths x.1.cost, x.1.notes.getD [], dateText x.1.next_due_date⟩

variable (st : Tables × Sequences)

theorem getAllDevices_value : (getAllDevices.run exec (connect st)).1.value =
    ((scan st.1.devices).insertionSort (fun a b ↦ a.device_id ≤ b.device_id)).map
      DeviceRow.device := by
  refine readAll_connect rfl fun d _ ↦ ?_
  obtain ⟨id, name, model, date, status⟩ := d
  cases model <;> cases date <;> cases status <;> rfl

theorem getAllServiceTypes_value : (getAllServiceTypes.run exec (connect st)).1.value =
    ((scan st.1.service_types).insertionSort (fun a b ↦ a.service_id ≤ b.service_id)).map
      ServiceTypeRow.type := by
  refine readAll_connect rfl fun st _ ↦ ?_
  obtain ⟨id, name, interval, cost⟩ := st
  cases interval <;> cases cost <;> rfl

theorem getDetailedServiceHistory_value :
    (getDetailedServiceHistory.run exec (connect st)).1.value =
      (latestFirst (fun x : ServiceHistoryRow × DeviceRow × ServiceTypeRow ↦ x.1.service_date)
        (history st.1)).map detail := by
  refine readAll_connect rfl fun x _ ↦ ?_
  obtain ⟨⟨id, device, service, date, cost, notes, next⟩, ⟨_, name, model, _, _⟩, type⟩ := x
  cases model <;> cases cost <;> cases notes <;> cases next <;> rfl

variable {st}

theorem getAllServiceRecords_value (h : Attributed st.1) :
    (getAllServiceRecords.run exec (connect st)).1.value =
      (latestFirst ServiceHistoryRow.service_date st.1.service_history).map
        ServiceHistoryRow.record := by
  refine readAll_connect rfl fun r hr ↦ ?_
  obtain ⟨hd, hs⟩ := h r (mem_sorted.mp hr)
  obtain ⟨id, device, service, date, cost, notes, next⟩ := r
  obtain ⟨device, rfl⟩ := Option.isSome_iff_exists.mp hd
  obtain ⟨service, rfl⟩ := Option.isSome_iff_exists.mp hs
  cases cost <;> cases notes <;> cases next <;> rfl

end Values

section Join

variable [Postgres] {t : Tables}

theorem history_fst (h : Integrity t) : (history t).map Prod.fst = t.service_history := by
  have hone : ∀ r ∈ t.service_history, ((t.devices.filter
      (fun d ↦ r.device_id = some d.device_id)).flatMap fun d ↦
        (t.service_types.filter (fun st ↦ r.service_id = some st.service_id)).map
          fun st ↦ (r, d, st)).map Prod.fst = [r] := by
    intro r hr
    obtain ⟨d, hd, hdevice⟩ := h.devices r hr
    obtain ⟨st, hst, hservice⟩ := h.service_types r hr
    have hdevices := filter_key h.device_ids hd
    have htypes := filter_key h.service_ids hst
    simp only [hdevice, hservice, Option.some.injEq, hdevices, htypes, List.flatMap_singleton,
      List.map_cons, List.map_nil]
  rw [history, List.map_flatMap, List.flatMap_congr hone, List.flatMap_singleton']

theorem of_mem_history {x : ServiceHistoryRow × DeviceRow × ServiceTypeRow} (h : x ∈ history t) :
    x.1.device_id = some x.2.1.device_id ∧ x.1.service_id = some x.2.2.service_id := by
  obtain ⟨sh, -, h⟩ := List.mem_flatMap.mp h
  obtain ⟨d, hd, h⟩ := List.mem_flatMap.mp h
  obtain ⟨st, hst, rfl⟩ := List.mem_map.mp h
  exact ⟨of_decide_eq_true (List.mem_filter.mp hd).2, of_decide_eq_true (List.mem_filter.mp hst).2⟩

theorem latestFirst_perm {β : Type} (date : β → Date) (rows : List β) :
    (latestFirst date rows).Perm rows :=
  (List.perm_insertionSort _ _).trans (scan_perm rows)

end Join

/-- A detailed record says of a plain one what the tables of devices and service types say. -/
structure Details (devices : List Device) (types : List ServiceType) (r : ServiceRecord)
    (d : DetailedRecord) : Prop where
  service_date : d.service_date = r.service_date
  cost : d.cost = r.cost
  notes : d.notes = r.notes
  next_due_date : d.next_due_date = r.next_due_date
  device : ∃ device ∈ devices, device.id = r.device_id ∧ d.device_name = device.name ∧
    d.model = device.model
  service : ∃ type ∈ types, type.id = r.service_id ∧ d.service_name = type.name

section

variable [Postgres]

/-- The two views of the history, and the lists of devices and service types that they refer to,
as the methods return them for the same tables. -/
def ViewsAgree (st : Tables × Sequences) : Prop :=
  let devices := (getAllDevices.run exec (connect st)).1.value
  let types := (getAllServiceTypes.run exec (connect st)).1.value
  let plain := (getAllServiceRecords.run exec (connect st)).1.value
  let detailed := (getDetailedServiceHistory.run exec (connect st)).1.value
  (plain.map ServiceRecord.id).Perm (detailed.map DetailedRecord.record_id) ∧
    (plain.map ServiceRecord.id).Nodup ∧
    (devices.map Device.id).Nodup ∧ (types.map ServiceType.id).Nodup ∧
    ∀ r ∈ plain, ∀ d ∈ detailed, d.record_id = r.id → Details devices types r d

theorem viewsAgree_of_integrity {st : Tables × Sequences} (h : Integrity st.1) : ViewsAgree st := by
  have hplain := latestFirst_perm ServiceHistoryRow.service_date st.1.service_history
  have hdetailed := latestFirst_perm
    (fun x : ServiceHistoryRow × DeviceRow × ServiceTypeRow ↦ x.1.service_date) (history st.1)
  have hids : (history st.1).map (fun x ↦ x.1.record_id) =
      st.1.service_history.map ServiceHistoryRow.record_id := by
    have hmap := congrArg (List.map ServiceHistoryRow.record_id) (history_fst h)
    rwa [List.map_map] at hmap
  have hsorted : ∀ {β : Type} {le : β → β → Prop} [DecidableRel le] (rows : List β),
      ((scan rows).insertionSort le).Perm rows :=
    fun rows ↦ (List.perm_insertionSort _ _).trans (scan_perm rows)
  simp only [ViewsAgree, getAllDevices_value, getAllServiceTypes_value,
    getAllServiceRecords_value h.attributed,
    getDetailedServiceHistory_value, List.map_map]
  refine ⟨?_, ?_, ?_, ?_, ?_⟩
  · have hperm := (hdetailed.map (fun x ↦ x.1.record_id)).trans (.of_eq hids)
    exact (hplain.map ServiceHistoryRow.record_id).trans hperm.symm
  · exact (hplain.map ServiceHistoryRow.record_id).nodup_iff.mpr h.record_ids
  · exact ((hsorted st.1.devices).map DeviceRow.device_id).nodup_iff.mpr h.device_ids
  · exact ((hsorted st.1.service_types).map ServiceTypeRow.service_id).nodup_iff.mpr h.service_ids
  · intro r hr d hd hid
    obtain ⟨sh, hsh, rfl⟩ := List.mem_map.mp hr
    obtain ⟨x, hx, rfl⟩ := List.mem_map.mp hd
    have hx := hdetailed.mem_iff.mp hx
    obtain ⟨hrecord, hdevice, hservice⟩ := mem_history hx
    obtain rfl := eq_of_key h.record_ids hrecord (hplain.mem_iff.mp hsh) hid
    obtain ⟨hd, hst⟩ := of_mem_history hx
    refine ⟨rfl, rfl, rfl, rfl, ⟨x.2.1.device, ?_, ?_, rfl, rfl⟩, ⟨x.2.2.type, ?_, ?_, rfl⟩⟩
    · exact List.mem_map_of_mem (mem_sorted.mpr hdevice)
    · rw [ServiceHistoryRow.record, hd]
      rfl
    · exact List.mem_map_of_mem (mem_sorted.mpr hservice)
    · rw [ServiceHistoryRow.record, hst]
      rfl

/-- From docker/init.sql on, whatever the class is asked to change, and whatever goes wrong with
it, the two views of the history agree. -/
theorem reached_viewsAgree (ops : List (Faults × Statement)) :
    ViewsAgree ((reached ops).tables, (reached ops).sequences) :=
  viewsAgree_of_integrity (integrity_reached ops)

end

end ServiceSystem.Database
