import ServiceSystem.Database.Reads
import ServiceSystem.Foundations.Rows

namespace ServiceSystem.Database

open Foundations Program Rows

variable [Postgres]

/-- Every row has a key of its own, and every record of a service refers to a device and to a
service type that are there. -/
structure Integrity (t : Tables) : Prop where
  device_ids : (t.devices.map DeviceRow.device_id).Nodup
  service_ids : (t.service_types.map ServiceTypeRow.service_id).Nodup
  record_ids : (t.service_history.map ServiceHistoryRow.record_id).Nodup
  devices : ∀ r ∈ t.service_history, ∃ d ∈ t.devices, r.device_id = some d.device_id
  service_types : ∀ r ∈ t.service_history, ∃ st ∈ t.service_types, r.service_id = some st.service_id

theorem deviceRow_id {id : ℤ} {d : Device} {row : DeviceRow} (h : deviceRow id d = .ok row) :
    row.device_id = id := by
  simp only [deviceRow, except_bind_eq_ok] at h
  obtain ⟨_, _, _, _, _, _, _, _, _, _, _, _, _, _, ⟨⟩⟩ := h
  rfl

omit [Postgres] in
theorem serviceTypeRow_id {id : ℤ} {st : ServiceType} {row : ServiceTypeRow}
    (h : serviceTypeRow id st = .ok row) : row.service_id = id := by
  simp only [serviceTypeRow, except_bind_eq_ok] at h
  obtain ⟨_, _, _, _, _, _, ⟨⟩⟩ := h
  rfl

theorem serviceHistoryRow_ids {id : ℤ} {r : ServiceRecord} {row : ServiceHistoryRow}
    (h : serviceHistoryRow id r = .ok row) :
    row.record_id = id ∧ row.device_id = some r.device_id ∧ row.service_id = some r.service_id := by
  simp only [serviceHistoryRow, except_bind_eq_ok] at h
  obtain ⟨_, _, _, _, _, _, _, _, ⟨⟩⟩ := h
  exact ⟨rfl, rfl, rfl⟩

theorem referenced_of_mem {t : Tables} {row : ServiceHistoryRow} {device service : ℤ}
    (hd : row.device_id = some device) (hs : row.service_id = some service) (h : Referenced t row) :
    (∃ d ∈ t.devices, row.device_id = some d.device_id) ∧
      ∃ st ∈ t.service_types, row.service_id = some st.service_id := by
  obtain ⟨d, hmem, hid⟩ := List.mem_map.mp (h.1 device hd)
  obtain ⟨st, hmem', hid'⟩ := List.mem_map.mp (h.2 service hs)
  exact ⟨⟨d, hmem, by rw [hd, hid]⟩, ⟨st, hmem', by rw [hs, hid']⟩⟩

namespace Integrity

variable {t : Tables}

theorem attributed (h : Integrity t) : Attributed t := by
  intro r hr
  obtain ⟨d, -, hd⟩ := h.devices r hr
  obtain ⟨st, -, hst⟩ := h.service_types r hr
  exact ⟨hd ▸ rfl, hst ▸ rfl⟩

theorem insertDevice (h : Integrity t) {row : DeviceRow}
    (hrow : row.device_id ∉ t.devices.map DeviceRow.device_id) :
    Integrity { t with devices := t.devices ++ [row] } where
  device_ids := nodup_append h.device_ids hrow
  service_ids := h.service_ids
  record_ids := h.record_ids
  devices r hr := by
    obtain ⟨d, hd, hid⟩ := h.devices r hr
    exact ⟨d, List.mem_append_left _ hd, hid⟩
  service_types := h.service_types

theorem updateDevice (h : Integrity t) {id : ℤ} {row : DeviceRow} (hrow : row.device_id = id) :
    Integrity { t with
      devices := t.devices.map (fun r ↦ if r.device_id = id then row else r) } := by
  have hkeys := map_replace hrow t.devices
  refine ⟨hkeys ▸ h.device_ids, h.service_ids, h.record_ids, fun r hr ↦ ?_, h.service_types⟩
  obtain ⟨d, hd, hid⟩ := h.devices r hr
  have hmem : d.device_id ∈ t.devices.map DeviceRow.device_id := List.mem_map_of_mem hd
  rw [← hkeys, ← exists_key_iff] at hmem
  obtain ⟨d', hd', hid'⟩ := hmem
  exact ⟨d', hd', hid.trans (congrArg some hid')⟩

theorem deleteDevice (h : Integrity t) {id : ℤ}
    (hid : ¬ (id ∈ t.devices.map DeviceRow.device_id ∧
      some id ∈ t.service_history.map ServiceHistoryRow.device_id)) :
    Integrity { t with devices := t.devices.filter (·.device_id ≠ id) } := by
  refine ⟨nodup_filter h.device_ids _, h.service_ids, h.record_ids, fun r hr ↦ ?_, h.service_types⟩
  obtain ⟨d, hd, hr'⟩ := h.devices r hr
  refine ⟨d, List.mem_filter.mpr ⟨hd, ?_⟩, hr'⟩
  rw [decide_eq_true_iff]
  rintro rfl
  exact hid ⟨List.mem_map_of_mem hd, List.mem_map.mpr ⟨r, hr, hr'⟩⟩

theorem insertServiceType (h : Integrity t) {row : ServiceTypeRow}
    (hrow : row.service_id ∉ t.service_types.map ServiceTypeRow.service_id) :
    Integrity { t with service_types := t.service_types ++ [row] } where
  device_ids := h.device_ids
  service_ids := nodup_append h.service_ids hrow
  record_ids := h.record_ids
  devices := h.devices
  service_types r hr := by
    obtain ⟨st, hst, hid⟩ := h.service_types r hr
    exact ⟨st, List.mem_append_left _ hst, hid⟩

theorem updateServiceType (h : Integrity t) {id : ℤ} {row : ServiceTypeRow}
    (hrow : row.service_id = id) :
    Integrity { t with
      service_types := t.service_types.map (fun r ↦ if r.service_id = id then row else r) } := by
  have hkeys := map_replace hrow t.service_types
  refine ⟨h.device_ids, hkeys ▸ h.service_ids, h.record_ids, h.devices, fun r hr ↦ ?_⟩
  obtain ⟨st, hst, hid⟩ := h.service_types r hr
  have hmem : st.service_id ∈ t.service_types.map ServiceTypeRow.service_id :=
    List.mem_map_of_mem hst
  rw [← hkeys, ← exists_key_iff] at hmem
  obtain ⟨st', hst', hid'⟩ := hmem
  exact ⟨st', hst', hid.trans (congrArg some hid')⟩

theorem deleteServiceType (h : Integrity t) {id : ℤ}
    (hid : ¬ (id ∈ t.service_types.map ServiceTypeRow.service_id ∧
      some id ∈ t.service_history.map ServiceHistoryRow.service_id)) :
    Integrity { t with service_types := t.service_types.filter (·.service_id ≠ id) } := by
  refine ⟨h.device_ids, nodup_filter h.service_ids _, h.record_ids, h.devices, fun r hr ↦ ?_⟩
  obtain ⟨st, hst, hr'⟩ := h.service_types r hr
  refine ⟨st, List.mem_filter.mpr ⟨hst, ?_⟩, hr'⟩
  rw [decide_eq_true_iff]
  rintro rfl
  exact hid ⟨List.mem_map_of_mem hst, List.mem_map.mpr ⟨r, hr, hr'⟩⟩

theorem insertServiceRecord (h : Integrity t) {id : ℤ} {record : ServiceRecord}
    {row : ServiceHistoryRow} (hrow : serviceHistoryRow id record = .ok row)
    (hid : row.record_id ∉ t.service_history.map ServiceHistoryRow.record_id)
    (href : Referenced t row) : Integrity (t.append [row]) := by
  obtain ⟨-, hd, hs⟩ := serviceHistoryRow_ids hrow
  obtain ⟨hdevice, hservice⟩ := referenced_of_mem hd hs href
  refine ⟨h.device_ids, h.service_ids, nodup_append h.record_ids hid, ?_, ?_⟩
  · exact List.forall_mem_append.mpr ⟨h.devices, List.forall_mem_singleton.mpr hdevice⟩
  · exact List.forall_mem_append.mpr ⟨h.service_types, List.forall_mem_singleton.mpr hservice⟩

theorem updateServiceRecord (h : Integrity t) {id : ℤ} {record : ServiceRecord}
    {row : ServiceHistoryRow} (hrow : serviceHistoryRow id record = .ok row)
    (href : ¬ (id ∈ t.service_history.map ServiceHistoryRow.record_id ∧ ¬ Referenced t row)) :
    Integrity { t with
      service_history := t.service_history.map (fun x ↦ if x.record_id = id then row else x) } := by
  obtain ⟨hid, hd, hs⟩ := serviceHistoryRow_ids hrow
  have hkeys := map_replace hid t.service_history
  have hreferenced : ∀ x ∈ t.service_history, x.record_id = id → Referenced t row := by
    intro x hx hxid
    by_contra hno
    exact href ⟨hxid ▸ List.mem_map_of_mem hx, hno⟩
  refine ⟨h.device_ids, h.service_ids, hkeys ▸ h.record_ids, ?_, ?_⟩
  · refine List.forall_mem_map.mpr fun x hx ↦ ?_
    split_ifs with hxid
    · exact (referenced_of_mem hd hs (hreferenced x hx hxid)).1
    · exact h.devices x hx
  · refine List.forall_mem_map.mpr fun x hx ↦ ?_
    split_ifs with hxid
    · exact (referenced_of_mem hd hs (hreferenced x hx hxid)).2
    · exact h.service_types x hx

theorem deleteServiceRecord (h : Integrity t) (id : ℤ) :
    Integrity { t with service_history := t.service_history.filter (·.record_id ≠ id) } where
  device_ids := h.device_ids
  service_ids := h.service_ids
  record_ids := nodup_filter h.record_ids _
  devices r hr := h.devices r (List.mem_of_mem_filter hr)
  service_types r hr := h.service_types r (List.mem_of_mem_filter hr)

/-- No statement of the class breaks a key or a reference. -/
theorem execute (h : Integrity t) {s : Sequences} {st : Statement} {t' : Tables}
    (hx : (Database.execute t s st).1 = .ok t') : Integrity t' := by
  cases st with
  | insertDevice d =>
    simp only [Database.execute] at hx
    split at hx
    · cases hx
    · cases hx
    · dsimp only at hx
      split_ifs at hx with hrow
      obtain ⟨rfl⟩ := hx
      exact h.insertDevice hrow
  | updateDevice id d =>
    simp only [Database.execute] at hx
    split at hx
    · cases hx
    · rename_i row hrow
      obtain ⟨rfl⟩ := hx
      exact h.updateDevice (deviceRow_id hrow)
  | deleteDevice id =>
    simp only [Database.execute] at hx
    split_ifs at hx with hid
    obtain ⟨rfl⟩ := hx
    exact h.deleteDevice hid
  | insertServiceType type =>
    simp only [Database.execute] at hx
    split at hx
    · cases hx
    · cases hx
    · dsimp only at hx
      split_ifs at hx with hrow
      obtain ⟨rfl⟩ := hx
      exact h.insertServiceType hrow
  | updateServiceType id type =>
    simp only [Database.execute] at hx
    split at hx
    · cases hx
    · rename_i row hrow
      obtain ⟨rfl⟩ := hx
      exact h.updateServiceType (serviceTypeRow_id hrow)
  | deleteServiceType id =>
    simp only [Database.execute] at hx
    split_ifs at hx with hid
    obtain ⟨rfl⟩ := hx
    exact h.deleteServiceType hid
  | insertServiceRecord record =>
    simp only [Database.execute] at hx
    split at hx
    · cases hx
    · cases hx
    · rename_i row _ hrow _
      dsimp only at hx
      split_ifs at hx with hid href
      obtain ⟨rfl⟩ := hx
      exact h.insertServiceRecord hrow hid href
  | updateServiceRecord id record =>
    simp only [Database.execute] at hx
    split at hx
    · cases hx
    · rename_i row hrow
      dsimp only at hx
      split_ifs at hx with href
      obtain ⟨rfl⟩ := hx
      exact h.updateServiceRecord hrow href
  | deleteServiceRecord id =>
    obtain ⟨rfl⟩ := hx
    exact h.deleteServiceRecord id

/-- However a method ends, the tables that it leaves are intact. -/
theorem writer {c : Connection} (h : Integrity c.tables) (s : Statement) :
    Integrity ((Database.writer s).run exec c).2.tables := by
  rw [writer_eq]
  rcases mutate_cases c s with ⟨-, -, ht, -⟩ | ⟨t, -, ht, hcommit⟩
  · exact ht ▸ h
  · cases hf : c.faults.commit with
    | none =>
      rw [hf] at hcommit
      exact hcommit.2 ▸ h.execute ht
    | rejected =>
      rw [hf] at hcommit
      exact hcommit.2 ▸ h
    | unknown applied lost =>
      rw [hf] at hcommit
      rw [hcommit.2]
      split_ifs
      · exact h.execute ht
      · exact h

end Integrity

end ServiceSystem.Database
