import ServiceSystem.Database.Integrity
import Mathlib.Data.List.TakeWhile

namespace ServiceSystem.Database

open Foundations Program Postgres Rows

section Values

def TextKept (n : ℕ) (s : Str) : Prop := '\x00' ∉ s ∧ (Utf8.splitAt n s).2 = []

/-- A whole number of hundredths. -/
def Cents (q : ℚ) : Prop := ∃ n : ℤ, q * 100 = n

/-- The values that the columns of `Devices` take as they are. -/
structure Device.Kept (d : Device) : Prop where
  name : TextKept 100 d.name
  model : TextKept 100 d.model
  purchase_date : '\x00' ∉ d.purchase_date
  status : TextKept 20 d.status

structure ServiceType.Kept (t : ServiceType) : Prop where
  name : TextKept 100 t.name
  standard_cost : Cents t.standard_cost

structure ServiceRecord.Kept (r : ServiceRecord) : Prop where
  service_date : '\x00' ∉ r.service_date
  cost : Cents r.cost
  notes : '\x00' ∉ r.notes
  next_due_date : '\x00' ∉ r.next_due_date

theorem cString_eq_iff {s : Str} : s.takeWhile (· ≠ '\x00') = s ↔ '\x00' ∉ s := by
  rw [List.takeWhile_eq_self_iff]
  constructor
  · intro h hmem
    exact absurd rfl (of_decide_eq_true (h _ hmem))
  · intro h c hc
    refine decide_eq_true ?_
    rintro rfl
    exact h hc

theorem textParam_eq_ok {s t : Str} (h : textParam s = .ok t) :
    t = s.takeWhile (· ≠ '\x00') := by
  unfold textParam at h
  dsimp only at h
  split_ifs at h
  exact (Except.ok.inj h).symm

theorem textParam_kept {s t : Str} (h : textParam s = .ok t) : t = s ↔ '\x00' ∉ s := by
  rw [textParam_eq_ok h]
  exact cString_eq_iff

theorem splitAt_append (n : ℕ) (s : Str) : (Utf8.splitAt n s).1 ++ (Utf8.splitAt n s).2 = s := by
  induction n, s using Utf8.splitAt.induct with
  | case1 n => rw [Utf8.splitAt]; rfl
  | case2 c s hc ih => rw [Utf8.splitAt, if_pos hc, List.cons_append, ih]
  | case3 c s hc => rw [Utf8.splitAt, if_neg hc]; rfl
  | case4 n c s hc ih => rw [Utf8.splitAt, if_pos hc, List.cons_append, ih]
  | case5 n c s hc ih => rw [Utf8.splitAt, if_neg hc, List.cons_append, ih]

theorem varchar_kept {n : ℕ} {s t v : Str} (h : textParam s = .ok t) (hv : varchar n t = .ok v) :
    v = s ↔ TextKept n s := by
  have ht := textParam_eq_ok h
  have hsplit := splitAt_append n t
  obtain rfl : (Utf8.splitAt n t).1 = v := by
    rw [varchar] at hv
    dsimp only at hv
    split_ifs at hv
    exact Except.ok.inj hv
  constructor
  · intro he
    have hlength := congrArg List.length hsplit
    rw [List.length_append, he] at hlength
    have hle : t.length ≤ s.length := ht ▸ (List.takeWhile_sublist _).length_le
    have hts : t = s := by
      rw [ht]
      exact (List.takeWhile_sublist _).eq_of_length_le (by rw [← ht]; omega)
    refine ⟨(textParam_kept h).mp hts, ?_⟩
    refine List.eq_nil_of_length_eq_zero ?_
    rw [hts] at hlength
    omega
  · rintro ⟨hnul, hrest⟩
    obtain rfl : t = s := (textParam_kept h).mpr hnul
    rw [hrest, List.append_nil] at hsplit
    exact hsplit

theorem decimal_kept {q : ℚ} {n : ℤ} (h : decimal q = .ok n) : (n : ℚ) = q * 100 ↔ Cents q := by
  constructor
  · exact fun he ↦ ⟨n, he.symm⟩
  · rintro ⟨k, hk⟩
    have habs : |q| * 100 = (|k| : ℤ) := by
      rw [Int.cast_abs, ← hk, abs_mul]
      norm_num
    have hfloor : ⌊|q| * 100 + 1 / 2⌋ = |k| := by
      rw [habs, Int.floor_eq_iff]
      constructor <;> norm_num
    have hsign : q < 0 ↔ k < 0 := by
      rw [← Int.cast_lt (R := ℚ), ← hk, Int.cast_zero]
      constructor <;> intro hq <;> linarith
    unfold decimal at h
    rw [hfloor] at h
    dsimp only at h
    split_ifs at h with hlt hq
    · obtain ⟨rfl⟩ := h
      rw [hk, abs_of_neg (hsign.mp hq), neg_neg]
    · obtain ⟨rfl⟩ := h
      rw [hk, abs_of_nonneg (not_lt.mp (hsign.not.mp hq))]

structure ServiceTypeRow.Holds (row : ServiceTypeRow) (t : ServiceType) : Prop where
  name : row.name = t.name
  interval : row.recommended_interval_months = some t.recommended_interval_months
  standard_cost : row.standard_cost.map (fun n : ℤ ↦ (n : ℚ)) = some (t.standard_cost * 100)

theorem serviceTypeRow_holds {id : ℤ} {t : ServiceType} {row : ServiceTypeRow}
    (h : serviceTypeRow id t = .ok row) : row.Holds t ↔ t.Kept := by
  simp only [serviceTypeRow, except_bind_eq_ok] at h
  obtain ⟨name, hname, name', hname', cost, hcost, ⟨⟩⟩ := h
  constructor
  · rintro ⟨hn, -, hc⟩
    exact ⟨(varchar_kept hname hname').mp hn, (decimal_kept hcost).mp (Option.some.inj hc)⟩
  · rintro ⟨hn, hc⟩
    exact ⟨(varchar_kept hname hname').mpr hn, rfl, congrArg some ((decimal_kept hcost).mpr hc)⟩

variable [Postgres]

/-- The date that a text spells, which no text with a NUL in it does. -/
def Spells (s : Str) (d : Date) : Prop := '\x00' ∉ s ∧ date_in s = some d

def SpellsOptional (s : Str) (d : Option Date) : Prop :=
  if s = [] then d = none else ∃ x, d = some x ∧ Spells s x

structure DeviceRow.Holds (row : DeviceRow) (d : Device) : Prop where
  name : row.name = d.name
  model : row.model = some d.model
  purchase_date : SpellsOptional d.purchase_date row.purchase_date
  status : row.status = some d.status

structure ServiceHistoryRow.Holds (row : ServiceHistoryRow) (r : ServiceRecord) : Prop where
  device_id : row.device_id = some r.device_id
  service_id : row.service_id = some r.service_id
  service_date : Spells r.service_date row.service_date
  cost : row.cost.map (fun n : ℤ ↦ (n : ℚ)) = some (r.cost * 100)
  notes : row.notes = some r.notes
  next_due_date : SpellsOptional r.next_due_date row.next_due_date

theorem dateParam_kept {s : Str} {d : Date} (h : dateParam s = .ok d) :
    Spells s d ↔ '\x00' ∉ s := by
  simp only [dateParam, except_bind_eq_ok] at h
  obtain ⟨t, ht, h⟩ := h
  constructor
  · exact fun hs ↦ hs.1
  · intro hnul
    obtain rfl := (textParam_kept ht).mpr hnul
    split at h
    · rename_i x hx
      obtain ⟨rfl⟩ := h
      exact ⟨hnul, hx⟩
    · cases h

theorem optionalDate_kept {s : Str} {d : Option Date} (h : optionalDate s = .ok d) :
    SpellsOptional s d ↔ '\x00' ∉ s := by
  unfold optionalDate at h
  unfold SpellsOptional
  split_ifs at h ⊢ with hs
  · obtain ⟨rfl⟩ := h
    subst hs
    simp
  · cases hd : dateParam s with
    | error e =>
      rw [hd] at h
      cases h
    | ok x =>
      rw [hd] at h
      obtain ⟨rfl⟩ := h
      rw [← dateParam_kept hd]
      simp

theorem deviceRow_holds {id : ℤ} {d : Device} {row : DeviceRow} (h : deviceRow id d = .ok row) :
    row.Holds d ↔ d.Kept := by
  simp only [deviceRow, except_bind_eq_ok] at h
  obtain ⟨name, hname, model, hmodel, date, hdate, status, hstatus, name', hname', model', hmodel',
    status', hstatus', ⟨⟩⟩ := h
  have hiff := varchar_kept hmodel hmodel'
  have hiff' := varchar_kept hstatus hstatus'
  constructor
  · rintro ⟨hn, hm, hp, hs⟩
    exact ⟨(varchar_kept hname hname').mp hn, hiff.mp (Option.some.inj hm),
      (optionalDate_kept hdate).mp hp, hiff'.mp (Option.some.inj hs)⟩
  · rintro ⟨hn, hm, hp, hs⟩
    exact ⟨(varchar_kept hname hname').mpr hn, congrArg some (hiff.mpr hm),
      (optionalDate_kept hdate).mpr hp, congrArg some (hiff'.mpr hs)⟩

theorem serviceHistoryRow_holds {id : ℤ} {r : ServiceRecord} {row : ServiceHistoryRow}
    (h : serviceHistoryRow id r = .ok row) : row.Holds r ↔ r.Kept := by
  simp only [serviceHistoryRow, except_bind_eq_ok] at h
  obtain ⟨date, hdate, notes, hnotes, due, hdue, cost, hcost, ⟨⟩⟩ := h
  constructor
  · rintro ⟨-, -, hd, hc, hn, hu⟩
    exact ⟨(dateParam_kept hdate).mp hd, (decimal_kept hcost).mp (Option.some.inj hc),
      (textParam_kept hnotes).mp (Option.some.inj hn), (optionalDate_kept hdue).mp hu⟩
  · rintro ⟨hd, hc, hn, hu⟩
    exact ⟨rfl, rfl, (dateParam_kept hdate).mpr hd, congrArg some ((decimal_kept hcost).mpr hc),
      congrArg some ((textParam_kept hnotes).mpr hn), (optionalDate_kept hdue).mpr hu⟩

end Values

/-- The methods that change or remove what is there. -/
inductive Edit
  | updateDevice (id : ℤ) (device : Device)
  | deleteDevice (id : ℤ)
  | updateServiceType (id : ℤ) (type : ServiceType)
  | deleteServiceType (id : ℤ)
  | updateServiceRecord (id : ℤ) (record : ServiceRecord)
  | deleteServiceRecord (id : ℤ)

variable [Postgres]

namespace Edit

def statement : Edit → Statement
  | updateDevice id device => .updateDevice id device
  | deleteDevice id => .deleteDevice id
  | updateServiceType id type => .updateServiceType id type
  | deleteServiceType id => .deleteServiceType id
  | updateServiceRecord id record => .updateServiceRecord id record
  | deleteServiceRecord id => .deleteServiceRecord id

def method : Edit → Program Op Ans (Outcome Bool)
  | updateDevice id device => Database.updateDevice id device
  | deleteDevice id => Database.deleteDevice id
  | updateServiceType id type => Database.updateServiceType id type
  | deleteServiceType id => Database.deleteServiceType id
  | updateServiceRecord id record => Database.updateServiceRecord id record
  | deleteServiceRecord id => Database.deleteServiceRecord id

/-- A row with the id is there. -/
def Present (t : Tables) : Edit → Prop
  | updateDevice id _ | deleteDevice id => id ∈ t.devices.map DeviceRow.device_id
  | updateServiceType id _ | deleteServiceType id =>
    id ∈ t.service_types.map ServiceTypeRow.service_id
  | updateServiceRecord id _ | deleteServiceRecord id =>
    id ∈ t.service_history.map ServiceHistoryRow.record_id

/-- The row with the id has the given values, or is gone. -/
def Done (t : Tables) : Edit → Prop
  | updateDevice id device =>
    id ∈ t.devices.map DeviceRow.device_id ∧
      ∀ row ∈ t.devices, row.device_id = id → row.Holds device
  | deleteDevice id => id ∉ t.devices.map DeviceRow.device_id
  | updateServiceType id type =>
    id ∈ t.service_types.map ServiceTypeRow.service_id ∧
      ∀ row ∈ t.service_types, row.service_id = id → row.Holds type
  | deleteServiceType id => id ∉ t.service_types.map ServiceTypeRow.service_id
  | updateServiceRecord id record =>
    id ∈ t.service_history.map ServiceHistoryRow.record_id ∧
      ∀ row ∈ t.service_history, row.record_id = id → row.Holds record
  | deleteServiceRecord id => id ∉ t.service_history.map ServiceHistoryRow.record_id

/-- The tables are the same but for the rows with the id in the table of the edit. -/
def Untouched (t t' : Tables) : Edit → Prop
  | updateDevice id _ | deleteDevice id =>
    t'.devices.filter (·.device_id ≠ id) = t.devices.filter (·.device_id ≠ id) ∧
      t'.service_types = t.service_types ∧ t'.service_history = t.service_history
  | updateServiceType id _ | deleteServiceType id =>
    t'.service_types.filter (·.service_id ≠ id) = t.service_types.filter (·.service_id ≠ id) ∧
      t'.devices = t.devices ∧ t'.service_history = t.service_history
  | updateServiceRecord id _ | deleteServiceRecord id =>
    t'.service_history.filter (·.record_id ≠ id) = t.service_history.filter (·.record_id ≠ id) ∧
      t'.devices = t.devices ∧ t'.service_types = t.service_types

/-- The columns take the given values as they are. -/
def Kept : Edit → Prop
  | updateDevice _ device => device.Kept
  | updateServiceType _ type => type.Kept
  | updateServiceRecord _ record => record.Kept
  | deleteDevice _ | deleteServiceType _ | deleteServiceRecord _ => True

/-- The server refuses the values, or a foreign key stands in the way. -/
def Rejected (t : Tables) : Edit → Prop
  | updateDevice id device => ∀ row, deviceRow id device ≠ .ok row
  | deleteDevice id =>
    id ∈ t.devices.map DeviceRow.device_id ∧
      some id ∈ t.service_history.map ServiceHistoryRow.device_id
  | updateServiceType id type => ∀ row, serviceTypeRow id type ≠ .ok row
  | deleteServiceType id =>
    id ∈ t.service_types.map ServiceTypeRow.service_id ∧
      some id ∈ t.service_history.map ServiceHistoryRow.service_id
  | updateServiceRecord id record =>
    ∀ row, serviceHistoryRow id record = .ok row →
      id ∈ t.service_history.map ServiceHistoryRow.record_id ∧ ¬ Referenced t row
  | deleteServiceRecord _ => False

omit [Postgres] in
theorem method_eq (e : Edit) : e.method = mutate e.statement := by
  cases e <;> rfl

theorem untouched_refl (e : Edit) (t : Tables) : e.Untouched t t := by
  cases e <;> exact ⟨rfl, rfl, rfl⟩

end Edit

section Replace

variable {α : Type} {key : α → ℤ} {id : ℤ} {row : α}

omit [Postgres] in
theorem filter_replace (hrow : key row = id) (rows : List α) :
    (rows.map (fun r ↦ if key r = id then row else r)).filter (fun r ↦ key r ≠ id) =
      rows.filter (fun r ↦ key r ≠ id) := by
  induction rows with
  | nil => rfl
  | cons r rows ih =>
    rw [List.map_cons]
    split_ifs with hr
    · rw [List.filter_cons_of_neg (by simp [hrow]), List.filter_cons_of_neg (by simp [hr]), ih]
    · rw [List.filter_cons_of_pos (by simp [hr]), List.filter_cons_of_pos (by simp [hr]), ih]

omit [Postgres] in
/-- After a replacement the rows with the id are the new one, if there were any. -/
theorem done_replace (hrow : key row = id) (rows : List α) (P : α → Prop) :
    (id ∈ (rows.map (fun r ↦ if key r = id then row else r)).map key ∧
      ∀ r ∈ rows.map (fun r ↦ if key r = id then row else r), key r = id → P r) ↔
        id ∈ rows.map key ∧ P row := by
  rw [map_replace hrow]
  refine and_congr_right (fun hid ↦ ?_)
  obtain ⟨r, hr, hk⟩ := List.mem_map.mp hid
  constructor
  · intro h
    exact h row (List.mem_map.mpr ⟨r, hr, if_pos hk⟩) hrow
  · intro hP x hx hxid
    obtain ⟨y, -, rfl⟩ := List.mem_map.mp hx
    split_ifs at hxid ⊢ with hy
    · exact hP
    · exact absurd hxid hy

omit [Postgres] in
theorem filter_remove (rows : List α) :
    (rows.filter (fun r ↦ key r ≠ id)).filter (fun r ↦ key r ≠ id) =
      rows.filter (fun r ↦ key r ≠ id) := by
  simp [List.filter_filter]

omit [Postgres] in
theorem done_remove (rows : List α) : id ∉ (rows.filter (fun r ↦ key r ≠ id)).map key := by
  intro h
  obtain ⟨r, hr, hk⟩ := List.mem_map.mp h
  exact absurd hk (of_decide_eq_true (List.mem_filter.mp hr).2)

end Replace

namespace Edit

/-- What an accepted edit makes of the tables. -/
theorem effect_spec {c : Connection} {e : Edit} {t : Tables} (h : effect c e.statement = .ok t) :
    e.Untouched c.tables t ∧ (e.Present c.tables ∧ e.Done t ↔ e.Present c.tables ∧ e.Kept) := by
  unfold effect at h
  cases e with
  | updateDevice id device =>
    simp only [statement, execute] at h
    split at h
    · cases h
    · rename_i row hrow
      obtain ⟨rfl⟩ := h
      have hid := deviceRow_id hrow
      refine ⟨⟨filter_replace hid _, rfl, rfl⟩, ?_⟩
      rw [Done, done_replace hid, deviceRow_holds hrow]
      exact and_self_left
  | updateServiceType id type =>
    simp only [statement, execute] at h
    split at h
    · cases h
    · rename_i row hrow
      obtain ⟨rfl⟩ := h
      have hid := serviceTypeRow_id hrow
      refine ⟨⟨filter_replace hid _, rfl, rfl⟩, ?_⟩
      rw [Done, done_replace hid, serviceTypeRow_holds hrow]
      exact and_self_left
  | updateServiceRecord id record =>
    simp only [statement, execute] at h
    split at h
    · cases h
    · rename_i row hrow
      dsimp only at h
      split_ifs at h
      obtain ⟨rfl⟩ := h
      have hid := (serviceHistoryRow_ids hrow).1
      refine ⟨⟨filter_replace hid _, rfl, rfl⟩, ?_⟩
      rw [Done, done_replace hid, serviceHistoryRow_holds hrow]
      exact and_self_left
  | deleteDevice id =>
    simp only [statement, execute] at h
    split_ifs at h
    obtain ⟨rfl⟩ := h
    exact ⟨⟨filter_remove _, rfl, rfl⟩, and_congr_right fun _ ↦ iff_of_true (done_remove _) trivial⟩
  | deleteServiceType id =>
    simp only [statement, execute] at h
    split_ifs at h
    obtain ⟨rfl⟩ := h
    exact ⟨⟨filter_remove _, rfl, rfl⟩, and_congr_right fun _ ↦ iff_of_true (done_remove _) trivial⟩
  | deleteServiceRecord id =>
    simp only [statement, execute] at h
    obtain ⟨rfl⟩ := h
    exact ⟨⟨filter_remove _, rfl, rfl⟩, and_congr_right fun _ ↦ iff_of_true (done_remove _) trivial⟩

omit [Postgres] in
theorem guard_refuses {ε α : Type} {p : Prop} [Decidable p] {e : ε} {a : α} :
    (∀ b, (if p then .error e else .ok a : Except ε α) ≠ .ok b) ↔ p := by
  split_ifs with hp <;> simp [hp]

theorem rejected_iff {c : Connection} {e : Edit} :
    e.Rejected c.tables ↔ ∀ t, effect c e.statement ≠ .ok t := by
  unfold effect
  cases e with
  | updateDevice id device =>
    cases h : deviceRow id device <;> simp [Rejected, statement, execute, h]
  | updateServiceType id type =>
    cases h : serviceTypeRow id type <;> simp [Rejected, statement, execute, h]
  | updateServiceRecord id record =>
    cases h : serviceHistoryRow id record with
    | error error => simp [Rejected, statement, execute, h]
    | ok row =>
      simp only [Rejected, statement, execute, h, guard_refuses]
      exact ⟨fun hr ↦ hr row rfl, fun hr row' hrow ↦ Except.ok.inj hrow ▸ hr⟩
  | deleteDevice id => simp only [Rejected, statement, execute, guard_refuses]
  | deleteServiceType id => simp only [Rejected, statement, execute, guard_refuses]
  | deleteServiceRecord id => simp [Rejected, statement, execute]

/-- The method says what it did: true just in case there was a row with the id and the server has
updated or removed it as asked. No row with another id changes. -/
structure Reports (c : Connection) (e : Edit) : Prop where
  result : (e.method.run exec c).1.value = true ↔
    e.Present c.tables ∧ effect c e.statement = .ok (e.method.run exec c).2.tables ∧
      e.Done (e.method.run exec c).2.tables
  others : e.Untouched c.tables (e.method.run exec c).2.tables

/-- Nothing fails between the method and the server. -/
structure Undisturbed (c : Connection) : Prop where
  reaches : ReachesCommit c
  commit : c.faults.commit = .none

theorem reports_iff {c : Connection} (hc : Undisturbed c) (e : Edit) :
    e.Reports c ↔ e.Rejected c.tables ∨ e.Present c.tables ∧ e.Kept := by
  have hcases := mutate_cases c e.statement
  rw [← method_eq] at hcases
  rcases hcases with ⟨hv, -, ht, hno⟩ | ⟨t, -, ht, hcommit⟩
  · have hrejected : e.Rejected c.tables := rejected_iff.mpr (fun t ↦ hno t hc.reaches)
    refine iff_of_true ⟨?_, ht ▸ e.untouched_refl _⟩ (.inl hrejected)
    rw [hv]
    exact iff_of_false Bool.false_ne_true (fun h ↦ hno _ hc.reaches h.2.1)
  · rw [hc.commit] at hcommit
    obtain ⟨hv, htables⟩ := hcommit
    obtain ⟨huntouched, hdone⟩ := effect_spec ht
    have hrejected : ¬ e.Rejected c.tables := fun h ↦ rejected_iff.mp h t ht
    have hvalue : (e.method.run exec c).1.value = true := by rw [hv]
    constructor
    · intro h
      obtain ⟨hpresent, -, hd⟩ := h.result.mp hvalue
      rw [htables] at hd
      exact .inr (hdone.mp ⟨hpresent, hd⟩)
    · intro h
      obtain ⟨hpresent, hd⟩ := hdone.mpr (h.resolve_left hrejected)
      refine ⟨?_, htables ▸ huntouched⟩
      rw [htables]
      exact iff_of_true hvalue ⟨hpresent, ht, hd⟩

omit [Postgres] in
theorem reports_iff_printer :
    letI := isoDates
    Undisturbed onePrinter ∧ (Edit.deleteDevice 1).Reports onePrinter := by
  let _ := isoDates
  have hc : Undisturbed onePrinter := ⟨⟨rfl, rfl, rfl, rfl⟩, rfl⟩
  exact ⟨hc, (reports_iff hc (.deleteDevice 1)).mpr (.inr ⟨List.mem_singleton.mpr rfl, trivial⟩)⟩

omit [Postgres] in
/-- There is no device with this id, and the method says that it has removed one. -/
theorem deleteAbsent_not_reports :
    letI := isoDates
    Undisturbed onePrinter ∧ ¬ (Edit.deleteDevice 7).Reports onePrinter := by
  let _ := isoDates
  refine ⟨⟨⟨rfl, rfl, rfl, rfl⟩, rfl⟩, fun h ↦ ?_⟩
  have hpresent := (h.result.mp (by decide)).1
  exact absurd (List.mem_singleton.mp hpresent) (by decide)

end Edit

end ServiceSystem.Database
