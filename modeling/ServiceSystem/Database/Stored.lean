import ServiceSystem.Database.Edits
import ServiceSystem.Database.Views
import ServiceSystem.Foundations.Calendar

namespace ServiceSystem.Database

open Foundations Program Postgres

section Dates

/-- How `YYYY-MM-DD` spells a date. -/
def ymd (d : Calendar.Date) : Str :=
  Str.zeroPad 4 (Str.ofNat d.year.toNat) ++ '-' :: Str.zeroPad 2 (Str.ofNat d.month) ++
    '-' :: Str.zeroPad 2 (Str.ofNat d.day)

def ValidDate (s : Str) : Prop :=
  ∃ d : Calendar.Date, d.Valid ∧ 1 ≤ d.year ∧ d.year ≤ 9999 ∧ s = ymd d

/-- The server takes a date in this spelling and gives it back in the same. -/
def IsoStyle (pg : Postgres) : Prop :=
  ∀ s, ValidDate s → ∃ d, pg.date_in s = some d ∧ pg.date_out d = s

theorem nul_notMem_ymd (d : Calendar.Date) : '\x00' ∉ ymd d := by
  have hpad {w n : ℕ} : '\x00' ∉ Str.zeroPad w (Str.ofNat n) :=
    fun h ↦ absurd (Str.isDigit_zeroPad h) (by decide)
  simp [ymd, hpad]

theorem ValidDate.nul_notMem {s : Str} (h : ValidDate s) : '\x00' ∉ s := by
  obtain ⟨d, -, -, -, rfl⟩ := h
  exact nul_notMem_ymd d

theorem isoDates_date_in {y m d : Str} (hy : y.length = 4) (hm : m.length = 2) (hd : d.length = 2)
    (h : ∀ c ∈ y ++ m ++ d, c.isDigit) :
    isoDates.date_in (y ++ '-' :: m ++ '-' :: d) =
      some (toLex (Nat.ofDigitChars 10 y 0, toLex (Nat.ofDigitChars 10 m 0,
        Nat.ofDigitChars 10 d 0))) := by
  obtain ⟨y₀, y₁, y₂, y₃, rfl⟩ : ∃ a b c d, y = [a, b, c, d] := by
    obtain ⟨a, y, rfl⟩ := List.exists_of_length_succ y hy
    obtain ⟨b, c, d, rfl⟩ := List.length_eq_three.mp (Nat.succ.inj hy)
    exact ⟨a, b, c, d, rfl⟩
  obtain ⟨m₀, m₁, rfl⟩ := List.length_eq_two.mp hm
  obtain ⟨d₀, d₁, rfl⟩ := List.length_eq_two.mp hd
  refine if_pos ⟨rfl, ?_, rfl, rfl⟩
  rw [List.all_eq_true]
  exact h

theorem isoDates_isoStyle : IsoStyle isoDates := by
  rintro s ⟨d, hd, hlow, hhigh, rfl⟩
  obtain ⟨hmonth, hday⟩ := hd.bounds
  refine ⟨_, isoDates_date_in (Str.zeroPad_length (by decide) (by omega))
    (Str.zeroPad_length (by decide) (by omega)) (Str.zeroPad_length (by decide) (by omega)) ?_, ?_⟩
  · simp only [List.mem_append]
    rintro c ((hc | hc) | hc) <;> exact Str.isDigit_zeroPad hc
  · simp only [Str.ofDigitChars_zeroPad]
    rfl

end Dates

/-- Two valid dates, of which the second may be left out, and a cost that the column can hold. -/
structure Storable (r : ServiceRecord) : Prop where
  service_date : ValidDate r.service_date
  next_due_date : r.next_due_date = [] ∨ ValidDate r.next_due_date
  cost : ∃ n : ℕ, n < 10 ^ 10 ∧ r.cost = n / 100

theorem Storable.kept {r : ServiceRecord} (h : Storable r) (hnotes : '\x00' ∉ r.notes) :
    r.Kept where
  service_date := h.service_date.nul_notMem
  cost := by
    obtain ⟨n, -, hn⟩ := h.cost
    exact ⟨n, by rw [hn, div_mul_cancel₀ _ (by norm_num), Int.cast_natCast]⟩
  notes := hnotes
  next_due_date := by
    rcases h.next_due_date with hd | hd
    · simp [hd]
    · exact hd.nul_notMem

variable [pg : Postgres]

/-- What a working connection reads. -/
def records (st : Tables × Sequences) : List ServiceRecord :=
  (getAllServiceRecords.run exec (connect st)).1.value

theorem records_perm {t : Tables} {s : Sequences} (h : Attributed t) :
    (records (t, s)).Perm (t.service_history.map ServiceHistoryRow.record) := by
  rw [records, getAllServiceRecords_value h]
  exact (latestFirst_perm _ _).map _

theorem date_out_spells (hiso : IsoStyle pg) {s : Str} {d : Date} (hs : ValidDate s)
    (h : Spells s d) : date_out d = s := by
  obtain ⟨x, hx, rfl⟩ := hiso s hs
  obtain rfl := Option.some.inj (hx.symm.trans h.2)
  rfl

theorem dateText_spells (hiso : IsoStyle pg) {s : Str} {d : Option Date} (hs : s = [] ∨ ValidDate s)
    (h : SpellsOptional s d) : dateText d = s := by
  unfold SpellsOptional at h
  split_ifs at h with hnil
  · subst hnil
    obtain rfl := h
    rfl
  · obtain ⟨x, rfl, hx⟩ := h
    exact date_out_spells hiso (hs.resolve_left hnil) hx

/-- The record that a row gives back is the one that it was made from, but for the id, just in
case its notes have no NUL in them. -/
theorem record_eq_iff (hiso : IsoStyle pg) {id : ℤ} {r : ServiceRecord} {row : ServiceHistoryRow}
    (hr : Storable r) (h : serviceHistoryRow id r = .ok row) :
    (∃ n, row.record = { r with id := n }) ↔ '\x00' ∉ r.notes := by
  constructor
  · rintro ⟨n, hn⟩
    have hnotes := congrArg ServiceRecord.notes hn
    simp only [serviceHistoryRow, except_bind_eq_ok] at h
    obtain ⟨date, -, notes, ht, due, -, cost, -, ⟨⟩⟩ := h
    exact (textParam_kept ht).mp hnotes
  · intro hnotes
    obtain ⟨hdevice, hservice, hdate, hcost, hn, hdue⟩ :=
      (serviceHistoryRow_holds h).mpr (hr.kept hnotes)
    refine ⟨row.record_id, ?_⟩
    obtain ⟨n, hn', hq⟩ := Option.map_eq_some_iff.mp hcost
    have hhundredths : hundredths row.cost = r.cost := by
      rw [hn', hundredths, Option.elim_some, hq, mul_div_cancel_right₀ _ (by norm_num)]
    simp only [ServiceHistoryRow.record, hdevice, hservice, hn, hhundredths, Option.getD_some,
      date_out_spells hiso hr.service_date hdate, dateText_spells hiso hr.next_due_date hdue]

/-- The records that were there before, and one more, which is the given one but for its id. -/
def ReadsBack (c : Connection) (r : ServiceRecord) : Prop :=
  let after := ((addServiceRecord r).run exec c).2
  ∃ id, (records (after.tables, after.sequences)).Perm
    ({ r with id := id } :: c.tables.service_history.map ServiceHistoryRow.record)

theorem attributed_of_length {t : Tables} {s : Sequences}
    (h : t.service_history.length ≤ (records (t, s)).length) : Attributed t := by
  by_contra hnot
  have hb : CanBegin (connect (t, s)) ∧ (connect (t, s)).faults.exec = .none :=
    ⟨⟨rfl, rfl, rfl⟩, rfl⟩
  have hlt := convert_length_lt (mt convert_snd_eq_none.mp
    (mt serviceRecords_convert_iff.mp hnot))
  rw [records, getAllServiceRecords, readAll_value, queryResult_eq, if_pos hb,
    Option.elim_some] at h
  refine absurd h (not_le.mpr (hlt.trans_eq ?_))
  rw [select, List.length_map]
  exact (latestFirst_perm _ _).length_eq

theorem attributed_append {t : Tables} {row : ServiceHistoryRow}
    (h : row.device_id.isSome ∧ row.service_id.isSome) :
    Attributed (t.append [row]) ↔ Attributed t := by
  simp only [Attributed, Tables.append, List.forall_mem_append, List.forall_mem_singleton, h,
    and_true]

omit pg in
theorem perm_added_iff {α : Type} {a b : α} {l : List α} : (l ++ [a]).Perm (b :: l) ↔ a = b := by
  constructor
  · intro h
    have h' := h.trans (List.perm_append_singleton b l).symm
    exact List.singleton_perm_singleton.mp ((List.perm_append_left_iff l).mp h')
  · rintro rfl
    exact List.perm_append_singleton a l

theorem addServiceRecord_tables {c : Connection} {r : ServiceRecord}
    (h : ((addServiceRecord r).run exec c).1.value = true) :
    ∃ row, serviceHistoryRow c.sequences.record_id r = .ok row ∧
      ((addServiceRecord r).run exec c).2.tables = c.tables.append [row] := by
  rw [addServiceRecord] at h ⊢
  rcases mutate_cases c (.insertServiceRecord r) with ⟨hv, -⟩ | ⟨t, -, heff, hcommit⟩
  · rw [hv] at h
    cases h
  · obtain ⟨row, hrow, rfl⟩ := execute_insertServiceRecord heff
    refine ⟨row, hrow, ?_⟩
    cases hf : c.faults.commit with
    | none =>
      rw [hf] at hcommit
      exact hcommit.2
    | rejected | unknown =>
      rw [hf] at hcommit
      rw [hcommit.1] at h
      cases h

theorem readsBack_iff (hiso : IsoStyle pg) {c : Connection} {r : ServiceRecord} (hr : Storable r)
    (h : ((addServiceRecord r).run exec c).1.value = true) :
    ReadsBack c r ↔ '\x00' ∉ r.notes ∧ Attributed c.tables := by
  obtain ⟨row, hrow, htables⟩ := addServiceRecord_tables h
  obtain ⟨-, hdevice, hservice⟩ := serviceHistoryRow_ids hrow
  have happend : Attributed (c.tables.append [row]) ↔ Attributed c.tables :=
    attributed_append ⟨hdevice ▸ rfl, hservice ▸ rfl⟩
  have hrecords : (c.tables.append [row]).service_history.map ServiceHistoryRow.record =
      c.tables.service_history.map ServiceHistoryRow.record ++ [row.record] := List.map_append
  simp only [ReadsBack, htables]
  rw [← record_eq_iff hiso hr hrow, ← happend]
  constructor
  · rintro ⟨id, hperm⟩
    have hlength := hperm.length_eq
    rw [List.length_cons, List.length_map] at hlength
    have ha := attributed_of_length (t := c.tables.append [row])
      (List.length_append.trans hlength.symm).le
    have hadded := (records_perm ha).symm.trans hperm
    rw [hrecords] at hadded
    exact ⟨⟨id, perm_added_iff.mp hadded⟩, ha⟩
  · rintro ⟨⟨id, heq⟩, ha⟩
    refine ⟨id, (records_perm ha).trans ?_⟩
    rw [hrecords]
    exact perm_added_iff.mpr heq

omit pg

def oneService : @Connection isoDates :=
  letI := isoDates
  connect (⟨[⟨1, "Printer".toList, none, none, some "active".toList⟩],
    [⟨1, "Cleaning".toList, some 12, some 10000⟩], []⟩, ⟨2, 2, 1⟩)

def cleaning (notes : Str) : ServiceRecord :=
  ⟨0, 1, 1, "2024-01-15".toList, 1250 / 100, notes, []⟩

theorem cleaning_storable (notes : Str) : Storable (cleaning notes) where
  service_date := ⟨⟨2024, 1, 15⟩, by decide, by decide, by decide, rfl⟩
  next_due_date := .inl rfl
  cost := ⟨1250, by decide, by norm_num [cleaning]⟩

theorem readsBack_cleaning :
    letI := isoDates
    ((addServiceRecord (cleaning "new toner".toList)).run exec oneService).1.value = true ∧
      ReadsBack oneService (cleaning "new toner".toList) := by
  let _ := isoDates
  have h : ((addServiceRecord (cleaning "new toner".toList)).run exec oneService).1.value = true :=
    by decide +kernel
  exact ⟨h, (readsBack_iff isoDates_isoStyle (cleaning_storable _) h).mpr
    ⟨by decide, fun r hr ↦ by cases hr⟩⟩

/-- The notes end at the NUL, as the parameter does. -/
theorem nulNotes_not_readsBack : ¬ ∀ (pg : Postgres) (c : Connection) (r : ServiceRecord),
    IsoStyle pg → Attributed c.tables → Storable r →
    ((addServiceRecord r).run exec c).1.value = true → ReadsBack c r := by
  intro h
  let _ := isoDates
  have hadded : ((addServiceRecord (cleaning "new\x00toner".toList)).run exec
      oneService).1.value = true := by decide +kernel
  obtain ⟨id, hperm⟩ := h _ _ _ isoDates_isoStyle (fun r hr ↦ by cases hr)
    (cleaning_storable _) hadded
  have hnotes : ∀ x ∈ records (((addServiceRecord (cleaning "new\x00toner".toList)).run exec
      oneService).2.tables, ((addServiceRecord (cleaning "new\x00toner".toList)).run exec
      oneService).2.sequences), x.notes = "new".toList := by decide +kernel
  have hgiven : "new\x00toner".toList = "new".toList :=
    hnotes _ (hperm.mem_iff.mpr List.mem_cons_self)
  exact absurd hgiven (by decide)

end ServiceSystem.Database
