import ServiceSystem.Database.Commit

namespace ServiceSystem.Database

open Foundations Program

variable {α : Type}

theorem outcome_value (a : α) (result : Except PqxxError Unit) :
    (outcome a a result).value = a := by
  cases result <;> rfl

theorem convert_map {β : Type} (ofRow : Row → Except PqxxError α) (f : α → β) (rows : List Row) :
    convert (fun row ↦ (ofRow row).map f) rows =
      ((convert ofRow rows).1.map f, (convert ofRow rows).2) := by
  induction rows with
  | nil => rfl
  | cons row rows ih =>
    rw [convert, ih, convert]
    cases ofRow row <;> rfl

theorem convert_snd_eq_none {ofRow : Row → Except PqxxError α} {rows : List Row} :
    (convert ofRow rows).2 = none ↔ ∀ row ∈ rows, ∃ a, ofRow row = .ok a := by
  induction rows with
  | nil => simp [convert]
  | cons row rows ih =>
    rw [List.forall_mem_cons, convert]
    cases ofRow row with
    | error e => simp
    | ok a => simp [ih]

theorem convert_length_lt {ofRow : Row → Except PqxxError α} {rows : List Row}
    (h : (convert ofRow rows).2 ≠ none) : (convert ofRow rows).1.length < rows.length := by
  induction rows with
  | nil => exact absurd rfl h
  | cons row rows ih =>
    simp only [convert] at h ⊢
    cases hr : ofRow row with
    | error e => simp
    | ok a =>
      rw [hr] at h
      exact Nat.succ_lt_succ (ih h)

theorem convert_forall₂ {ofRow : Row → Except PqxxError α} {rows : List Row}
    (h : (convert ofRow rows).2 = none) :
    List.Forall₂ (fun row a ↦ ofRow row = .ok a) rows (convert ofRow rows).1 := by
  induction rows with
  | nil => exact .nil
  | cons row rows ih =>
    simp only [convert] at h ⊢
    cases hr : ofRow row with
    | error e => simp [hr] at h
    | ok a =>
      rw [hr] at h
      exact .cons hr (ih h)

theorem mem_convert {ofRow : Row → Except PqxxError α} {rows : List Row} {a : α}
    (h : a ∈ (convert ofRow rows).1) : ∃ row ∈ rows, ofRow row = .ok a := by
  induction rows with
  | nil => cases h
  | cons row rows ih =>
    simp only [convert] at h
    cases hr : ofRow row with
    | error e => simp [hr] at h
    | ok b =>
      rw [hr] at h
      rcases List.mem_cons.mp h with rfl | h
      · exact ⟨row, List.mem_cons_self, hr⟩
      · obtain ⟨row', hrow', ha⟩ := ih h
        exact ⟨row', List.mem_cons_of_mem _ hrow', ha⟩

variable [Postgres]

/-- The rows of the query, when the transaction begins and the server answers. -/
def queryResult (c : Connection) (q : Query) : Option (List Row) :=
  match c.work with
  | (.error _, _) => none
  | (.ok txn, c) => (c.exec txn q).1.toOption

theorem queryResult_eq (c : Connection) (q : Query) :
    queryResult c q =
      if CanBegin c ∧ c.faults.exec = .none then some (select c.tables q) else none := by
  unfold queryResult
  by_cases hb : CanBegin c
  · have hd := direct_exec_inTransaction (c := begun c) hb.2.1 rfl
      (fun t s ↦ (.ok (select t q, t), s))
    rw [work_of_canBegin hb]
    dsimp only
    rw [show (begun c).exec ⟨true, .active⟩ q = (begun c).direct_exec
      (fun t s ↦ (.ok (select t q, t), s)) from rfl, hd, show (begun c).faults = c.faults from rfl]
    cases c.faults.exec <;> simp [hb, Except.toOption]
  · obtain ⟨e, c', hw, -⟩ := work_of_not_canBegin hb
    rw [hw, if_neg (fun h ↦ hb h.1)]

theorem readAll_run (c : Connection) (q : Query) (ofRow : Row → Except PqxxError α) :
    (readAll q ofRow).run exec c = match c.work with
      | (.error e, c) => (⟨[], some e⟩, c)
      | (.ok txn, c) =>
        match c.exec txn q with
        | (.error e, c) => (⟨[], some e⟩, c.destroy txn)
        | (.ok rows, c) =>
          match convert ofRow rows with
          | (items, some e) => (⟨items, some e⟩, c.destroy txn)
          | (items, none) =>
            (outcome items items (c.commit txn).1.1,
              (c.commit txn).2.destroy (c.commit txn).1.2) := by
  simp only [readAll, perform_bind, run_call]
  rw [show exec .work c = c.work from rfl]
  rcases c.work with ⟨e | txn, c⟩
  · rfl
  · simp only [run_call]
    rw [show exec (.exec txn q) c = c.exec txn q from rfl]
    rcases c.exec txn q with ⟨e | rows, c⟩
    · rfl
    · dsimp only
      rcases convert ofRow rows with ⟨items, e | e⟩ <;> rfl

/-- What a reading method returns: the items converted before anything went wrong. -/
theorem readAll_value (c : Connection) (q : Query) (ofRow : Row → Except PqxxError α) :
    ((readAll q ofRow).run exec c).1.value =
      (queryResult c q).elim [] (fun rows ↦ (convert ofRow rows).1) := by
  rw [readAll_run, queryResult]
  rcases c.work with ⟨e | txn, c⟩
  · rfl
  · dsimp only
    rcases c.exec txn q with ⟨e | rows, c⟩
    · rfl
    · dsimp only [Except.toOption, Option.elim_some]
      rcases convert ofRow rows with ⟨items, _ | e⟩
      · exact outcome_value ..
      · rfl

section Untouched

theorem exec_begun_tables {c : Connection} (hb : CanBegin c) (q : Query) :
    ((begun c).exec ⟨true, .active⟩ q).2.tables = c.tables ∧
      ∀ rows, ((begun c).exec ⟨true, .active⟩ q).1 = .ok rows →
        ((begun c).exec ⟨true, .active⟩ q).2.applied = c.tables := by
  have hd := direct_exec_inTransaction (c := begun c) hb.2.1 rfl
    (fun t s ↦ (.ok (select t q, t), s))
  rw [show (begun c).exec ⟨true, .active⟩ q = (begun c).direct_exec
    (fun t s ↦ (.ok (select t q, t), s)) from rfl, hd]
  cases (begun c).faults.exec with
  | none => exact ⟨rfl, fun _ _ ↦ rfl⟩
  | refused | lost => exact ⟨rfl, fun _ ↦ nofun⟩

theorem commit_tables {c : Connection} (h : c.applied = c.tables) (w : Work) :
    (c.commit w).2.tables = c.tables := by
  unfold Connection.commit
  cases w.status with
  | aborted | committed | in_doubt => rfl
  | active =>
    dsimp only
    split
    · rfl
    · split
      · rfl
      · dsimp only
        split_ifs
        · exact h
        · rfl
      · exact h

theorem readAll_tables (c : Connection) (q : Query) (ofRow : Row → Except PqxxError α) :
    ((readAll q ofRow).run exec c).2.tables = c.tables := by
  rw [readAll_run]
  by_cases hb : CanBegin c
  · obtain ⟨ht, ha⟩ := exec_begun_tables hb q
    rw [work_of_canBegin hb]
    dsimp only
    rcases he : (begun c).exec ⟨true, .active⟩ q with ⟨e | rows, c'⟩
    · rw [he] at ht
      exact (destroy_tables _ _).trans ht
    · rw [he] at ht ha
      dsimp only
      rcases convert ofRow rows with ⟨items, _ | e⟩
      · dsimp only
        rw [destroy_tables, commit_tables ((ha rows rfl).trans ht.symm)]
        exact ht
      · exact (destroy_tables _ _).trans ht
  · obtain ⟨e, c', hw, ht⟩ := work_of_not_canBegin hb
    rw [hw]
    exact ht

theorem testConnection_tables (c : Connection) :
    (testConnection.run exec c).2.tables = c.tables := by
  simp only [testConnection, perform_bind, run_call]
  rw [show exec .work c = c.work from rfl]
  by_cases hb : CanBegin c
  · rw [work_of_canBegin hb]
    exact (destroy_tables _ _).trans (exec_begun_tables hb .select1).1
  · obtain ⟨e, c', hw, ht⟩ := work_of_not_canBegin hb
    rw [hw]
    exact ht

end Untouched

def Completes (c : Connection) (q : Query) (ofRow : Row → Except PqxxError α) : Prop :=
  ∃ rows, queryResult c q = some rows ∧ (convert ofRow rows).2 = none ∧ c.faults.commit = .none

theorem exec_begun_faults {c c' : Connection} {q : Query} {rows : List Row} (hb : CanBegin c)
    (h : (begun c).exec ⟨true, .active⟩ q = (.ok rows, c')) :
    c'.is_open = true ∧ c'.faults = c.faults := by
  have hd := direct_exec_inTransaction (c := begun c) hb.2.1 rfl
    (fun t s ↦ (.ok (select t q, t), s))
  rw [show (begun c).exec ⟨true, .active⟩ q = (begun c).direct_exec
    (fun t s ↦ (.ok (select t q, t), s)) from rfl, hd] at h
  cases hf : (begun c).faults.exec with
  | none =>
    rw [hf] at h
    obtain ⟨-, rfl⟩ := Prod.mk.inj h
    exact ⟨hb.2.1, rfl⟩
  | refused | lost =>
    rw [hf] at h
    cases h

theorem readAll_caught (c : Connection) (q : Query) (ofRow : Row → Except PqxxError α) :
    ((readAll q ofRow).run exec c).1.caught = none ↔ Completes c q ofRow := by
  rw [readAll_run, Completes, queryResult]
  by_cases hb : CanBegin c
  · rw [work_of_canBegin hb]
    dsimp only
    rcases he : (begun c).exec ⟨true, .active⟩ q with ⟨e | rows, c'⟩
    · simp [Except.toOption]
    · obtain ⟨ho, hf⟩ := exec_begun_faults hb he
      dsimp only [Except.toOption]
      simp only [Option.some.injEq, exists_eq_left']
      rcases convert ofRow rows with ⟨items, _ | e⟩
      · dsimp only
        rw [commit_open ho, hf]
        cases c.faults.commit <;> simp [outcome]
      · simp
  · obtain ⟨e, c', hw, -⟩ := work_of_not_canBegin hb
    rw [hw]
    simp

theorem completes_iff {c : Connection} {q : Query} {ofRow : Row → Except PqxxError α} :
    Completes c q ofRow ↔ CanBegin c ∧ c.faults.exec = .none ∧ c.faults.commit = .none ∧
      ∀ row ∈ select c.tables q, ∃ a, ofRow row = .ok a := by
  simp only [Completes, queryResult_eq, ← convert_snd_eq_none]
  split_ifs with h
  · simp [h, and_comm]
  · simp only [false_and, exists_false, false_iff]
    exact fun ⟨hb, hf, _⟩ ↦ h ⟨hb, hf⟩

omit [Postgres] in
theorem outcome_reports (result : Except PqxxError Unit) :
    (outcome true false result).value = (outcome true false result).caught.isNone := by
  cases result <;> rfl

theorem mutate_reports (c : Connection) (s : Statement) :
    ((mutate s).run exec c).1.value = ((mutate s).run exec c).1.caught.isNone := by
  rw [mutate_run]
  rcases c.work with ⟨e | txn, c⟩
  · rfl
  · dsimp only
    rcases c.exec_params txn s with ⟨e | ⟨⟩, c⟩
    · rfl
    · exact outcome_reports _

theorem testConnection_reports (c : Connection) :
    (testConnection.run exec c).1.value = (testConnection.run exec c).1.caught.isNone := by
  simp only [testConnection, perform_bind, run_call]
  rw [show exec .work c = c.work from rfl]
  rcases c.work with ⟨e | txn, c⟩
  · rfl
  · exact outcome_reports _

section Rows

variable {t : Tables}

theorem mem_sorted {β : Type} {r : β → β → Prop} [DecidableRel r] {rows : List β} {b : β} :
    b ∈ (Postgres.scan rows).insertionSort r ↔ b ∈ rows :=
  ((List.perm_insertionSort r (Postgres.scan rows)).trans (Postgres.scan_perm rows)).mem_iff

def Attributed (t : Tables) : Prop :=
  ∀ r ∈ t.service_history, r.device_id.isSome ∧ r.service_id.isSome

theorem devices_convert : ∀ row ∈ select t .devices, ∃ d, Device.ofRow row = .ok d := by
  intro row hrow
  simp only [select, List.mem_map, mem_sorted] at hrow
  obtain ⟨⟨id, name, model, date, status⟩, -, rfl⟩ := hrow
  cases model <;> cases date <;> cases status <;> exact ⟨_, rfl⟩

theorem serviceTypes_convert : ∀ row ∈ select t .serviceTypes,
    ∃ st, ServiceType.ofRow row = .ok st := by
  intro row hrow
  simp only [select, List.mem_map, mem_sorted] at hrow
  obtain ⟨⟨id, name, interval, cost⟩, -, rfl⟩ := hrow
  cases interval <;> cases cost <;> exact ⟨_, rfl⟩

theorem detailedHistory_convert :
    ∀ row ∈ select t .detailedHistory, ∃ d, DetailedRecord.ofRow row = .ok d := by
  intro row hrow
  simp only [select, latestFirst, List.mem_map, mem_sorted] at hrow
  obtain ⟨⟨⟨id, device, service, date, cost, notes, next⟩,
    ⟨_, name, model, _, _⟩, st⟩, -, rfl⟩ := hrow
  cases model <;> cases cost <;> cases notes <;> cases next <;> exact ⟨_, rfl⟩

theorem serviceRecords_convert_iff :
    (∀ row ∈ select t .serviceRecords, ∃ r, ServiceRecord.ofRow row = .ok r) ↔ Attributed t := by
  simp only [select, latestFirst, List.forall_mem_map, Attributed, mem_sorted]
  refine forall₂_congr (fun r _ ↦ ?_)
  obtain ⟨id, device, service, date, cost, notes, next⟩ := r
  cases device with
  | none => exact iff_of_false (fun ⟨_, h⟩ ↦ nomatch h) (fun h ↦ nomatch h.1)
  | some device =>
    cases service with
    | none => exact iff_of_false (fun ⟨_, h⟩ ↦ nomatch h) (fun h ↦ nomatch h.2)
    | some service =>
      refine iff_of_true ?_ ⟨rfl, rfl⟩
      cases cost <;> cases notes <;> cases next <;> exact ⟨_, rfl⟩

/-- Every text in the tables is valid in the encoding of the server. -/
structure Encoded (t : Tables) : Prop where
  devices : ∀ d ∈ t.devices, Utf8.Valid d.name ∧ (∀ s ∈ d.model, Utf8.Valid s) ∧
    ∀ s ∈ d.status, Utf8.Valid s
  service_types : ∀ st ∈ t.service_types, Utf8.Valid st.name
  service_history : ∀ r ∈ t.service_history, ∀ s ∈ r.notes, Utf8.Valid s

def Field.Encoded (f : Field) : Prop := ∀ s, f = some (.text s) → Utf8.Valid s

namespace Field.Encoded

omit [Postgres] in
theorem text {s : Str} (h : Utf8.Valid s) : Field.Encoded (some (.text s)) := by
  rintro _ ⟨⟩
  exact h

omit [Postgres] in
theorem map {f : α → Value} {o : Option α} (h : ∀ a ∈ o, Field.Encoded (some (f a))) :
    Field.Encoded (o.map f) := by
  cases o with
  | none => exact fun _ ↦ nofun
  | some a => exact h a rfl

theorem date (d : Postgres.Date) : Field.Encoded (some (dateValue d)) :=
  text (Utf8.valid_of_ascii (Postgres.date_out_ascii d))

end Field.Encoded

theorem mem_history {x : ServiceHistoryRow × DeviceRow × ServiceTypeRow} (h : x ∈ history t) :
    x.1 ∈ t.service_history ∧ x.2.1 ∈ t.devices ∧ x.2.2 ∈ t.service_types := by
  obtain ⟨sh, hsh, h⟩ := List.mem_flatMap.mp h
  obtain ⟨d, hd, h⟩ := List.mem_flatMap.mp h
  obtain ⟨st, hst, rfl⟩ := List.mem_map.mp h
  exact ⟨hsh, List.mem_of_mem_filter hd, List.mem_of_mem_filter hst⟩

theorem select_encoded (h : Encoded t) (q : Query) :
    ∀ row ∈ select t q, ∀ f ∈ row, Field.Encoded f := by
  have hint : ∀ n, Field.Encoded (some (.int n)) := fun _ _ ↦ nofun
  have hnum : ∀ n, Field.Encoded (some (.numeric n)) := fun _ _ ↦ nofun
  cases q with
  | select1 => simp [select, hint]
  | devices =>
    simp only [select, List.forall_mem_map, mem_sorted, List.forall_mem_cons]
    intro d hd
    obtain ⟨hname, hmodel, hstatus⟩ := h.devices d hd
    exact ⟨hint _, .text hname, .map (fun s hs ↦ .text (hmodel s hs)), .map (fun d _ ↦ .date d),
      .map (fun s hs ↦ .text (hstatus s hs)), nofun⟩
  | serviceTypes =>
    simp only [select, List.forall_mem_map, mem_sorted, List.forall_mem_cons]
    intro st hst
    exact ⟨hint _, .text (h.service_types st hst), .map (fun n _ ↦ hint n), .map (fun n _ ↦ hnum n),
      nofun⟩
  | serviceRecords =>
    simp only [select, latestFirst, List.forall_mem_map, mem_sorted, List.forall_mem_cons]
    intro r hr
    exact ⟨hint _, .map (fun n _ ↦ hint n), .map (fun n _ ↦ hint n), .date _,
      .map (fun n _ ↦ hnum n), .map (fun s hs ↦ .text (h.service_history r hr s hs)),
      .map (fun d _ ↦ .date d), nofun⟩
  | detailedHistory =>
    simp only [select, latestFirst, List.forall_mem_map, mem_sorted, List.forall_mem_cons]
    intro x hx
    obtain ⟨hr, hd, hst⟩ := mem_history hx
    obtain ⟨hname, hmodel, -⟩ := h.devices _ hd
    exact ⟨hint _, .text hname, .map (fun s hs ↦ .text (hmodel s hs)),
      .text (h.service_types _ hst), .date _, .map (fun n _ ↦ hnum n),
      .map (fun s hs ↦ .text (h.service_history _ hr s hs)), .map (fun d _ ↦ .date d), nofun⟩

omit [Postgres] in
theorem field_encoded {row : Row} (h : ∀ f ∈ row, Field.Encoded f) (i : ℕ) :
    Field.Encoded (field row i) := by
  rw [field]
  cases hi : row[i]? with
  | none => exact fun _ ↦ nofun
  | some f => exact h f (List.mem_of_getElem? hi)

omit [Postgres] in
theorem as_string_valid {f : Field} {s : Str} (hf : f.Encoded) (h : as_string f = .ok s) :
    Utf8.Valid s := by
  cases f with
  | none => cases h
  | some v =>
    cases v with
    | int n =>
      obtain ⟨rfl⟩ := h
      exact Utf8.valid_ofInt n
    | text t =>
      obtain ⟨rfl⟩ := h
      exact hf _ rfl
    | numeric n =>
      obtain ⟨rfl⟩ := h
      exact Utf8.valid_fixed ..

omit [Postgres] in
theorem orDefault_valid {f : Field} {default_value s : Str} (hd : Utf8.Valid default_value)
    (hf : f.Encoded) (h : orDefault as_string default_value f = .ok s) : Utf8.Valid s := by
  unfold orDefault at h
  split_ifs at h
  · obtain ⟨rfl⟩ := h
    exact hd
  · exact as_string_valid hf h

end Rows

end ServiceSystem.Database
