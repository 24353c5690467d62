import ServiceSystem.Database.Init
import ServiceSystem.Database.Overlaps

namespace ServiceSystem.Database

open Foundations Program Interleaving Rows

/-- The tables of docker/init.sql, each with a `SERIAL` key. -/
inductive Table
  | devices
  | service_types
  | service_history
  deriving DecidableEq

def Sequences.next (q : Sequences) : Table → ℤ
  | .devices => q.device_id
  | .service_types => q.service_id
  | .service_history => q.record_id

variable [Postgres]

def Tables.ids (t : Tables) : Table → List ℤ
  | .devices => t.devices.map DeviceRow.device_id
  | .service_types => t.service_types.map ServiceTypeRow.service_id
  | .service_history => t.service_history.map ServiceHistoryRow.record_id

/-- Every key has been given out by the sequence of its table. -/
def Numbered (t : Tables) (q : Sequences) : Prop := ∀ k, ∀ id ∈ t.ids k, id < q.next k

theorem execute_next (t : Tables) (q : Sequences) (s : Statement) (k : Table) :
    q.next k ≤ (execute t q s).2.next k := by
  cases s with
  | insertDevice _ | insertServiceType _ | insertServiceRecord _ =>
    simp only [execute]
    split
    · exact le_refl _
    · exact le_refl _
    · cases k <;> simp only [Sequences.next] <;> omega
  | updateDevice _ _ | updateServiceType _ _ | updateServiceRecord _ _ =>
    simp only [execute]
    split <;> exact le_refl _
  | deleteDevice _ | deleteServiceType _ | deleteServiceRecord _ => exact le_refl _

omit [Postgres] in
theorem mem_map_append {α : Type} {key : α → ℤ} {rows : List α} {row : α} {id : ℤ}
    (h : id ∈ (rows ++ [row]).map key) : id ∈ rows.map key ∨ id = key row := by
  rw [List.map_append, List.mem_append] at h
  exact h.imp_right List.mem_singleton.mp

omit [Postgres] in
theorem mem_map_filter {α : Type} {key : α → ℤ} {rows : List α} {p : α → Bool} {id : ℤ}
    (h : id ∈ (rows.filter p).map key) : id ∈ rows.map key := by
  obtain ⟨row, hrow, rfl⟩ := List.mem_map.mp h
  exact List.mem_map_of_mem (List.mem_of_mem_filter hrow)

omit [Postgres] in
theorem mem_map_replace {α : Type} {key : α → ℤ} {rows : List α} {k id : ℤ} {row : α}
    (h : key row = k) (hid : id ∈ (rows.map (fun r ↦ if key r = k then row else r)).map key) :
    id ∈ rows.map key := by
  rwa [map_replace h] at hid

/-- The keys after a statement: some of those from before, and at most one new one, which its
sequence has given out. -/
theorem execute_ids {t t' : Tables} {q q' : Sequences} {s : Statement}
    (h : execute t q s = (.ok t', q')) (k : Table) :
    ∀ id ∈ t'.ids k, id ∈ t.ids k ∨ (id = q.next k ∧ id < q'.next k) := by
  intro id hid
  cases s with
  | insertDevice d =>
    simp only [execute] at h
    split at h
    · cases h
    · cases h
    · rename_i row _ hrow _
      split_ifs at h <;> cases h
      cases k with
      | devices =>
        rcases mem_map_append hid with hold | rfl
        · exact .inl hold
        · rw [deviceRow_id hrow]
          refine .inr ⟨rfl, ?_⟩
          simp only [Sequences.next]
          omega
      | service_types | service_history => exact .inl hid
  | insertServiceType st =>
    simp only [execute] at h
    split at h
    · cases h
    · cases h
    · rename_i row _ hrow _
      split_ifs at h <;> cases h
      cases k with
      | service_types =>
        rcases mem_map_append hid with hold | rfl
        · exact .inl hold
        · rw [serviceTypeRow_id hrow]
          refine .inr ⟨rfl, ?_⟩
          simp only [Sequences.next]
          omega
      | devices | service_history => exact .inl hid
  | insertServiceRecord r =>
    simp only [execute] at h
    split at h
    · cases h
    · cases h
    · rename_i row _ hrow _
      split_ifs at h <;> cases h
      cases k with
      | service_history =>
        rcases mem_map_append hid with hold | rfl
        · exact .inl hold
        · rw [(serviceHistoryRow_ids hrow).1]
          refine .inr ⟨rfl, ?_⟩
          simp only [Sequences.next]
          omega
      | devices | service_types => exact .inl hid
  | updateDevice i d =>
    simp only [execute] at h
    split at h
    · cases h
    · rename_i row hrow
      cases h
      cases k with
      | devices => exact .inl (mem_map_replace (deviceRow_id hrow) hid)
      | service_types | service_history => exact .inl hid
  | updateServiceType i st =>
    simp only [execute] at h
    split at h
    · cases h
    · rename_i row hrow
      cases h
      cases k with
      | service_types => exact .inl (mem_map_replace (serviceTypeRow_id hrow) hid)
      | devices | service_history => exact .inl hid
  | updateServiceRecord i r =>
    simp only [execute] at h
    split at h
    · cases h
    · rename_i row hrow
      split_ifs at h <;> cases h
      cases k with
      | service_history =>
        exact .inl (mem_map_replace (serviceHistoryRow_ids hrow).1 hid)
      | devices | service_types => exact .inl hid
  | deleteDevice i =>
    simp only [execute] at h
    split_ifs at h <;> cases h
    cases k with
    | devices => exact .inl (mem_map_filter hid)
    | service_types | service_history => exact .inl hid
  | deleteServiceType i =>
    simp only [execute] at h
    split_ifs at h <;> cases h
    cases k with
    | service_types => exact .inl (mem_map_filter hid)
    | devices | service_history => exact .inl hid
  | deleteServiceRecord i =>
    cases h
    cases k with
    | service_history => exact .inl (mem_map_filter hid)
    | devices | service_types => exact .inl hid

section Malformed

/-- An error about a parameter, found before any table is looked at. -/
def SqlError.Malformed : SqlError → Prop
  | .invalid_byte_sequence | .invalid_datetime | .value_too_long | .numeric_overflow => True
  | .sequence_exhausted | .unique_violation | .foreign_key_violation => False

variable {α β : Type}

omit [Postgres] in
theorem malformed_bind {x : Except SqlError α} {f : α → Except SqlError β}
    (hx : ∀ e, x = .error e → e.Malformed) (hf : ∀ a e, f a = .error e → e.Malformed) :
    ∀ e, (x >>= f) = .error e → e.Malformed := by
  intro e h
  cases x with
  | error e' => exact hx e (congrArg Except.error (Except.error.inj h))
  | ok a => exact hf a e h

omit [Postgres] in
theorem textParam_malformed (s : Str) : ∀ e, textParam s = .error e → e.Malformed := by
  intro e h
  simp only [textParam] at h
  split_ifs at h
  cases h
  trivial

omit [Postgres] in
theorem varchar_malformed (n : ℕ) (s : Str) : ∀ e, varchar n s = .error e → e.Malformed := by
  intro e h
  simp only [varchar] at h
  split_ifs at h
  cases h
  trivial

omit [Postgres] in
theorem decimal_malformed (q : ℚ) : ∀ e, decimal q = .error e → e.Malformed := by
  intro e h
  simp only [decimal] at h
  split_ifs at h
  cases h
  trivial

theorem dateParam_malformed (s : Str) : ∀ e, dateParam s = .error e → e.Malformed := by
  refine malformed_bind (textParam_malformed s) fun t e h ↦ ?_
  split at h <;> cases h
  trivial

theorem optionalDate_malformed (s : Str) : ∀ e, optionalDate s = .error e → e.Malformed := by
  intro e h
  unfold optionalDate at h
  split_ifs at h
  cases hd : dateParam s with
  | ok d =>
    rw [hd] at h
    cases h
  | error e' =>
    rw [hd] at h
    cases h
    exact dateParam_malformed s _ hd

theorem deviceRow_malformed {id : ℤ} {d : Device} :
    ∀ e, deviceRow id d = .error e → e.Malformed := by
  unfold deviceRow
  refine malformed_bind (textParam_malformed _) fun _ ↦ ?_
  refine malformed_bind (textParam_malformed _) fun _ ↦ ?_
  refine malformed_bind (optionalDate_malformed _) fun _ ↦ ?_
  refine malformed_bind (textParam_malformed _) fun _ ↦ ?_
  refine malformed_bind (varchar_malformed _ _) fun _ ↦ ?_
  refine malformed_bind (varchar_malformed _ _) fun _ ↦ ?_
  exact malformed_bind (varchar_malformed _ _) fun _ _ ↦ nofun

omit [Postgres] in
theorem serviceTypeRow_malformed {id : ℤ} {st : ServiceType} :
    ∀ e, serviceTypeRow id st = .error e → e.Malformed := by
  unfold serviceTypeRow
  refine malformed_bind (textParam_malformed _) fun _ ↦ ?_
  refine malformed_bind (varchar_malformed _ _) fun _ ↦ ?_
  exact malformed_bind (decimal_malformed _) fun _ _ ↦ nofun

theorem serviceHistoryRow_malformed {id : ℤ} {r : ServiceRecord} :
    ∀ e, serviceHistoryRow id r = .error e → e.Malformed := by
  unfold serviceHistoryRow
  refine malformed_bind (dateParam_malformed _) fun _ ↦ ?_
  refine malformed_bind (textParam_malformed _) fun _ ↦ ?_
  refine malformed_bind (optionalDate_malformed _) fun _ ↦ ?_
  exact malformed_bind (decimal_malformed _) fun _ _ ↦ nofun

omit [Postgres] in
theorem nextval_ne (next : ℤ) : nextval next ≠ .error .unique_violation := by
  unfold nextval
  split_ifs <;> exact nofun

end Malformed

/-- What every statement keeps holds after docker/init.sql. -/
theorem initialized_keeps {P : Tables → Sequences → Prop} (h₀ : P ⟨[], [], []⟩ ⟨1, 1, 1⟩)
    (hq : ∀ t t' q s, P t q → P t (execute t' q s).2)
    (hexecute : ∀ t q s t' q', P t q → execute t q s = (.ok t', q') → P t' q') :
    P initialized.1 initialized.2 := by
  refine List.foldlRecOn (motive := fun st : Tables × Sequences ↦ P st.1 st.2) initSql _ h₀ ?_
  intro st h s _
  unfold transact
  split
  · rename_i t q hx
    exact hexecute _ _ _ _ _ h hx
  · rename_i e q hx
    have hnext := hq st.1 st.1 st.2 s h
    rwa [hx] at hnext

namespace Numbered

variable {t t' : Tables} {q q' : Sequences}

theorem sequences (h : Numbered t q) (t' : Tables) (s : Statement) :
    Numbered t (execute t' q s).2 :=
  fun k id hid ↦ (h k id hid).trans_le (execute_next t' q s k)

theorem execute (h : Numbered t q) {s : Statement}
    (hx : Database.execute t q s = (.ok t', q')) : Numbered t' q' := by
  intro k id hid
  have hnext := execute_next t q s k
  rw [hx] at hnext
  rcases execute_ids hx k id hid with hold | ⟨-, hnew⟩
  · exact (h k id hold).trans_le hnext
  · exact hnew

/-- The next number of a sequence is never taken. -/
theorem no_unique_violation (h : Numbered t q) (s : Statement) :
    (Database.execute t q s).1 ≠ .error .unique_violation := by
  have hnext : ∀ k, q.next k ∉ t.ids k := fun k hk ↦ lt_irrefl _ (h k _ hk)
  intro hx
  cases s with
  | insertDevice d =>
    simp only [Database.execute] at hx
    split at hx
    · rename_i hrow
      cases hx
      exact deviceRow_malformed _ hrow
    · rename_i hnextval
      cases hx
      exact nextval_ne _ hnextval
    · rename_i row _ hrow _
      split_ifs at hx with hmem
      rw [deviceRow_id hrow] at hmem
      exact hnext .devices hmem
  | insertServiceType st =>
    simp only [Database.execute] at hx
    split at hx
    · rename_i hrow
      cases hx
      exact serviceTypeRow_malformed _ hrow
    · rename_i hnextval
      cases hx
      exact nextval_ne _ hnextval
    · rename_i row _ hrow _
      split_ifs at hx with hmem
      rw [serviceTypeRow_id hrow] at hmem
      exact hnext .service_types hmem
  | insertServiceRecord r =>
    simp only [Database.execute] at hx
    split at hx
    · rename_i hrow
      cases hx
      exact serviceHistoryRow_malformed _ hrow
    · rename_i hnextval
      cases hx
      exact nextval_ne _ hnextval
    · rename_i row _ hrow _
      split_ifs at hx with hmem
      · rw [(serviceHistoryRow_ids hrow).1] at hmem
        exact hnext .service_history hmem
      · cases hx
  | updateDevice id d =>
    simp only [Database.execute] at hx
    split at hx
    · rename_i hrow
      cases hx
      exact deviceRow_malformed _ hrow
    · cases hx
  | updateServiceType id st =>
    simp only [Database.execute] at hx
    split at hx
    · rename_i hrow
      cases hx
      exact serviceTypeRow_malformed _ hrow
    · cases hx
  | updateServiceRecord id r =>
    simp only [Database.execute] at hx
    split at hx
    · rename_i hrow
      cases hx
      exact serviceHistoryRow_malformed _ hrow
    · split_ifs at hx
      cases hx
  | deleteDevice id | deleteServiceType id =>
    simp only [Database.execute] at hx
    split_ifs at hx
    cases hx
  | deleteServiceRecord id => cases hx

theorem initialized : Numbered Database.initialized.1 Database.initialized.2 := by
  refine initialized_keeps ?_ (fun _ t' _ s h ↦ h.sequences t' s) (fun _ _ _ _ _ h hx ↦ h.execute hx)
  intro k id hid
  cases k <;> cases hid

end Numbered

variable {ι : Type}

/-- No insertion meets a key that is taken, and a key that has been given out and is gone does not
come back from `c` to `c'`. -/
def NeverReused (c c' : Connection) : Prop :=
  Throughout (fun t q ↦ ∀ s, (execute t q s).1 ≠ .error .unique_violation) c ∧
    ∀ k id, id < c.sequences.next k → Throughout (fun t _ ↦ id ∉ t.ids k) c →
      Throughout (fun t _ ↦ id ∉ t.ids k) c'

theorem numbers_never_reused [DecidableEq ι] {calls : ι → List (Faults × Call)}
    {c c' : Config ι (Faults × Call) FaultyOp FaultyAns Reply Connection}
    (h : Reaches faultySystem anyStep (initial (connect initialized) calls) c)
    (h' : Reaches faultySystem anyStep c c') : NeverReused c.shared c'.shared := by
  have hnumbered : Throughout Numbered c.shared :=
    throughout_reaches (fun _ t' _ s ht ↦ ht.sequences t' s) (fun _ _ _ _ _ ht hx ↦ ht.execute hx)
      h ⟨Numbered.initialized, fun _ ht ↦ by cases ht⟩
  refine ⟨hnumbered.imp fun _ _ ht ↦ ht.no_unique_violation, fun k id hid hgone ↦ ?_⟩
  have hstep : Throughout (fun t q ↦ id ∉ t.ids k ∧ id < q.next k) c'.shared := by
    refine throughout_reaches ?_ ?_ h' ⟨⟨hgone.1, hid⟩, fun t ht ↦ ⟨hgone.2 t ht, hid⟩⟩
    · intro t t' q s ht
      exact ⟨ht.1, ht.2.trans_le (execute_next t' q s k)⟩
    · intro t q s t' q' ht hx
      have hnext := execute_next t q s k
      rw [hx] at hnext
      refine ⟨fun hmem ↦ ?_, ht.2.trans_le hnext⟩
      rcases execute_ids hx k id hmem with hold | ⟨heq, -⟩
      · exact ht.1 hold
      · exact absurd heq ht.2.ne
  exact hstep.imp fun _ _ ht ↦ ht.1

def freshly : Config (Fin 2) (Faults × Call) FaultyOp FaultyAns Reply (@Connection isoDates) :=
  letI := isoDates
  initial (connect initialized) contenders

def inAddition : Config (Fin 2) (Faults × Call) FaultyOp FaultyAns Reply (@Connection isoDates) :=
  letI := isoDates
  (playFrom faultySystem anyStep freshly [0, 0, 1, 1, 1, 0]).2

omit [Postgres] in
theorem numbers_never_reused_inAddition : @NeverReused isoDates freshly.shared inAddition.shared :=
  letI := isoDates
  numbers_never_reused (c := freshly) .refl
    ⟨_, playFrom_run freshly [0, 0, 1, 1, 1, 0]⟩

end ServiceSystem.Database
