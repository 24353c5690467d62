import ServiceSystem.Database.Numbers
import ServiceSystem.Database.Stored

namespace ServiceSystem.Database

open Foundations Program Interleaving

variable [Postgres] {t t' : Tables} {q q' : Sequences} {row : ServiceHistoryRow}

omit [Postgres] in
theorem textParam_valid {s u : Str} (h : textParam s = .ok u) : Utf8.Valid u := by
  unfold textParam at h
  dsimp only at h
  split_ifs at h with hvalid
  exact Except.ok.inj h ▸ hvalid

omit [Postgres] in
theorem decimal_bound {a : ℚ} {n : ℤ} (h : decimal a = .ok n) : |n| < 10 ^ 10 := by
  unfold decimal at h
  dsimp only at h
  have hfloor : 0 ≤ ⌊|a| * 100 + 1 / 2⌋ := Int.floor_nonneg.mpr (by positivity)
  split_ifs at h with hfits hneg
  · rw [← Except.ok.inj h, abs_neg, abs_of_nonneg hfloor]
    exact hfits
  · rw [← Except.ok.inj h, abs_of_nonneg hfloor]
    exact hfits

/-- What the columns of a record take in, apart from its numbers and dates. -/
structure ServiceHistoryRow.Fits (row : ServiceHistoryRow) : Prop where
  cost : ∀ n ∈ row.cost, |n| < 10 ^ 10
  notes : ∀ s ∈ row.notes, Utf8.Valid s

theorem serviceHistoryRow_fits {id : ℤ} {r : ServiceRecord} (h : serviceHistoryRow id r = .ok row) :
    row.Fits := by
  simp only [serviceHistoryRow, except_bind_eq_ok] at h
  obtain ⟨_, -, notes, hnotes, _, -, cost, hcost, ⟨⟩⟩ := h
  constructor
  · rintro _ ⟨⟩
    exact decimal_bound hcost
  · rintro _ ⟨⟩
    exact textParam_valid hnotes

/-- A row after a statement was there before, or has been made of a record. -/
theorem execute_history {s : Statement} (h : execute t q s = (.ok t', q')) :
    ∀ row ∈ t'.service_history, row ∈ t.service_history ∨
      ∃ id r, serviceHistoryRow id r = .ok row := by
  intro row hrow
  cases s with
  | insertDevice _ | insertServiceType _ =>
    simp only [execute] at h
    split at h
    · cases h
    · cases h
    · split_ifs at h <;> cases h
      exact .inl hrow
  | insertServiceRecord r =>
    simp only [execute] at h
    split at h
    · cases h
    · cases h
    · rename_i new _ hnew _
      split_ifs at h <;> cases h
      rcases List.mem_append.mp hrow with hold | hnewest
      · exact .inl hold
      · obtain rfl := List.mem_singleton.mp hnewest
        exact .inr ⟨_, r, hnew⟩
  | updateDevice _ _ | updateServiceType _ _ =>
    simp only [execute] at h
    split at h <;> cases h
    exact .inl hrow
  | updateServiceRecord id r =>
    simp only [execute] at h
    split at h
    · cases h
    · rename_i new hnew
      split_ifs at h <;> cases h
      obtain ⟨old, hold, rfl⟩ := List.mem_map.mp hrow
      split_ifs
      · exact .inr ⟨id, r, hnew⟩
      · exact .inl hold
  | deleteDevice _ | deleteServiceType _ =>
    simp only [execute] at h
    split_ifs at h <;> cases h
    exact .inl hrow
  | deleteServiceRecord _ =>
    cases h
    exact .inl (List.mem_of_mem_filter hrow)

omit [Postgres] in
theorem nextval_le {next n : ℤ} (h : nextval next = .ok n) : next ≤ maxSerial := by
  unfold nextval at h
  split_ifs at h with hle
  exact hle

/-- A sequence stops after the last number of its column. -/
theorem execute_next_le (t : Tables) (s : Statement) (k : Table) (h : q.next k ≤ maxSerial + 1) :
    (execute t q s).2.next k ≤ maxSerial + 1 := by
  cases s with
  | insertDevice _ | insertServiceType _ | insertServiceRecord _ =>
    simp only [execute]
    split
    · exact h
    · exact h
    · rename_i hnext
      have hle := nextval_le hnext
      cases k <;> simp only [Sequences.next] at h ⊢ <;> omega
  | updateDevice _ _ | updateServiceType _ _ | updateServiceRecord _ _ =>
    simp only [execute]
    split <;> exact h
  | deleteDevice _ | deleteServiceType _ | deleteServiceRecord _ => exact h

/-- The tables hold what their columns can, and the sequences stay within `SERIAL`. -/
structure Ranged (t : Tables) (q : Sequences) : Prop where
  integrity : Integrity t
  ids : ∀ k, ∀ id ∈ t.ids k, 0 < id ∧ id ≤ maxSerial
  next : ∀ k, 0 < q.next k ∧ q.next k ≤ maxSerial + 1
  rows : ∀ row ∈ t.service_history, row.Fits

namespace Ranged

theorem sequences (h : Ranged t q) (t' : Tables) (s : Statement) : Ranged t (execute t' q s).2 :=
  { h with
    next := fun k ↦
      ⟨(h.next k).1.trans_le (execute_next t' q s k), execute_next_le t' s k (h.next k).2⟩ }

theorem execute (h : Ranged t q) {s : Statement} (hx : Database.execute t q s = (.ok t', q')) :
    Ranged t' q' := by
  have hnext := (h.sequences t s).next
  rw [hx] at hnext
  refine ⟨h.integrity.execute (congrArg Prod.fst hx), fun k id hid ↦ ?_, hnext, fun row hrow ↦ ?_⟩
  · rcases execute_ids hx k id hid with hold | ⟨rfl, hlt⟩
    · exact h.ids k id hold
    · exact ⟨(h.next k).1, Int.lt_add_one_iff.mp (hlt.trans_le (hnext k).2)⟩
  · rcases execute_history hx row hrow with hold | ⟨_, _, hnew⟩
    · exact h.rows row hold
    · exact serviceHistoryRow_fits hnew

theorem empty : Ranged ⟨[], [], []⟩ ⟨1, 1, 1⟩ where
  integrity := .empty
  ids := by rintro (_ | _ | _) _ ⟨⟩
  next := by rintro (_ | _ | _) <;> exact ⟨by decide, by decide⟩
  rows := nofun

theorem initialized : Ranged Database.initialized.1 Database.initialized.2 :=
  initialized_keeps empty (fun _ t' _ s h ↦ h.sequences t' s) (fun _ _ _ _ _ h hx ↦ h.execute hx)

/-- However the calls of the threads overlap and whatever goes wrong with them. -/
theorem reached {ι : Type} [DecidableEq ι] {calls : ι → List (Faults × Call)}
    {c : Config ι (Faults × Call) FaultyOp FaultyAns Reply Connection}
    (h : Reaches faultySystem anyStep (initial (connect Database.initialized) calls) c) :
    Throughout Ranged c.shared :=
  throughout_reaches (fun _ t' _ s ht ↦ ht.sequences t' s) (fun _ _ _ _ _ ht hx ↦ ht.execute hx) h
    ⟨initialized, fun _ ht ↦ by cases ht⟩

end Ranged

end ServiceSystem.Database
