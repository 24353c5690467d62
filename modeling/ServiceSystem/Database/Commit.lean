import ServiceSystem.Database.Isolation

namespace ServiceSystem.Database

open Foundations Program

variable [Postgres]

def writer : Statement → Program Op Ans (Outcome Bool)
  | .insertDevice device => addDevice device
  | .updateDevice id device => updateDevice id device
  | .deleteDevice id => deleteDevice id
  | .insertServiceType type => addServiceType type
  | .updateServiceType id type => updateServiceType id type
  | .deleteServiceType id => deleteServiceType id
  | .insertServiceRecord record => addServiceRecord record
  | .updateServiceRecord id record => updateServiceRecord id record
  | .deleteServiceRecord id => deleteServiceRecord id

omit [Postgres] in
theorem writer_eq (s : Statement) : writer s = mutate s := by
  cases s <;> rfl

/-- The statement's effect on the committed tables, unless it is an error. -/
def effect (c : Connection) (s : Statement) : Except SqlError Tables :=
  (execute c.tables c.sequences s).1

/-- What a call answers, against the tables it leaves: false only with the tables as they
were, true only with the statement's effect on them. -/
def Truthful (c : Connection) (s : Statement) : Prop :=
  let after := (writer s).run exec c
  (after.1.value = false → after.2.tables = c.tables) ∧
    (after.1.value = true → effect c s = .ok after.2.tables)

def ReachesCommit (c : Connection) : Prop :=
  c.trans = false ∧ c.is_open = true ∧ c.faults.begin = .none ∧ c.faults.exec = .none

/-- The server applies a `COMMIT` whose outcome the client never learns. -/
def AppliedUnknown (c : Connection) : Prop :=
  ReachesCommit c ∧ ∃ lost, c.faults.commit = .unknown true lost

theorem mutate_run (c : Connection) (s : Statement) :
    (mutate s).run exec c = match c.work with
      | (.error e, c) => (⟨false, some e⟩, c)
      | (.ok txn, c) =>
        match c.exec_params txn s with
        | (.error e, c) => (⟨false, some e⟩, c.destroy txn)
        | (.ok (), c) =>
          (outcome true false (c.commit txn).1.1, (c.commit txn).2.destroy (c.commit txn).1.2) := by
  simp only [mutate, perform_bind, run_call]
  rw [show exec .work c = c.work from rfl]
  rcases c.work with ⟨e | txn, c⟩
  · rfl
  · simp only [run_call]
    rw [show exec (.exec_params txn s) c = c.exec_params txn s from rfl]
    rcases c.exec_params txn s with ⟨e | ⟨⟩, c⟩ <;> rfl

def CanBegin (c : Connection) : Prop :=
  c.trans = false ∧ c.is_open = true ∧ c.faults.begin = .none

instance (c : Connection) : Decidable (CanBegin c) := inferInstanceAs (Decidable (_ ∧ _ ∧ _))

def begun (c : Connection) : Connection :=
  { c with trans := true, session := .inTransaction c.tables }

theorem work_of_canBegin {c : Connection} (h : CanBegin c) :
    c.work = (.ok ⟨true, .active⟩, begun c) := by
  obtain ⟨ht, ho, hf⟩ := h
  simp [Connection.work, begun, ht, ho, hf]

theorem work_of_not_canBegin {c : Connection} (h : ¬ CanBegin c) :
    ∃ e c', c.work = (.error e, c') ∧ c'.tables = c.tables := by
  unfold Connection.work
  split_ifs with ht ho
  · exact ⟨_, _, rfl, rfl⟩
  · exact ⟨_, _, rfl, rfl⟩
  · split
    · exact ⟨_, _, rfl, rfl⟩
    · exact ⟨_, _, rfl, rfl⟩
    · rename_i hf
      exact absurd ⟨by simpa using ht, by simpa using ho, hf⟩ h

theorem exec_params_begun {c : Connection} (h : CanBegin c) (s : Statement) :
    (c.faults.exec = .none ∧ ∃ t q, execute c.tables c.sequences s = (.ok t, q) ∧
        (begun c).exec_params ⟨true, .active⟩ s =
          (.ok (), { begun c with session := .inTransaction t, sequences := q })) ∨
      ((c.faults.exec = .none → ∀ t, effect c s ≠ .ok t) ∧
        ∃ e c', (begun c).exec_params ⟨true, .active⟩ s =
          (.error e, c') ∧ c'.tables = c.tables) := by
  have hd := direct_exec_inTransaction (c := begun c) h.2.1 rfl (fun t q ↦
    ((execute t q s).1.map (fun t ↦ ((), t)), (execute t q s).2))
  have he : (begun c).exec_params ⟨true, .active⟩ s = (begun c).direct_exec (fun t q ↦
    ((execute t q s).1.map (fun t ↦ ((), t)), (execute t q s).2)) := rfl
  rw [he, hd, show (begun c).faults.exec = c.faults.exec from rfl]
  cases hf : c.faults.exec with
  | none =>
    rw [show (begun c).sequences = c.sequences from rfl, effect]
    rcases hx : execute c.tables c.sequences s with ⟨e | t, q⟩
    · exact .inr ⟨fun _ t ↦ nofun, _, _, rfl, rfl⟩
    · exact .inl ⟨rfl, t, q, rfl, rfl⟩
  | refused => exact .inr ⟨nofun, _, _, rfl, rfl⟩
  | lost => exact .inr ⟨nofun, _, _, rfl, rfl⟩

theorem destroy_tables (c : Connection) (w : Work) : (c.destroy w).tables = c.tables := by
  simp only [Connection.destroy, Connection.lose]
  split_ifs <;> rfl

/-- All a writer can do: fail before `COMMIT`, with the tables as they were, or get there
and end as the server has it. -/
theorem mutate_cases (c : Connection) (s : Statement) :
    let after := (mutate s).run exec c
    (after.1.value = false ∧ after.1.caught.isSome ∧ after.2.tables = c.tables ∧
        ∀ t, ReachesCommit c → effect c s ≠ .ok t) ∨
      ∃ t, ReachesCommit c ∧ effect c s = .ok t ∧ match c.faults.commit with
        | .none => after.1 = ⟨true, none⟩ ∧ after.2.tables = t
        | .rejected => after.1 = ⟨false, some .sql_error⟩ ∧ after.2.tables = c.tables
        | .unknown applied _ => after.1 = ⟨false, some .in_doubt_error⟩ ∧
          after.2.tables = if applied then t else c.tables := by
  rw [mutate_run]
  by_cases hb : CanBegin c
  · rw [work_of_canBegin hb]
    dsimp only
    rcases exec_params_begun hb s with ⟨hf, t, q, hx, he⟩ | ⟨hx, e, c', he, ht⟩
    · refine .inr ⟨t, ⟨hb.1, hb.2.1, hb.2.2, hf⟩, by rw [effect, hx], ?_⟩
      have hcommit := commit_open
        (c := { begun c with session := .inTransaction t, sequences := q }) hb.2.1
      rw [he]
      dsimp only
      rw [hcommit, show (begun c).faults = c.faults from rfl]
      simp only [destroy_tables]
      cases c.faults.commit <;> exact ⟨rfl, rfl⟩
    · rw [he]
      dsimp only
      rw [destroy_tables]
      exact .inl ⟨rfl, rfl, ht, fun t hc ↦ hx hc.2.2.2 t⟩
  · obtain ⟨e, c', hw, ht⟩ := work_of_not_canBegin hb
    rw [hw]
    exact .inl ⟨rfl, rfl, ht, fun t hc ↦ absurd ⟨hc.1, hc.2.1, hc.2.2.1⟩ hb⟩

/-- A writer tells the truth unless the server applies a `COMMIT` that changes the tables
and its outcome is never learned. -/
theorem writer_truthful_iff (c : Connection) (s : Statement) :
    Truthful c s ↔ ¬ (AppliedUnknown c ∧ ∃ t, effect c s = .ok t ∧ t ≠ c.tables) := by
  rw [Truthful, writer_eq]
  rcases mutate_cases c s with ⟨hv, -, ht, hno⟩ | ⟨t, hreach, ht, hcommit⟩
  · refine ⟨fun _ ⟨⟨hreach, _⟩, t, hx, _⟩ ↦ hno t hreach hx, fun _ ↦ ⟨fun _ ↦ ht, fun h ↦ ?_⟩⟩
    rw [hv] at h
    cases h
  · simp only [AppliedUnknown, ht, Except.ok.injEq]
    cases hf : c.faults.commit with
    | none =>
      rw [hf] at hcommit
      simp [hcommit]
    | rejected =>
      rw [hf] at hcommit
      simp [hcommit]
    | unknown applied lost =>
      rw [hf] at hcommit
      cases applied with
      | false => simp [hcommit]
      | true => simp [hcommit, hreach]

/-- The connection is lost after the server has applied `COMMIT`. -/
def lostAfterCommit : @Connection isoDates :=
  letI := isoDates
  { onePrinter with faults := ⟨.none, .none, .unknown true true, false⟩ }

omit [Postgres] in
theorem lostAfterCommit_not_truthful : ¬ ∀ (pg : Postgres) (c : @Connection pg) (s : Statement),
    @Truthful pg c s := by
  intro h
  have hfalse := (h isoDates lostAfterCommit (.insertDevice printer)).1 (by decide)
  exact absurd hfalse (by decide)

end ServiceSystem.Database
