import ServiceSystem.Database.Integrity
import ServiceSystem.Foundations.Refusals

namespace ServiceSystem.Database

open Foundations Program Interleaving

variable [Postgres] {α ρ ι : Type}

section Faults

/-- An operation, with what goes wrong while it is taken. -/
abbrev FaultyOp := Faults × Op

abbrev FaultyAns (x : FaultyOp) : Type := Ans x.2

def Connection.facing (c : Connection) (f : Faults) : Connection := { c with faults := f }

def execUnder : ∀ x : FaultyOp, Connection → FaultyAns x × Connection
  | (f, op), c => ((exec op (c.facing f)).1, (exec op (c.facing f)).2.facing c.faults)

def under (f : Faults) : Program Op Ans ρ → Program FaultyOp FaultyAns ρ
  | .ret r => .ret r
  | .call op k => .call (f, op) (fun a ↦ under f (k a))

/-- The threads of Crow on the one connection, where each call meets troubles of its own. -/
def faultySystem : System (Faults × Call) FaultyOp FaultyAns Reply Connection :=
  ⟨fun j ↦ under j.1 (code j.2), fun _ _ ↦ True, execUnder⟩

@[simp] theorem facing_trans (c : Connection) (f : Faults) : (c.facing f).trans = c.trans := rfl

@[simp] theorem facing_facing (c : Connection) (f g : Faults) :
    (c.facing f).facing g = c.facing g := rfl

theorem facing_own (c : Connection) : c.facing c.faults = c := rfl

theorem direct_exec_faults (c : Connection)
    (command : Tables → Sequences → Except SqlError (α × Tables) × Sequences) :
    (c.direct_exec command).2.faults = c.faults := by
  unfold Connection.direct_exec
  split
  · rfl
  · split
    · rfl
    · rfl
    · rfl
    · rfl
    · split <;> rfl
    · split <;> rfl

theorem destroy_faults (c : Connection) (w : Work) : (c.destroy w).faults = c.faults := by
  simp only [Connection.destroy, Connection.lose]
  split_ifs <;> rfl

theorem exec_faults (op : Op) (c : Connection) : (exec op c).2.faults = c.faults := by
  cases op with
  | work =>
    show (c.work).2.faults = c.faults
    unfold Connection.work
    split_ifs
    · rfl
    · rfl
    · cases c.faults.begin <;> rfl
  | exec w q =>
    show (c.exec w q).2.faults = c.faults
    unfold Connection.exec
    split_ifs
    · rfl
    · exact direct_exec_faults c _
  | exec_params w s =>
    show (c.exec_params w s).2.faults = c.faults
    unfold Connection.exec_params
    split_ifs
    · rfl
    · exact direct_exec_faults c _
  | commit w =>
    show (c.commit w).2.faults = c.faults
    unfold Connection.commit
    cases w.status with
    | aborted | committed | in_doubt => rfl
    | active =>
      dsimp only
      split
      · rfl
      · cases c.faults.commit <;> rfl
  | destroy w => exact destroy_faults c w

theorem facing_exec (op : Op) (c : Connection) (f : Faults) :
    (exec op (c.facing f)).2.facing f = (exec op (c.facing f)).2 := by
  have h := facing_own (exec op (c.facing f)).2
  rwa [exec_faults] at h

/-- Run under `f`, a method does what it does on a connection that has `f` before it. -/
theorem under_run (f : Faults) (p : Program Op Ans ρ) (c : Connection) :
    (under f p).run execUnder c =
      ((p.run exec (c.facing f)).1, (p.run exec (c.facing f)).2.facing c.faults) := by
  induction p generalizing c with
  | ret r => rfl
  | call op k ih =>
    rw [under, run_call, run_call, ih]
    simp only [execUnder, facing_facing, facing_exec]
    rfl

theorem under_inert {r : ρ} (f : Faults) {p : Program Op Ans ρ} (h : Inert exec r p) :
    Inert execUnder r (under f p) := by
  induction p with
  | ret r' => exact h
  | call op k ih =>
    intro s
    obtain ⟨hs, hk⟩ := h (s.facing f)
    refine ⟨?_, ih _ hk⟩
    show (exec op (s.facing f)).2.facing s.faults = s
    rw [hs]
    rfl

theorem under_critical (f : Faults) {p : Program Op Ans ρ} {c : Connection}
    (h : Critical exec trans p (c.facing f)) : Critical execUnder trans (under f p) c := by
  induction p generalizing c with
  | ret r => exact h
  | call op k ih =>
    rcases h with ⟨hheld, hk⟩ | ⟨hfree, r, hk⟩
    · refine .inl ⟨hheld, ih _ ?_⟩
      show Critical exec trans _ (((exec op (c.facing f)).2.facing c.faults).facing f)
      rwa [facing_facing, facing_exec]
    · exact .inr ⟨hfree, r, under_inert f hk⟩

end Faults

section Refused

/-- What a method returns from its catch block. -/
def Call.onError : Call → Reply
  | .getAllDevices => .devices []
  | .getAllServiceTypes => .serviceTypes []
  | .getAllServiceRecords => .serviceRecords []
  | .getDetailedServiceHistory => .detailedHistory []
  | .testConnection | .addDevice _ | .updateDevice .. | .deleteDevice _ | .addServiceType _
  | .updateServiceType .. | .deleteServiceType _ | .addServiceRecord _ | .updateServiceRecord ..
  | .deleteServiceRecord _ => .bool false

/-- `register_transaction` throws `usage_error`, as another transaction is registered. -/
def busy : Event FaultyAns → Bool
  | ⟨(_, .work), .error .usage_error⟩ => true
  | _ => false

omit [Postgres] in
theorem code_begins (j : Call) :
    ∃ k, code j = .call .work k ∧ ∀ e, k (.error e) = .ret j.onError := by
  cases j <;> exact ⟨_, rfl, fun _ ↦ rfl⟩

theorem work_usage_error {c : Connection} :
    c.work.1 = .error .usage_error ↔ c.trans = true := by
  constructor
  · intro h
    unfold Connection.work at h
    split_ifs at h with ht ho
    · exact ht
    · cases h
    · cases hf : c.faults.begin <;> rw [hf] at h <;> cases h
  · intro h
    rw [Connection.work, if_pos h]

theorem busy_iff (f : Faults) (c : Connection) :
    busy ⟨(f, .work), (execUnder (f, .work) c).1⟩ = true ↔ c.trans = true := by
  have h := work_usage_error (c := c.facing f)
  rw [facing_trans] at h
  rw [← h, show (execUnder (f, .work) c).1 = (c.facing f).work.1 from rfl]
  rcases (c.facing f).work.1 with e | w
  · cases e <;> simp [busy]
  · simp [busy]

theorem refusing : Refusing faultySystem trans busy (fun j ↦ j.2.onError) where
  code j c h := under_critical j.1 (code_critical j.2 _ h)
  refused j op k c hcode h := by
    obtain ⟨k', hk, -⟩ := code_begins j.2
    rw [show faultySystem.code j = under j.1 (code j.2) from rfl, hk] at hcode
    obtain ⟨rfl, -⟩ := Program.call.inj hcode
    exact (busy_iff j.1 c).mpr h
  inert j op k c hcode h := by
    obtain ⟨k', hk, herror⟩ := code_begins j.2
    rw [show faultySystem.code j = under j.1 (code j.2) from rfl, hk] at hcode
    obtain ⟨rfl, hk'⟩ := Program.call.inj hcode
    cases hk'
    have ht : c.trans = true := (busy_iff j.1 c).mp h
    have hwork : exec .work (c.facing j.1) = (.error .usage_error, c.facing j.1) := by
      show (c.facing j.1).work = _
      rw [Connection.work, facing_trans, if_pos ht]
    refine ⟨?_, ?_⟩
    · show (exec .work (c.facing j.1)).2.facing c.faults = c
      rw [hwork]
      rfl
    · show Inert execUnder j.2.onError (under j.1 (k' (exec .work (c.facing j.1)).1))
      rw [hwork, herror]
      rfl

/-- The calls that find no transaction registered return what they would in some serial order
without the others, and the others all return what their catch block does. -/
def SerializableApart [DecidableEq ι] (c₀ : Connection) (calls : ι → List (Faults × Call))
    (c : Config ι (Faults × Call) FaultyOp FaultyAns Reply Connection) : Prop :=
  (∃ order, ∀ i, (of i order).Sublist (calls i) ∧
      replies (admitted busy (c.thread i)) <+: of i (serial faultySystem order c₀).1) ∧
    ∀ i, ∀ d ∈ (c.thread i).done, admits busy d.2.1 = false → d.2.2 = d.1.2.onError

/-- Whenever the threads call the one connection, and whatever goes wrong with it, the calls are
serializable apart from those that are refused. -/
theorem overlapping_serializable [DecidableEq ι] {c₀ : Connection} (hfree : c₀.trans = false)
    {calls : ι → List (Faults × Call)}
    {c : Config ι (Faults × Call) FaultyOp FaultyAns Reply Connection}
    (h : Reaches faultySystem anyStep (initial c₀ calls) c) : SerializableApart c₀ calls c := by
  obtain ⟨order, horder, -⟩ := serializable_of_refusing refusing hfree h
  exact ⟨⟨order, horder⟩, turned_of_refused refusing hfree h⟩

instance (op : FaultyOp) (c : Connection) : Decidable (faultySystem.ready op c) :=
  inferInstanceAs (Decidable True)

/-- The second thread reads while the first one adds a device. -/
def contenders (i : Fin 2) : List (Faults × Call) :=
  if i = 0 then [(.healthy, .addDevice printer)] else [(.healthy, .getAllDevices)]

def contended : Config (Fin 2) (Faults × Call) FaultyOp FaultyAns Reply
    (@Connection isoDates) :=
  letI := isoDates
  (playFrom faultySystem anyStep (initial onePrinter contenders) [0, 0, 1, 1, 1, 0, 0, 0, 0]).2

omit [Postgres] in
theorem overlapping_serializable_contended :
    @SerializableApart isoDates (Fin 2) _ onePrinter contenders contended :=
  letI := isoDates
  overlapping_serializable rfl ⟨_, playFrom_run (initial onePrinter contenders) _⟩

end Refused

section History

def Call.statement : Call → Option Statement
  | .addDevice device => some (.insertDevice device)
  | .updateDevice id device => some (.updateDevice id device)
  | .deleteDevice id => some (.deleteDevice id)
  | .addServiceType type => some (.insertServiceType type)
  | .updateServiceType id type => some (.updateServiceType id type)
  | .deleteServiceType id => some (.deleteServiceType id)
  | .addServiceRecord record => some (.insertServiceRecord record)
  | .updateServiceRecord id record => some (.updateServiceRecord id record)
  | .deleteServiceRecord id => some (.deleteServiceRecord id)
  | .testConnection | .getAllDevices | .getAllServiceTypes | .getAllServiceRecords
  | .getDetailedServiceHistory => none

/-- What a call returns from these tables if nothing goes wrong. -/
def Call.view (t : Tables) : Call → Reply
  | .getAllDevices => .devices (convert Device.ofRow (select t .devices)).1
  | .getAllServiceTypes => .serviceTypes (convert ServiceType.ofRow (select t .serviceTypes)).1
  | .getAllServiceRecords =>
    .serviceRecords (convert ServiceRecord.ofRow (select t .serviceRecords)).1
  | .getDetailedServiceHistory =>
    .detailedHistory (convert DetailedRecord.ofRow (select t .detailedHistory)).1
  | .testConnection | .addDevice _ | .updateDevice .. | .deleteDevice _ | .addServiceType _
  | .updateServiceType .. | .deleteServiceType _ | .addServiceRecord _ | .updateServiceRecord ..
  | .deleteServiceRecord _ => .bool true

/-- What a call has done to the database by the time it is answered. A failed statement may have
used up a number of its sequence, and a `COMMIT` in doubt may have been applied. -/
inductive Answered (f : Faults) (j : Call) : Reply → Tables × Sequences → Tables × Sequences → Prop
  | read {r : Reply} {t : Tables} {q : Sequences} (h : j.statement = none)
      (hr : r = j.onError ∨ r = j.view t) : Answered f j r (t, q) (t, q)
  | applied {t t' : Tables} {q q' : Sequences} {s : Statement} (h : j.statement = some s)
      (hx : execute t q s = (.ok t', q')) : Answered f j (.bool true) (t, q) (t', q')
  | unreached {st : Tables × Sequences} {s : Statement} (h : j.statement = some s) :
      Answered f j (.bool false) st st
  | undone {t : Tables} {q : Sequences} {s : Statement} (h : j.statement = some s) :
      Answered f j (.bool false) (t, q) (t, (execute t q s).2)
  | inDoubt {t t' : Tables} {q q' : Sequences} {s : Statement} {lost : Bool}
      (h : j.statement = some s) (hf : f.commit = .unknown true lost)
      (hx : execute t q s = (.ok t', q')) : Answered f j (.bool false) (t, q) (t', q')

inductive History : List ((Faults × Call) × Reply) → Tables × Sequences → Tables × Sequences → Prop
  | nil {st : Tables × Sequences} : History [] st st
  | cons {f : Faults} {j : Call} {r : Reply} {rest : List ((Faults × Call) × Reply)}
      {st st' st'' : Tables × Sequences} (h : Answered f j r st st') (hrest : History rest st' st'') :
      History (((f, j), r) :: rest) st st''

abbrev stored (c : Connection) : Tables × Sequences := (c.tables, c.sequences)

theorem exec_sequences (op : Op) (h : ∀ w s, op ≠ .exec_params w s) (c : Connection) :
    (exec op c).2.sequences = c.sequences := by
  cases op with
  | work =>
    show (c.work).2.sequences = c.sequences
    unfold Connection.work
    split_ifs
    · rfl
    · rfl
    · cases c.faults.begin <;> rfl
  | exec w q =>
    show (c.exec w q).2.sequences = c.sequences
    unfold Connection.exec Connection.direct_exec
    split_ifs
    · rfl
    · rfl
    · cases c.faults.exec <;> cases c.session <;> rfl
  | exec_params w s => exact absurd rfl (h w s)
  | commit w =>
    show (c.commit w).2.sequences = c.sequences
    unfold Connection.commit
    cases w.status with
    | aborted | committed | in_doubt => rfl
    | active =>
      dsimp only
      split
      · rfl
      · cases c.faults.commit <;> rfl
  | destroy w =>
    show (c.destroy w).sequences = c.sequences
    simp only [Connection.destroy, Connection.lose]
    split_ifs <;> rfl

def Op.Reading : Op → Prop
  | .exec_params .. => False
  | .work | .exec .. | .commit _ | .destroy _ => True

theorem reading_sequences {p : Program Op Ans ρ} (hp : Only Op.Reading p) (c : Connection) :
    (p.run exec c).2.sequences = c.sequences := by
  refine hp.run_preserves (P := fun c' : Connection ↦ c'.sequences = c.sequences) ?_ rfl
  intro op c' hop hc'
  rw [exec_sequences op ?_, hc']
  intro w s hs
  rw [hs] at hop
  exact hop

omit [Postgres] in
theorem readAll_reading (q : Query) (ofRow : Row → Except PqxxError α) :
    Only Op.Reading (readAll q ofRow) := by
  refine ⟨trivial, fun a ↦ ?_⟩
  rcases a with e | w
  · trivial
  · refine ⟨trivial, fun r ↦ ?_⟩
    rcases r with e | rows
    · exact ⟨trivial, fun _ ↦ trivial⟩
    · simp only [Program.bind]
      rcases convert ofRow rows with ⟨items, _ | e⟩
      · exact ⟨trivial, fun _ ↦ ⟨trivial, fun _ ↦ trivial⟩⟩
      · exact ⟨trivial, fun _ ↦ trivial⟩

omit [Postgres] in
theorem testConnection_reading : Only Op.Reading testConnection := by
  refine ⟨trivial, fun a ↦ ?_⟩
  rcases a with e | w
  · trivial
  · exact ⟨trivial, fun _ ↦ ⟨trivial, fun _ ↦ trivial⟩⟩

theorem returning_run (f : α → Reply) (p : Program Op Ans (Outcome α)) (c : Connection) :
    (returning f p).run exec c = (f (p.run exec c).1.value, (p.run exec c).2) := by
  rw [returning, run_bind]
  rfl

theorem readAll_answered {g : Faults} {j : Call} (h : j.statement = none) (q : Query)
    (ofRow : Row → Except PqxxError α) (f : List α → Reply) (c : Connection)
    (herror : j.onError = f []) (hview : j.view c.tables = f (convert ofRow (select c.tables q)).1) :
    let after := (returning f (readAll q ofRow)).run exec c
    Answered g j after.1 (stored c) (stored after.2) := by
  have hkept : stored ((readAll q ofRow).run exec c).2 = stored c := by
    rw [stored, readAll_tables, reading_sequences (readAll_reading q ofRow)]
  have hvalue : f ((readAll q ofRow).run exec c).1.value = j.onError ∨
      f ((readAll q ofRow).run exec c).1.value = j.view c.tables := by
    rw [readAll_value, queryResult_eq, herror, hview]
    split_ifs
    · exact .inr rfl
    · exact .inl rfl
  rw [returning_run]
  show Answered g j _ _ (stored ((readAll q ofRow).run exec c).2)
  rw [hkept]
  exact .read h hvalue

theorem testConnection_answered (g : Faults) (c : Connection) :
    let after := (returning .bool testConnection).run exec c
    Answered g .testConnection after.1 (stored c) (stored after.2) := by
  have hkept : stored (testConnection.run exec c).2 = stored c := by
    rw [stored, testConnection_tables, reading_sequences testConnection_reading]
  rw [returning_run]
  show Answered g .testConnection _ _ (stored (testConnection.run exec c).2)
  rw [hkept]
  refine .read rfl ?_
  cases (testConnection.run exec c).1.value with
  | false => exact .inl rfl
  | true => exact .inr rfl

theorem destroy_stored (c : Connection) (w : Work) : stored (c.destroy w) = stored c := by
  rw [stored, destroy_tables, show (c.destroy w).sequences = c.sequences from
    exec_sequences (.destroy w) (fun _ _ ↦ nofun) c]

theorem exec_params_eq {c : Connection} (hb : CanBegin c) (s : Statement) :
    (begun c).exec_params ⟨true, .active⟩ s = match c.faults.exec with
      | .lost => (.error .broken_connection, (begun c).lose)
      | .refused => (.error .sql_error, { begun c with session := .failed })
      | .none => match execute c.tables c.sequences s with
        | (.error _, q) =>
          (.error .sql_error, { begun c with session := .failed, sequences := q })
        | (.ok t, q) => (.ok (), { begun c with session := .inTransaction t, sequences := q }) := by
  have he : (begun c).exec_params ⟨true, .active⟩ s = (begun c).direct_exec (fun t q ↦
    ((execute t q s).1.map (fun t ↦ ((), t)), (execute t q s).2)) := rfl
  rw [he, direct_exec_inTransaction (c := begun c) hb.2.1 rfl,
    show (begun c).faults = c.faults from rfl, show (begun c).sequences = c.sequences from rfl]
  rcases execute c.tables c.sequences s with ⟨e | t, q⟩ <;> rfl

/-- The ends of a writer, with what each leaves of the tables and of the sequences. -/
theorem mutate_leaves (c : Connection) (s : Statement) :
    let after := (mutate s).run exec c
    (after.1.value = false ∧ (stored after.2 = stored c ∨
        stored after.2 = (c.tables, (execute c.tables c.sequences s).2))) ∨
      ∃ t q, execute c.tables c.sequences s = (.ok t, q) ∧ stored after.2 = (t, q) ∧
        (after.1.value = true ∨
          after.1.value = false ∧ ∃ lost, c.faults.commit = .unknown true lost) := by
  rw [mutate_run]
  by_cases hb : CanBegin c
  · rw [work_of_canBegin hb]
    dsimp only
    rw [exec_params_eq hb s]
    cases c.faults.exec with
    | lost | refused => exact .inl ⟨rfl, .inl (destroy_stored _ _)⟩
    | none =>
      rcases hx : execute c.tables c.sequences s with ⟨e | t, q⟩
      · exact .inl ⟨rfl, .inr (destroy_stored _ _)⟩
      · dsimp only
        rw [commit_open (c := { begun c with session := .inTransaction t, sequences := q }) hb.2.1,
          show ({ begun c with session := .inTransaction t, sequences := q } : Connection).faults =
            c.faults from rfl]
        cases hcommit : c.faults.commit with
        | none => exact .inr ⟨t, q, rfl, destroy_stored _ _, .inl rfl⟩
        | rejected => exact .inl ⟨rfl, .inr (destroy_stored _ _)⟩
        | unknown applied lost =>
          cases applied with
          | false => exact .inl ⟨rfl, .inr (destroy_stored _ _)⟩
          | true => exact .inr ⟨t, q, rfl, destroy_stored _ _, .inr ⟨rfl, lost, rfl⟩⟩
  · obtain ⟨e, c', hw, ht⟩ := work_of_not_canBegin hb
    have hq := exec_sequences .work (fun _ _ ↦ nofun) c
    rw [show exec .work c = c.work from rfl, hw] at hq
    rw [hw]
    exact .inl ⟨rfl, .inl (congrArg₂ Prod.mk ht hq)⟩

theorem mutate_answered {j : Call} {s : Statement} (h : j.statement = some s) (c : Connection) :
    let after := (returning .bool (mutate s)).run exec c
    Answered c.faults j after.1 (stored c) (stored after.2) := by
  rw [returning_run]
  show Answered c.faults j (.bool ((mutate s).run exec c).1.value) _
    (stored ((mutate s).run exec c).2)
  rcases mutate_leaves c s with ⟨hv, hs | hs⟩ | ⟨t, q, hx, hs, hv | ⟨hv, lost, hf⟩⟩
  · rw [hv, hs]
    exact .unreached h
  · rw [hv, hs]
    exact .undone h
  · rw [hv, hs]
    exact .applied h hx
  · rw [hv, hs]
    exact .inDoubt h hf hx

theorem code_answered (j : Call) (c : Connection) :
    let after := (code j).run exec c
    Answered c.faults j after.1 (stored c) (stored after.2) := by
  cases j with
  | testConnection => exact testConnection_answered c.faults c
  | getAllDevices | getAllServiceTypes | getAllServiceRecords | getDetailedServiceHistory =>
    exact readAll_answered rfl _ _ _ c rfl rfl
  | addDevice | updateDevice | deleteDevice | addServiceType | updateServiceType |
    deleteServiceType | addServiceRecord | updateServiceRecord | deleteServiceRecord =>
    exact mutate_answered rfl c

theorem serial_history (order : List (ι × Faults × Call)) (c : Connection) :
    History ((serial faultySystem order c).1.map (·.2)) (stored c)
      (stored (serial faultySystem order c).2) := by
  induction order generalizing c with
  | nil => exact .nil
  | cons x order ih =>
    obtain ⟨i, f, j⟩ := x
    have hrun := under_run f (code j) c
    have hanswered : Answered f j ((code j).run exec (c.facing f)).1 (stored c)
        (stored ((code j).run exec (c.facing f)).2) := code_answered j (c.facing f)
    have hrest := ih ((under f (code j)).run execUnder c).2
    rw [hrun] at hrest
    simp only [serial, List.map_cons]
    rw [show (faultySystem.code (f, j)).run faultySystem.exec c = _ from hrun]
    exact .cons hanswered hrest

/-- One after the other, the calls that were not refused have made of the database what it is, by
what each has been told. -/
def Accounted [DecidableEq ι] (c₀ : Connection)
    (c : Config ι (Faults × Call) FaultyOp FaultyAns Reply Connection) : Prop :=
  ∃ log : List (ι × (Faults × Call) × Reply),
    (∀ i, of i log = replies (admitted busy (c.thread i))) ∧
      History (log.map (·.2)) (stored c₀) (stored c.shared)

theorem overlapping_history [DecidableEq ι] {c₀ : Connection} (hfree : c₀.trans = false)
    {calls : ι → List (Faults × Call)}
    {c : Config ι (Faults × Call) FaultyOp FaultyAns Reply Connection}
    (h : Reaches faultySystem anyStep (initial c₀ calls) c) (hf : Finished c) :
    Accounted c₀ c := by
  obtain ⟨order, -, hfinished⟩ := serializable_of_refusing refusing hfree h
  obtain ⟨hstate, hreplies⟩ := hfinished hf
  refine ⟨(serial faultySystem order c₀).1, hreplies, ?_⟩
  rw [hstate]
  exact serial_history order c₀

omit [Postgres] in
theorem contended_finished : Finished contended := by decide

omit [Postgres] in
theorem overlapping_history_contended : @Accounted isoDates (Fin 2) _ onePrinter contended :=
  letI := isoDates
  overlapping_history rfl ⟨_, playFrom_run (initial onePrinter contenders) _⟩ contended_finished

end History

section Kept

/-- A property of the tables that holds of the committed ones and of those that a transaction
sees. -/
def Throughout (P : Tables → Sequences → Prop) (c : Connection) : Prop :=
  P c.tables c.sequences ∧ ∀ t, c.session = .inTransaction t → P t c.sequences

variable {P : Tables → Sequences → Prop}

theorem Throughout.imp {Q : Tables → Sequences → Prop} {c : Connection} (h : Throughout P c)
    (hPQ : ∀ t q, P t q → Q t q) : Throughout Q c :=
  ⟨hPQ _ _ h.1, fun t ht ↦ hPQ _ _ (h.2 t ht)⟩

theorem Throughout.idle {c c' : Connection} (h : Throughout P c) (ht : c'.tables = c.tables)
    (hq : c'.sequences = c.sequences) (hs : ∀ t, c'.session ≠ .inTransaction t) :
    Throughout P c' := by
  refine ⟨?_, fun t hst ↦ absurd hst (hs t)⟩
  rw [ht, hq]
  exact h.1

theorem Throughout.applied {c : Connection} (h : Throughout P c) : P c.applied c.sequences := by
  unfold Connection.applied
  split
  · rename_i t hs
    exact h.2 t hs
  · exact h.1
  · exact h.1

theorem throughout_work {c : Connection} (h : Throughout P c) : Throughout P c.work.2 := by
  unfold Connection.work
  split_ifs
  · exact h
  · exact h
  · cases c.faults.begin with
    | lost => exact h.idle rfl rfl nofun
    | refused => exact h
    | none =>
      refine ⟨h.1, fun t hs ↦ ?_⟩
      cases hs
      exact h.1

theorem throughout_direct_exec {c : Connection} (h : Throughout P c)
    {command : Tables → Sequences → Except SqlError (α × Tables) × Sequences}
    (hq : ∀ t t' q, P t q → P t (command t' q).2)
    (hcommand : ∀ t q a t' q', P t q → command t q = (.ok (a, t'), q') → P t' q') :
    Throughout P (c.direct_exec command).2 := by
  unfold Connection.direct_exec
  split_ifs
  · exact h
  · split
    · exact h.idle rfl rfl nofun
    · exact h
    · exact h.idle rfl rfl nofun
    · exact h
    · rename_i working _ hs
      have hworking := h.2 working hs
      split
      · rename_i e q hx
        have hkept := hq c.tables working c.sequences h.1
        rw [hx] at hkept
        exact ⟨hkept, nofun⟩
      · rename_i a t q hx
        have hkept := hq c.tables working c.sequences h.1
        rw [hx] at hkept
        refine ⟨hkept, fun t' ht ↦ ?_⟩
        cases ht
        exact hcommand _ _ _ _ _ hworking hx
    · rename_i _ hs
      split
      · rename_i e q hx
        have hkept := hq c.tables c.tables c.sequences h.1
        rw [hx] at hkept
        exact ⟨hkept, fun t ht ↦ by rw [show c.session = .inTransaction t from ht] at hs; cases hs⟩
      · rename_i a t q hx
        exact ⟨hcommand _ _ _ _ _ h.1 hx,
          fun t ht ↦ by rw [show c.session = .inTransaction t from ht] at hs; cases hs⟩

theorem throughout_commit {c : Connection} (h : Throughout P c) (w : Work) :
    Throughout P (c.commit w).2 := by
  unfold Connection.commit
  cases w.status with
  | aborted | committed | in_doubt => exact h
  | active =>
    dsimp only
    split
    · exact h
    · cases c.faults.commit with
      | rejected => exact ⟨h.1, nofun⟩
      | none => exact ⟨h.applied, nofun⟩
      | unknown applied lost =>
        refine ⟨?_, nofun⟩
        dsimp only
        split_ifs
        · exact h.applied
        · exact h.1

theorem throughout_destroy {c : Connection} (h : Throughout P c) (w : Work) :
    Throughout P (c.destroy w) := by
  have hsession : (c.destroy w).session = c.session ∨ (c.destroy w).session = .idle := by
    simp only [Connection.destroy, Connection.lose]
    split_ifs
    all_goals first | exact .inl rfl | exact .inr rfl
  have hstored := destroy_stored c w
  obtain ⟨ht, hq⟩ := Prod.mk.inj hstored
  rcases hsession with hs | hs
  · refine ⟨by rw [ht, hq]; exact h.1, fun t hst ↦ ?_⟩
    rw [hq]
    exact h.2 t (hs ▸ hst)
  · refine h.idle ht hq fun t hst ↦ ?_
    rw [hs] at hst
    cases hst

/-- What a statement keeps holds throughout, whatever order the operations of the calls come in. -/
theorem throughout_reaches [DecidableEq ι] (hq : ∀ t t' q s, P t q → P t (execute t' q s).2)
    (hexecute : ∀ t q s t' q', P t q → execute t q s = (.ok t', q') → P t' q')
    {c₀ c : Config ι (Faults × Call) FaultyOp FaultyAns Reply Connection}
    (h : Reaches faultySystem anyStep c₀ c) (h₀ : Throughout P c₀.shared) :
    Throughout P c.shared := by
  refine h.keeps (R := fun c c' ↦ Throughout P c → Throughout P c') (fun _ h ↦ h)
    (fun _ _ _ h h' ht ↦ h' (h ht)) ?_ h₀
  intro x c hc
  obtain ⟨f, op⟩ := x
  have hfacing : Throughout P (c.facing f) := hc
  show Throughout P ((exec op (c.facing f)).2.facing c.faults)
  cases op with
  | work => exact throughout_work hfacing
  | commit w => exact throughout_commit hfacing w
  | destroy w => exact throughout_destroy hfacing w
  | exec w q =>
    show Throughout P ((c.facing f).exec w q).2
    unfold Connection.exec
    split_ifs
    · exact hfacing
    · refine throughout_direct_exec hfacing (fun _ _ _ h ↦ h) ?_
      intro t q a t' q' ht hx
      cases hx
      exact ht
  | exec_params w s =>
    show Throughout P ((c.facing f).exec_params w s).2
    unfold Connection.exec_params
    split_ifs
    · exact hfacing
    · refine throughout_direct_exec hfacing (fun t t' q h ↦ hq t t' q s h) ?_
      intro t q a t' q' ht hx
      rcases he : execute t q s with ⟨e | u, q''⟩
      · rw [he] at hx
        cases hx
      · rw [he] at hx
        cases hx
        exact hexecute _ _ _ _ _ ht he

/-- At no point of any run does a table, committed or not, hold two rows of one key or a record of
a device or of a service type that is not there. -/
theorem overlapping_integrity [DecidableEq ι]
    {c₀ c : Config ι (Faults × Call) FaultyOp FaultyAns Reply Connection}
    (h : Reaches faultySystem anyStep c₀ c)
    (h₀ : Throughout (fun t _ ↦ Integrity t) c₀.shared) :
    Throughout (fun t _ ↦ Integrity t) c.shared := by
  refine throughout_reaches (fun _ _ _ _ h ↦ h) ?_ h h₀
  intro t q s t' q' ht hx
  exact ht.execute (congrArg Prod.fst hx)

omit [Postgres] in
theorem overlapping_integrity_contended :
    @Throughout isoDates (fun t _ ↦ @Integrity isoDates t) contended.shared :=
  letI := isoDates
  overlapping_integrity ⟨_, playFrom_run (initial onePrinter contenders) _⟩
    ⟨⟨by decide, by decide, by decide, nofun, nofun⟩, fun _ ht ↦ by cases ht⟩

end Kept

end ServiceSystem.Database
