import ServiceSystem.Database.Reads

namespace ServiceSystem.Database

open Foundations Program

variable [Postgres] {α : Type}

namespace Transaction

def register_transaction (c : Connection) : Except PqxxError Unit × Connection :=
  if c.trans then (.error .usage_error, c) else (.ok (), { c with trans := true })

def unregister_transaction (c : Connection) : Connection := { c with trans := false }

/-- `BEGIN`. Inside a transaction the server only warns, and after an error there it refuses. -/
def execBegin (c : Connection) : Except PqxxError Unit × Connection :=
  if !c.is_open then (.error .broken_connection, c)
  else match c.faults.begin, c.session with
    | .lost, _ => (.error .broken_connection, c.lose)
    | .refused, .inTransaction _ => (.error .sql_error, { c with session := .failed })
    | .refused, _ => (.error .sql_error, c)
    | .none, .idle => (.ok (), { c with session := .inTransaction c.tables })
    | .none, .inTransaction _ => (.ok (), c)
    | .none, .failed => (.error .sql_error, c)

/-- The constructor `basic_transaction`. If `BEGIN` throws, only the destructor of
`transaction_base` runs, which unregisters. -/
def construct (c : Connection) : Except PqxxError Work × Connection :=
  match register_transaction c with
  | (.error e, c) => (.error e, c)
  | (.ok (), c) =>
    match execBegin c with
    | (.error e, c) => (.error e, unregister_transaction c)
    | (.ok (), c) => (.ok ⟨true, .active⟩, c)

/-- `ROLLBACK`. -/
def do_abort (c : Connection) : Except PqxxError Unit × Connection :=
  if !c.is_open then (.error .broken_connection, c)
  else if c.faults.rollback_lost then (.error .broken_connection, c.lose)
  else (.ok (), { c with session := .idle })

/-- `close` with the `abort` in it, which swallows what `do_abort` throws; when it closes again
there is nothing left to do. -/
def close (c : Connection) (w : Work) : Connection × Work :=
  let (c, w) :=
    if w.registered then (unregister_transaction c, { w with registered := false }) else (c, w)
  if w.status ≠ .active then (c, w)
  else ((do_abort c).2, { w with status := .aborted })

/-- `COMMIT`, which ends the transaction on the server whatever comes of it. -/
def do_commit (c : Connection) : Except PqxxError Unit × Connection :=
  match c.faults.commit with
  | .none => (.ok (), { c with tables := c.applied, session := .idle })
  | .rejected => (.error .sql_error, { c with session := .idle })
  | .unknown applied lost =>
    (.error .in_doubt_error,
      { c with
        tables := if applied then c.applied else c.tables
        session := .idle
        is_open := !lost })

def commit (c : Connection) (w : Work) : (Except PqxxError Unit × Work) × Connection :=
  match w.status with
  | .aborted => ((.error .usage_error, w), c)
  | .committed => ((.ok (), w), c)
  | .in_doubt => ((.error .in_doubt_error, w), c)
  | .active =>
    if !c.is_open then ((.error .broken_connection, w), c)
    else match do_commit c with
      | (.error .in_doubt_error, c) => ((.error .in_doubt_error, { w with status := .in_doubt }), c)
      | (.error e, c) => ((.error e, { w with status := .aborted }), c)
      | (.ok (), c) =>
        let (c, w) := close c { w with status := .committed }
        ((.ok (), w), c)

def exec : ∀ op : Op, Connection → Ans op × Connection
  | .work, c => construct c
  | .exec w q, c => c.exec w q
  | .exec_params w s, c => c.exec_params w s
  | .commit w, c => commit c w
  | .destroy w, c => ((), (close c w).1)

end Transaction

/-- Nothing is registered, and the server is not in a transaction unless it is out of reach. -/
structure Clean (c : Connection) : Prop where
  trans : c.trans = false
  session : c.is_open = true → c.session = .idle

namespace Transaction

theorem construct_eq {c : Connection} (h : Clean c) : construct c = c.work := by
  obtain ⟨trans, is_open, session, tables, sequences, faults⟩ := c
  obtain ⟨rfl, hs⟩ := h
  cases is_open with
  | false => rfl
  | true =>
    obtain rfl := hs rfl
    obtain ⟨begin, _, _, _⟩ := faults
    cases begin <;> rfl

theorem close_eq (c : Connection) (w : Work) : (close c w).1 = c.destroy w := by
  obtain ⟨registered, status⟩ := w
  cases registered <;> cases status <;>
    simp [close, Connection.destroy, do_abort, unregister_transaction] <;> split_ifs <;> rfl

theorem commit_eq (c : Connection) (w : Work) : commit c w = c.commit w := by
  obtain ⟨registered, status⟩ := w
  cases status with
  | aborted | committed | in_doubt => rfl
  | active =>
    simp only [commit, Connection.commit, do_commit]
    cases c.is_open with
    | false => rfl
    | true =>
      cases c.faults.commit with
      | rejected | unknown => rfl
      | none => cases registered <;> rfl

end Transaction

namespace Clean

variable {c : Connection}

theorem work_error (h : Clean c) {e : PqxxError} (he : c.work.1 = .error e) : Clean c.work.2 := by
  unfold Connection.work at he ⊢
  rw [if_neg (by rw [h.trans]; decide)] at he ⊢
  split_ifs at he ⊢ with hopen
  · exact h
  · split at he
    · exact ⟨h.trans, fun ho ↦ by cases ho⟩
    · exact h
    · cases he

/-- The destructor cleans up after every exception before `COMMIT`. -/
theorem destroy_active (c : Connection) : Clean (c.destroy ⟨true, .active⟩) := by
  rw [← Transaction.close_eq]
  simp only [Transaction.close, if_true, ne_eq, not_true_eq_false, if_false, Transaction.do_abort,
    Transaction.unregister_transaction]
  split_ifs with hopen
  · exact ⟨rfl, fun ho ↦ by simp [show c.is_open = true from ho] at hopen⟩
  · exact ⟨rfl, fun ho ↦ by cases ho⟩
  · exact ⟨rfl, fun _ ↦ rfl⟩

/-- After `COMMIT` the transaction is unregistered by `commit` itself or by the destructor. -/
theorem destroy_commit (c : Connection) :
    Clean ((c.commit ⟨true, .active⟩).2.destroy (c.commit ⟨true, .active⟩).1.2) := by
  by_cases hopen : c.is_open = true
  · rw [commit_open hopen]
    cases c.faults.commit with
    | none => exact ⟨rfl, fun _ ↦ rfl⟩
    | rejected => exact ⟨rfl, fun _ ↦ rfl⟩
    | unknown applied lost => exact ⟨rfl, fun _ ↦ rfl⟩
  · have hcommit :
        c.commit ⟨true, .active⟩ = ((.error .broken_connection, ⟨true, .active⟩), c) := by
      simp [Connection.commit, hopen]
    rw [hcommit]
    exact destroy_active c

theorem work_ok (h : Clean c) {w : Work} (hw : c.work.1 = .ok w) : w = ⟨true, .active⟩ := by
  rcases work_cases h.trans with ⟨e, he, -⟩ | ⟨hok, -⟩
  · rw [he] at hw
    cases hw
  · rw [hok] at hw
    exact (Except.ok.inj hw).symm

theorem mutate (h : Clean c) (s : Statement) : Clean ((Database.mutate s).run exec c).2 := by
  rw [mutate_run]
  rcases hw : c.work with ⟨e | w, c'⟩
  · have hclean := h.work_error (congrArg Prod.fst hw)
    rwa [hw] at hclean
  · obtain rfl := h.work_ok (congrArg Prod.fst hw)
    dsimp only
    rcases c'.exec_params ⟨true, .active⟩ s with ⟨e | ⟨⟩, c''⟩
    · exact destroy_active c''
    · exact destroy_commit c''

theorem readAll (h : Clean c) (q : Query) (ofRow : Row → Except PqxxError α) :
    Clean ((Database.readAll q ofRow).run exec c).2 := by
  rw [readAll_run]
  rcases hw : c.work with ⟨e | w, c'⟩
  · have hclean := h.work_error (congrArg Prod.fst hw)
    rwa [hw] at hclean
  · obtain rfl := h.work_ok (congrArg Prod.fst hw)
    dsimp only
    rcases c'.exec ⟨true, .active⟩ q with ⟨e | rows, c''⟩
    · exact destroy_active c''
    · dsimp only
      rcases convert ofRow rows with ⟨items, _ | e⟩
      · exact destroy_commit c''
      · exact destroy_active c''

/-- `testConnection` never commits; its destructor rolls back. -/
theorem testConnection (h : Clean c) : Clean (Database.testConnection.run exec c).2 := by
  simp only [Database.testConnection, perform_bind, run_call]
  rw [show exec .work c = c.work from rfl]
  rcases hw : c.work with ⟨e | w, c'⟩
  · have hclean := h.work_error (congrArg Prod.fst hw)
    rwa [hw] at hclean
  · obtain rfl := h.work_ok (congrArg Prod.fst hw)
    exact destroy_active _

theorem code (h : Clean c) (call : Call) : Clean ((Database.code call).run exec c).2 := by
  have hreturning {β : Type} (f : β → Reply) (p : Program Op Ans (Outcome β))
      (hp : Clean (p.run exec c).2) : Clean ((returning f p).run exec c).2 := by
    rw [returning, run_bind]
    exact hp
  cases call with
  | testConnection => exact hreturning _ _ h.testConnection
  | getAllDevices | getAllServiceTypes | getAllServiceRecords | getDetailedServiceHistory =>
    exact hreturning _ _ (h.readAll _ _)
  | addDevice | updateDevice | deleteDevice | addServiceType | updateServiceType |
    deleteServiceType | addServiceRecord | updateServiceRecord | deleteServiceRecord =>
    exact hreturning _ _ (h.mutate _)

end Clean

section Run

def Op.Begun : Op → Prop
  | .work => False
  | .exec .. | .exec_params .. | .commit _ | .destroy _ => True

theorem exec_of_begun (op : Op) (h : op.Begun) : Transaction.exec op = exec op := by
  cases op with
  | work => exact h.elim
  | exec w q => rfl
  | exec_params w s => rfl
  | commit w => exact funext (fun c ↦ Transaction.commit_eq c w)
  | destroy w => exact funext (fun c ↦ congrArg (Prod.mk ()) (Transaction.close_eq c w))

omit [Postgres] in
theorem abandon_begun (f : α → Reply) (w : Work) (onError : α) (e : PqxxError) :
    Only Op.Begun (returning f (abandon w onError e)) := ⟨trivial, fun _ ↦ trivial⟩

omit [Postgres] in
theorem complete_begun (f : α → Reply) (w : Work) (returned onError : α) :
    Only Op.Begun (returning f (complete w returned onError)) :=
  ⟨trivial, fun _ ↦ ⟨trivial, fun _ ↦ trivial⟩⟩

omit [Postgres] in
theorem readAll_begun (f : List α → Reply) (q : Query) (ofRow : Row → Except PqxxError α) :
    ∃ k, returning f (readAll q ofRow) = .call .work k ∧ ∀ a, Only Op.Begun (k a) := by
  refine ⟨_, rfl, fun a ↦ ?_⟩
  rcases a with e | w
  · trivial
  · refine ⟨trivial, fun r ↦ ?_⟩
    rcases r with e | rows
    · exact abandon_begun f w [] e
    · simp only [Program.bind]
      rcases convert ofRow rows with ⟨items, _ | e⟩
      · exact complete_begun f w items items
      · exact abandon_begun f w items e

omit [Postgres] in
theorem mutate_begun (f : Bool → Reply) (s : Statement) :
    ∃ k, returning f (mutate s) = .call .work k ∧ ∀ a, Only Op.Begun (k a) := by
  refine ⟨_, rfl, fun a ↦ ?_⟩
  rcases a with e | w
  · trivial
  · refine ⟨trivial, fun r ↦ ?_⟩
    rcases r with e | ⟨⟩
    · exact abandon_begun f w false e
    · exact complete_begun f w true false

omit [Postgres] in
theorem testConnection_begun (f : Bool → Reply) :
    ∃ k, returning f testConnection = .call .work k ∧ ∀ a, Only Op.Begun (k a) := by
  refine ⟨_, rfl, fun a ↦ ?_⟩
  rcases a with e | w
  · trivial
  · exact ⟨trivial, fun _ ↦ ⟨trivial, fun _ ↦ trivial⟩⟩

omit [Postgres] in
theorem code_begun (call : Call) : ∃ k, code call = .call .work k ∧ ∀ a, Only Op.Begun (k a) := by
  cases call with
  | testConnection => exact testConnection_begun _
  | getAllDevices | getAllServiceTypes | getAllServiceRecords | getDetailedServiceHistory =>
    exact readAll_begun _ _ _
  | addDevice | updateDevice | deleteDevice | addServiceType | updateServiceType |
    deleteServiceType | addServiceRecord | updateServiceRecord | deleteServiceRecord =>
    exact mutate_begun _ _

/-- On a clean connection libpqxx's own steps come to those that the methods are modelled by. -/
theorem code_run {c : Connection} (h : Clean c) (call : Call) :
    (code call).run Transaction.exec c = (code call).run exec c := by
  obtain ⟨k, hk, hbegun⟩ := code_begun call
  rw [hk, run_call, run_call, show Transaction.exec .work c = exec .work c from
    Transaction.construct_eq h]
  exact run_congr exec_of_begun (hbegun _) _

/-- One call, with what goes wrong during it. -/
def callStep (c : Connection) (x : Call × Faults) : Connection :=
  ((code x.1).run Transaction.exec { c with faults := x.2 }).2

def callRun (c : Connection) (past : List (Call × Faults)) : Connection := past.foldl callStep c

/-- A connection that has just been opened. -/
def opened (tables : Tables) (sequences : Sequences) (faults : Faults) : Connection where
  trans := false
  is_open := true
  session := .idle
  tables := tables
  sequences := sequences
  faults := faults

theorem callRun_clean (past : List (Call × Faults)) {c : Connection} (h : Clean c) :
    Clean (callRun c past) := by
  induction past generalizing c with
  | nil => exact h
  | cons x past ih =>
    have hfaults : Clean { c with faults := x.2 } := ⟨h.trans, h.session⟩
    refine ih ?_
    rw [callStep, code_run hfaults]
    exact hfaults.code x.1

/-- After any calls the connection is clean, and while it is open the next call finds it as if
it had just been opened. -/
theorem no_transaction_leaks (tables : Tables) (sequences : Sequences)
    (past : List (Call × Faults)) :
    let c := callRun (opened tables sequences .healthy) past
    Clean c ∧ ∀ (call : Call) (faults : Faults), c.is_open = true →
      (Transaction.construct { c with faults := faults }).1 ≠ .error .usage_error ∧
        (∀ w, (Transaction.construct { c with faults := faults }).1 = .ok w →
          (Transaction.construct { c with faults := faults }).2.session =
            .inTransaction c.tables) ∧
        (code call).run Transaction.exec { c with faults := faults } =
          (code call).run Transaction.exec (opened c.tables c.sequences faults) := by
  intro c
  have hclean : Clean c := callRun_clean past ⟨rfl, fun _ ↦ rfl⟩
  refine ⟨hclean, fun call faults hopen ↦ ?_⟩
  have hfresh : { c with faults := faults } = opened c.tables c.sequences faults := by
    rw [opened, ← hclean.trans, ← hopen, ← hclean.session hopen]
  rw [hfresh]
  obtain ⟨begin, _, _, _⟩ := faults
  cases begin with
  | none => exact ⟨fun h ↦ (by cases h), fun _ _ ↦ rfl, rfl⟩
  | refused => exact ⟨fun h ↦ (by cases h), fun _ h ↦ (by cases h), rfl⟩
  | lost => exact ⟨fun h ↦ (by cases h), fun _ h ↦ (by cases h), rfl⟩

end Run

end ServiceSystem.Database
