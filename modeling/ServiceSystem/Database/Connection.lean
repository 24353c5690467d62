import ServiceSystem.Database.Schema
import ServiceSystem.Foundations.Program

namespace ServiceSystem.Database

open Foundations Program

variable [Postgres]

/-- The exceptions of libpqxx that a method can meet. -/
inductive PqxxError
  | usage_error
  | broken_connection
  | sql_error
  | in_doubt_error
  | conversion_error
  deriving DecidableEq

/-- What goes wrong with a command, on the server or on the way to it. -/
inductive Fault
  | none
  | refused
  | lost
  deriving DecidableEq

/-- What goes wrong with `COMMIT`. Its outcome may stay unknown, with the connection
lost or not. -/
inductive CommitFault
  | none
  | rejected
  | unknown (applied lost : Bool)
  deriving DecidableEq

structure Faults where
  begin : Fault
  exec : Fault
  commit : CommitFault
  rollback_lost : Bool
  deriving DecidableEq

def Faults.healthy : Faults := ⟨.none, .none, .none, false⟩

/-- The session of the server: outside a transaction, in one with the tables as it sees
them, or in one that an error has ended. -/
inductive Session
  | idle
  | inTransaction (working : Tables)
  | failed
  deriving DecidableEq

/-- `pqxx::connection` and what stands behind it. `trans` says whether `m_trans` is set. -/
structure Connection where
  trans : Bool
  is_open : Bool
  session : Session
  tables : Tables
  sequences : Sequences
  faults : Faults
  deriving DecidableEq

inductive Status
  | active
  | aborted
  | committed
  | in_doubt
  deriving DecidableEq

structure Work where
  registered : Bool
  status : Status
  deriving DecidableEq

/-- The calls of libpqxx, each one atomic step on the connection. -/
inductive Op
  | work
  | exec (w : Work) (q : Query)
  | exec_params (w : Work) (s : Statement)
  | commit (w : Work)
  | destroy (w : Work)

abbrev Ans : Op → Type
  | .work => Except PqxxError Work
  | .exec .. => Except PqxxError (List Row)
  | .exec_params .. => Except PqxxError Unit
  | .commit _ => Except PqxxError Unit × Work
  | .destroy _ => Unit

namespace Connection

def lose (c : Connection) : Connection := { c with is_open := false, session := .idle }

/-- `register_transaction`, then `BEGIN`. When the latter throws, the base class takes
the registration back. -/
def work (c : Connection) : Except PqxxError Work × Connection :=
  if c.trans then (.error .usage_error, c)
  else if !c.is_open then (.error .broken_connection, c)
  else match c.faults.begin with
    | .lost => (.error .broken_connection, c.lose)
    | .refused => (.error .sql_error, c)
    | .none =>
      (.ok ⟨true, .active⟩, { c with trans := true, session := .inTransaction c.tables })

def direct_exec {α : Type} (c : Connection)
    (command : Tables → Sequences → Except SqlError (α × Tables) × Sequences) :
    Except PqxxError α × Connection :=
  if !c.is_open then (.error .broken_connection, c)
  else match c.faults.exec, c.session with
    | .lost, _ => (.error .broken_connection, c.lose)
    | .refused, .idle => (.error .sql_error, c)
    | .refused, _ => (.error .sql_error, { c with session := .failed })
    | .none, .failed => (.error .sql_error, c)
    | .none, .inTransaction working =>
      match command working c.sequences with
      | (.error _, s) => (.error .sql_error, { c with session := .failed, sequences := s })
      | (.ok (a, working), s) =>
        (.ok a, { c with session := .inTransaction working, sequences := s })
    | .none, .idle =>
      match command c.tables c.sequences with
      | (.error _, s) => (.error .sql_error, { c with sequences := s })
      | (.ok (a, tables), s) => (.ok a, { c with tables := tables, sequences := s })

def exec (c : Connection) (w : Work) (q : Query) : Except PqxxError (List Row) × Connection :=
  if w.status ≠ .active then (.error .usage_error, c)
  else c.direct_exec (fun t s ↦ (.ok (select t q, t), s))

def exec_params (c : Connection) (w : Work) (st : Statement) : Except PqxxError Unit × Connection :=
  if w.status ≠ .active then (.error .usage_error, c)
  else c.direct_exec (fun t s ↦ ((execute t s st).1.map (fun t ↦ ((), t)), (execute t s st).2))

def applied (c : Connection) : Tables :=
  match c.session with
  | .inTransaction working => working
  | .idle | .failed => c.tables

/-- `transaction_base::commit`, `do_commit` and, after a success, `close`. -/
def commit (c : Connection) (w : Work) : (Except PqxxError Unit × Work) × Connection :=
  match w.status with
  | .aborted => ((.error .usage_error, w), c)
  | .committed => ((.ok (), w), c)
  | .in_doubt => ((.error .in_doubt_error, w), c)
  | .active =>
    if !c.is_open then ((.error .broken_connection, w), c)
    else match c.faults.commit with
      | .rejected => ((.error .sql_error, { w with status := .aborted }),
        { c with session := .idle })
      | .unknown applied lost =>
        ((.error .in_doubt_error, { w with status := .in_doubt }),
          { c with
            tables := if applied then c.applied else c.tables
            session := .idle
            is_open := !lost })
      | .none =>
        ((.ok (), ⟨false, .committed⟩),
          { c with
            tables := c.applied
            session := .idle
            trans := if w.registered then false else c.trans })

/-- The destructor: `close` unregisters the transaction and rolls back what is active. -/
def destroy (c : Connection) (w : Work) : Connection :=
  let c := if w.registered then { c with trans := false } else c
  if w.status ≠ .active then c
  else if !c.is_open then c
  else if c.faults.rollback_lost then c.lose
  else { c with session := .idle }

end Connection

def exec : ∀ op : Op, Connection → Ans op × Connection
  | .work, c => c.work
  | .exec w q, c => c.exec w q
  | .exec_params w s, c => c.exec_params w s
  | .commit w, c => c.commit w
  | .destroy w, c => ((), c.destroy w)

theorem work_cases {c : Connection} (h : c.trans = false) :
    (∃ e, c.work.1 = .error e ∧ c.work.2.trans = false) ∨
      c.work.1 = .ok ⟨true, .active⟩ ∧ c.work.2.trans = true := by
  simp only [Connection.work, h]
  cases c.is_open with
  | false => exact .inl ⟨_, rfl, h⟩
  | true =>
    cases c.faults.begin with
    | none => exact .inr ⟨rfl, rfl⟩
    | refused => exact .inl ⟨_, rfl, h⟩
    | lost => exact .inl ⟨_, rfl, h⟩

theorem direct_exec_trans {α : Type} (c : Connection)
    (command : Tables → Sequences → Except SqlError (α × Tables) × Sequences) :
    (c.direct_exec command).2.trans = c.trans := by
  unfold Connection.direct_exec
  split
  · rfl
  · split
    · rfl
    · rfl
    · rfl
    · rfl
    · split <;> rfl
    · split <;> rfl

theorem direct_exec_inTransaction {α : Type} {c : Connection} {t : Tables} (ho : c.is_open = true)
    (hs : c.session = .inTransaction t)
    (command : Tables → Sequences → Except SqlError (α × Tables) × Sequences) :
    c.direct_exec command = match c.faults.exec with
      | .lost => (.error .broken_connection, c.lose)
      | .refused => (.error .sql_error, { c with session := .failed })
      | .none => match command t c.sequences with
        | (.error _, s) => (.error .sql_error, { c with session := .failed, sequences := s })
        | (.ok (a, t), s) => (.ok a, { c with session := .inTransaction t, sequences := s }) := by
  simp only [Connection.direct_exec, ho, hs]
  cases c.faults.exec <;> rfl

theorem commit_open {c : Connection} (ho : c.is_open = true) :
    c.commit ⟨true, .active⟩ = match c.faults.commit with
      | .rejected => ((.error .sql_error, ⟨true, .aborted⟩), { c with session := .idle })
      | .unknown applied lost =>
        ((.error .in_doubt_error, ⟨true, .in_doubt⟩),
          { c with
            tables := if applied then c.applied else c.tables
            session := .idle
            is_open := !lost })
      | .none =>
        ((.ok (), ⟨false, .committed⟩),
          { c with tables := c.applied, session := .idle, trans := false }) := by
  simp only [Connection.commit, ho]
  cases c.faults.commit <;> rfl

theorem exec_trans (c : Connection) (w : Work) (q : Query) : (c.exec w q).2.trans = c.trans := by
  unfold Connection.exec
  split_ifs
  · rfl
  · exact direct_exec_trans c _

theorem exec_params_trans (c : Connection) (w : Work) (s : Statement) :
    (c.exec_params w s).2.trans = c.trans := by
  unfold Connection.exec_params
  split_ifs
  · rfl
  · exact direct_exec_trans c _

theorem destroy_trans (c : Connection) (status : Status) :
    (c.destroy ⟨true, status⟩).trans = false := by
  simp only [Connection.destroy, Connection.lose, if_true]
  split_ifs <;> rfl

theorem commit_cases {c : Connection} (h : c.trans = true) :
    (∃ e status, (c.commit ⟨true, .active⟩).1 = (.error e, ⟨true, status⟩) ∧
        (c.commit ⟨true, .active⟩).2.trans = true) ∨
      (c.commit ⟨true, .active⟩).1 = (.ok (), ⟨false, .committed⟩) ∧
        (c.commit ⟨true, .active⟩).2.trans = false := by
  simp only [Connection.commit]
  cases c.is_open with
  | false => exact .inl ⟨_, _, rfl, h⟩
  | true =>
    cases c.faults.commit with
    | none => exact .inr ⟨rfl, rfl⟩
    | rejected => exact .inl ⟨_, _, rfl, h⟩
    | unknown applied lost => exact .inl ⟨_, _, rfl, h⟩

theorem destroy_committed (c : Connection) : c.destroy ⟨false, .committed⟩ = c := by
  simp [Connection.destroy]

/-- What a method returns, and the exception its catch block has swallowed, if any. -/
structure Outcome (α : Type) where
  value : α
  caught : Option PqxxError
  deriving DecidableEq

end ServiceSystem.Database
