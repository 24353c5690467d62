import ServiceSystem.Metrics.Series
import Mathlib.Algebra.BigOperators.Group.List.Basic

namespace ServiceSystem.Metrics

open Foundations

namespace Histogram

/-- The members on which `format` relies for the number of values and for their sum. -/
structure Consistent (h : Histogram) : Prop where
  count : h.count = h.values.length
  sum : h.sum = h.values.sum

/-- What a move leaves in the strings and the map of its source, which is unspecified. -/
structure Leftover where
  name : Str
  help : Str
  labels : Labels

def default : Histogram := new [] [] [] .empty

def copyConstruct (other : Histogram) : Histogram where
  name := other.name
  help := other.help
  sum := other.sum
  count := other.count
  values := other.values
  buckets := other.buckets
  labels := other.labels

/-- `*this = other` between two objects. -/
def copyAssign (this other : Histogram) : Histogram :=
  { this with
    name := other.name
    help := other.help
    sum := other.sum
    count := other.count
    values := other.values
    buckets := other.buckets
    labels := other.labels }

/-- The source of a move afterwards: its vectors are empty, its sum and count reset. -/
def vacate (other : Histogram) (left : Leftover) : Histogram :=
  { other with
    name := left.name
    help := left.help
    values := []
    buckets := []
    labels := left.labels
    sum := 0
    count := 0 }

def moveConstruct (other : Histogram) (left : Leftover) : Histogram × Histogram :=
  let this : Histogram :=
    { name := other.name
      help := other.help
      sum := other.sum
      count := other.count
      values := other.values
      buckets := other.buckets
      labels := other.labels }
  (this, other.vacate left)

def moveAssign (this other : Histogram) (left : Leftover) : Histogram × Histogram :=
  let assigned := { this with
    name := other.name
    help := other.help
    sum := other.sum
    count := other.count
    values := other.values
    buckets := other.buckets
    labels := other.labels }
  (assigned, other.vacate left)

theorem new_consistent (name help : Str) (buckets : List ℚ) (labels : Labels) :
    (new name help buckets labels).Consistent := ⟨rfl, rfl⟩

theorem vacate_consistent (other : Histogram) (left : Leftover) :
    (other.vacate left).Consistent := ⟨rfl, rfl⟩

theorem Consistent.observe {h : Histogram} (hc : h.Consistent) (value : ℚ) :
    (h.observe value).Consistent where
  count := by rw [Histogram.observe, hc.count, List.length_append, List.length_singleton]
  sum := by rw [Histogram.observe, hc.sum, List.sum_append, List.sum_singleton]

end Histogram

/-- An operation on a pool of histograms, which are named by the order of their construction. -/
inductive PoolOp
  | default
  | construct (name help : Str) (buckets : List ℚ) (labels : Labels)
  | observe (this : ℕ) (value : ℚ)
  | copyConstruct (other : ℕ)
  | copyAssign (this other : ℕ)
  | moveConstruct (other : ℕ) (left : Histogram.Leftover)
  | moveAssign (this other : ℕ) (left : Histogram.Leftover)

namespace PoolOp

open Histogram

/-- An assignment does nothing when `this == &other`. -/
def exec (pool : List Histogram) : PoolOp → Option (List Histogram)
  | default => some (pool ++ [Histogram.default])
  | construct name help buckets labels => some (pool ++ [.new name help buckets labels])
  | observe this value => do
    let target ← pool[this]?
    return pool.set this (target.observe value)
  | copyConstruct other => do
    let source ← pool[other]?
    return pool ++ [source.copyConstruct]
  | copyAssign this other => do
    let target ← pool[this]?
    let source ← pool[other]?
    if this = other then return pool
    else return pool.set this (target.copyAssign source)
  | moveConstruct other left => do
    let source ← pool[other]?
    let moved := source.moveConstruct left
    return pool.set other moved.2 ++ [moved.1]
  | moveAssign this other left => do
    let target ← pool[this]?
    let source ← pool[other]?
    if this = other then return pool
    else
      let moved := target.moveAssign source left
      return (pool.set this moved.1).set other moved.2

def run (pool : List Histogram) : List PoolOp → Option (List Histogram)
  | [] => some pool
  | op :: ops => (op.exec pool).bind (run · ops)

/-- The source and the target of a copy or a move. -/
def transfer (pool : List Histogram) : PoolOp → Option (ℕ × ℕ)
  | copyConstruct other | moveConstruct other _ => some (other, pool.length)
  | copyAssign this other | moveAssign this other _ => some (other, this)
  | default | construct .. | observe .. => none

def AllConsistent (pool : List Histogram) : Prop := ∀ h ∈ pool, h.Consistent

variable {pool pool' : List Histogram}

theorem AllConsistent.append (hp : AllConsistent pool) {h : Histogram} (hh : h.Consistent) :
    AllConsistent (pool ++ [h]) := by
  intro x hx
  rcases List.mem_append.mp hx with hx | hx
  · exact hp x hx
  · rwa [List.mem_singleton.mp hx]

theorem AllConsistent.set (hp : AllConsistent pool) {h : Histogram} (hh : h.Consistent) (i : ℕ) :
    AllConsistent (pool.set i h) := by
  intro x hx
  rcases List.mem_or_eq_of_mem_set hx with hx | rfl
  · exact hp x hx
  · exact hh

theorem AllConsistent.get (hp : AllConsistent pool) {i : ℕ} {h : Histogram}
    (hi : pool[i]? = some h) : h.Consistent :=
  hp h (List.mem_of_getElem? hi)

theorem exec_consistent (op : PoolOp) (h : op.exec pool = some pool') (hp : AllConsistent pool) :
    AllConsistent pool' := by
  cases op with
  | default =>
    cases h
    exact hp.append (new_consistent ..)
  | construct name help buckets labels =>
    cases h
    exact hp.append (new_consistent ..)
  | observe this value =>
    obtain ⟨target, ht, hpool⟩ := Option.bind_eq_some_iff.mp h
    cases hpool
    exact hp.set ((hp.get ht).observe value) this
  | copyConstruct other =>
    obtain ⟨source, hs, hpool⟩ := Option.bind_eq_some_iff.mp h
    cases hpool
    exact hp.append (hp.get hs)
  | copyAssign this other =>
    obtain ⟨target, ht, h⟩ := Option.bind_eq_some_iff.mp h
    obtain ⟨source, hs, hpool⟩ := Option.bind_eq_some_iff.mp h
    split_ifs at hpool
    · cases hpool
      exact hp
    · cases hpool
      exact hp.set (hp.get hs) this
  | moveConstruct other left =>
    obtain ⟨source, hs, hpool⟩ := Option.bind_eq_some_iff.mp h
    cases hpool
    exact (hp.set (vacate_consistent source left) other).append (hp.get hs)
  | moveAssign this other left =>
    obtain ⟨target, ht, h⟩ := Option.bind_eq_some_iff.mp h
    obtain ⟨source, hs, hpool⟩ := Option.bind_eq_some_iff.mp h
    split_ifs at hpool
    · cases hpool
      exact hp
    · cases hpool
      exact (hp.set (hp.get hs) this).set (vacate_consistent source left) other

theorem run_consistent {ops : List PoolOp} (h : run pool ops = some pool')
    (hp : AllConsistent pool) : AllConsistent pool' := by
  induction ops generalizing pool with
  | nil =>
    cases h
    exact hp
  | cons op ops ih =>
    obtain ⟨next, hnext, hrest⟩ := Option.bind_eq_some_iff.mp h
    exact ih hrest (op.exec_consistent hnext hp)

/-- The target of a copy or a move is then what its source was. -/
theorem exec_transfer (op : PoolOp) (h : op.exec pool = some pool') {source target : ℕ}
    (ht : op.transfer pool = some (source, target)) :
    ∃ x, pool[source]? = some x ∧ pool'[target]? = some x := by
  cases op with
  | default => cases ht
  | construct name help buckets labels => cases ht
  | observe this value => cases ht
  | copyConstruct other =>
    cases ht
    obtain ⟨x, hx, hpool⟩ := Option.bind_eq_some_iff.mp h
    cases hpool
    exact ⟨x, hx, List.getElem?_concat_length⟩
  | copyAssign this other =>
    cases ht
    obtain ⟨y, hy, h⟩ := Option.bind_eq_some_iff.mp h
    obtain ⟨x, hx, hpool⟩ := Option.bind_eq_some_iff.mp h
    split_ifs at hpool with heq
    · cases hpool
      exact ⟨x, hx, by rwa [heq]⟩
    · cases hpool
      exact ⟨x, hx, List.getElem?_set_self (List.getElem?_eq_some_iff.mp hy).1⟩
  | moveConstruct other left =>
    cases ht
    obtain ⟨x, hx, hpool⟩ := Option.bind_eq_some_iff.mp h
    cases hpool
    refine ⟨x, hx, ?_⟩
    rw [← List.length_set]
    exact List.getElem?_concat_length
  | moveAssign this other left =>
    cases ht
    obtain ⟨y, hy, h⟩ := Option.bind_eq_some_iff.mp h
    obtain ⟨x, hx, hpool⟩ := Option.bind_eq_some_iff.mp h
    split_ifs at hpool with heq
    · cases hpool
      exact ⟨x, hx, by rwa [heq]⟩
    · cases hpool
      refine ⟨x, hx, ?_⟩
      rw [List.getElem?_set_ne (Ne.symm heq)]
      exact List.getElem?_set_self (List.getElem?_eq_some_iff.mp hy).1

/-- Every histogram of a pool stays consistent, whatever is built, observed, copied and
moved, and the target of a copy or a move is what its source was. -/
theorem histograms_consistent :
    (∀ ops pool, run [] ops = some pool → ∀ h ∈ pool, h.Consistent) ∧
      ∀ (op : PoolOp) (pool pool' : List Histogram), op.exec pool = some pool' →
        ∀ source target, op.transfer pool = some (source, target) →
          ∃ x, pool[source]? = some x ∧ pool'[target]? = some x :=
  ⟨fun _ _ h ↦ run_consistent h (by simp [AllConsistent]),
    fun op _ _ h _ _ ht ↦ op.exec_transfer h ht⟩

end PoolOp

end ServiceSystem.Metrics
