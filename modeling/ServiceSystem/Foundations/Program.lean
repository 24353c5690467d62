import Mathlib.Tactic.Common
import Mathlib.Algebra.BigOperators.Group.List.Basic
import Mathlib.Algebra.GroupWithZero.Nat

namespace ServiceSystem.Foundations

/-- A computation that returns a value, or calls one atomic operation of a shared
object and goes on with its answer. -/
inductive Program (Op : Type) (Ans : Op → Type) (ρ : Type) : Type where
  | ret (r : ρ) : Program Op Ans ρ
  | call (op : Op) (k : Ans op → Program Op Ans ρ) : Program Op Ans ρ

namespace Program

variable {Op : Type} {Ans : Op → Type} {ρ τ σ : Type}

def bind : Program Op Ans ρ → (ρ → Program Op Ans τ) → Program Op Ans τ
  | .ret r, f => f r
  | .call op k, f => .call op (fun a ↦ (k a).bind f)

instance : Monad (Program Op Ans) where
  pure := ret
  bind := bind

def perform (op : Op) : Program Op Ans (Ans op) := .call op .ret

@[simp] theorem pure_eq (r : ρ) : (pure r : Program Op Ans ρ) = .ret r := rfl

@[simp] theorem ret_bind (r : ρ) (f : ρ → Program Op Ans τ) : (ret r >>= f) = f r := rfl

@[simp] theorem call_bind (op : Op) (k : Ans op → Program Op Ans ρ)
    (f : ρ → Program Op Ans τ) : (call op k >>= f) = .call op (fun a ↦ k a >>= f) := rfl

@[simp] theorem perform_bind (op : Op) (f : Ans op → Program Op Ans τ) :
    (perform op >>= f) = .call op f := rfl

theorem bind_ret (p : Program Op Ans ρ) : p >>= ret = p := by
  induction p with
  | ret r => rfl
  | call op k ih => exact congrArg (call op) (funext ih)

theorem bind_bind {υ : Type} (p : Program Op Ans ρ) (f : ρ → Program Op Ans τ)
    (g : τ → Program Op Ans υ) : p >>= f >>= g = p >>= fun r ↦ f r >>= g := by
  induction p with
  | ret r => rfl
  | call op k ih => exact congrArg (call op) (funext ih)

instance : LawfulMonad (Program Op Ans) := .mk' _ bind_ret (fun _ _ ↦ rfl) bind_bind

theorem lift_bind_run {ε : Type} (p : Program Op Ans ρ) (g : ρ → ExceptT ε (Program Op Ans) τ) :
    (ExceptT.lift p >>= g).run = p >>= fun r ↦ (g r).run := by
  induction p with
  | ret r => rfl
  | call op k ih => exact congrArg (call op) (funext ih)

variable (exec : ∀ op, σ → Ans op × σ)

def run : Program Op Ans ρ → σ → ρ × σ
  | .ret r, s => (r, s)
  | .call op k, s => run (k (exec op s).1) (exec op s).2

@[simp] theorem run_ret (r : ρ) (s : σ) : run exec (ret r : Program Op Ans ρ) s = (r, s) := rfl

@[simp] theorem run_call (op : Op) (k : Ans op → Program Op Ans ρ) (s : σ) :
    run exec (call op k) s = run exec (k (exec op s).1) (exec op s).2 := rfl

@[simp] theorem run_bind (p : Program Op Ans ρ) (f : ρ → Program Op Ans τ) (s : σ) :
    run exec (p >>= f) s = run exec (f (run exec p s).1) (run exec p s).2 := by
  induction p generalizing s with
  | ret r => rfl
  | call op k ih => exact ih (exec op s).1 (exec op s).2

abbrev Event (Ans : Op → Type) := Σ op : Op, Ans op

/-- What is left of a program after some of its calls, each answered as the operation
answers in some state. -/
inductive After (p : Program Op Ans ρ) : List (Event Ans) → Program Op Ans ρ → Prop
  | start : After p [] p
  | step {es : List (Event Ans)} {op : Op} {k : Ans op → Program Op Ans ρ}
      (h : After p es (.call op k)) (s : σ) :
      After p (es ++ [⟨op, (exec op s).1⟩]) (k (exec op s).1)

/-- Whatever happens within `R` before each operation, it finds its precondition met. -/
def Guarded (R : σ → σ → Prop) (pre : Op → σ → Prop) : Program Op Ans ρ → σ → Prop
  | .ret _, _ => True
  | .call op k, s => ∀ s', R s s' → pre op s' ∧ Guarded R pre (k (exec op s').1) (exec op s').2

variable {exec}

theorem Guarded.mono {R : σ → σ → Prop} (htrans : ∀ s t u, R s t → R t u → R s u)
    {pre : Op → σ → Prop} {p : Program Op Ans ρ} {s t : σ} (h : Guarded exec R pre p s)
    (hst : R s t) : Guarded exec R pre p t := by
  cases p with
  | ret r => trivial
  | call op k => exact fun u hu ↦ h u (htrans s t u hst hu)

theorem After.of_nil {p q : Program Op Ans ρ} (h : After exec p [] q) : q = p := by
  generalize hes : ([] : List (Event Ans)) = es at h
  cases h with
  | start => rfl
  | step h s => simp at hes

def weigh (weight : Op → ℕ) (es : List (Event Ans)) : ℕ := (es.map (weight ·.1)).sum

def Only (Q : Op → Prop) : Program Op Ans ρ → Prop
  | .ret _ => True
  | .call op k => Q op ∧ ∀ a, Only Q (k a)

theorem After.only {Q : Op → Prop} {p q : Program Op Ans ρ} {es : List (Event Ans)}
    (h : After exec p es q) (hp : Only Q p) : (∀ e ∈ es, Q e.1) ∧ Only Q q := by
  induction h with
  | start => exact ⟨by simp, hp⟩
  | step h s ih =>
    obtain ⟨hes, hop, hk⟩ := ih
    refine ⟨fun e he ↦ ?_, hk _⟩
    rcases List.mem_append.mp he with he | he
    · exact hes e he
    · rw [List.mem_singleton.mp he]
      exact hop

theorem run_congr {Q : Op → Prop} {exec exec' : ∀ op, σ → Ans op × σ}
    (h : ∀ op, Q op → exec op = exec' op) {p : Program Op Ans ρ} (hp : Only Q p) (s : σ) :
    p.run exec s = p.run exec' s := by
  induction p generalizing s with
  | ret r => rfl
  | call op k ih =>
    obtain ⟨hop, hk⟩ := hp
    rw [run_call, run_call, h op hop]
    exact ih _ (hk _) _

/-- A program whose operations are the ones listed, whatever state they are taken in. -/
def Straight (exec : ∀ op, σ → Ans op × σ) : Program Op Ans ρ → List Op → Prop
  | .ret _, ops => ops = []
  | .call op k, ops => ∃ rest, ops = op :: rest ∧ ∀ s, Straight exec (k (exec op s).1) rest

theorem After.straight {p q : Program Op Ans ρ} {es : List (Event Ans)} {ops : List Op}
    (h : After exec p es q) (hp : Straight exec p ops) :
    ∃ rest, ops = es.map (·.1) ++ rest ∧ Straight exec q rest := by
  induction h with
  | start => exact ⟨ops, rfl, hp⟩
  | step h s ih =>
    obtain ⟨rest, hops, rest', rfl, hk⟩ := ih
    exact ⟨rest', by simp [hops], hk s⟩

theorem Guarded.run_raised {R : σ → σ → Prop} {pre : Op → σ → Prop} {q : σ → ℕ} {w : Op → ℕ}
    (hR : ∀ s, R s s) (hq : ∀ op s, pre op s → q (exec op s).2 = q s + w op)
    {p : Program Op Ans ρ} {ops : List Op} {s : σ} (hg : Guarded exec R pre p s)
    (hp : Straight exec p ops) : q (p.run exec s).2 = q s + (ops.map w).sum := by
  induction p generalizing ops s with
  | ret r =>
    rw [show ops = [] from hp]
    rfl
  | call op k ih =>
    obtain ⟨rest, rfl, hk⟩ := hp
    obtain ⟨hpre, hrest⟩ := hg s (hR s)
    have h := ih _ hrest (hk s)
    rw [run_call, h, hq op s hpre, List.map_cons, List.sum_cons, Nat.add_assoc]

theorem run_preserves {P : σ → Prop} (hop : ∀ op s, P s → P (exec op s).2) (p : Program Op Ans ρ)
    {s : σ} (hs : P s) : P (p.run exec s).2 := by
  induction p generalizing s with
  | ret r => exact hs
  | call op k ih => exact ih _ (hop op s hs)

theorem Only.run_preserves {P : σ → Prop} {Q : Op → Prop}
    (hop : ∀ op s, Q op → P s → P (exec op s).2) {p : Program Op Ans ρ} (hp : Only Q p) {s : σ}
    (hs : P s) : P (p.run exec s).2 := by
  induction p generalizing s with
  | ret r => exact hs
  | call op k ih => exact ih _ (hp.2 _) (hop op s hp.1 hs)

end Program

end ServiceSystem.Foundations
