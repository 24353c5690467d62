import ServiceSystem.Foundations.Interleaving
import Mathlib.Data.Fintype.Card
import Mathlib.Logic.Relation

namespace ServiceSystem.Foundations.Locks

open Program Interleaving

/-- A step of a thread that uses mutexes: it takes one, lets one go, or acts on the data. -/
inductive Op (M A : Type)
  | lock (m : M)
  | unlock (m : M)
  | act (a : A)

abbrev Ans {M A : Type} (R : A → Type) : Op M A → Type
  | .lock _ | .unlock _ => Unit
  | .act a => R a

structure State (M σ : Type) where
  taken : M → Bool
  data : σ

variable {M A J ρ τ σ ι : Type} {R : A → Type}

def ready : Op M A → State M σ → Prop
  | .lock m, s => s.taken m = false
  | .unlock _, _ | .act _, _ => True

instance (op : Op M A) (s : State M σ) : Decidable (ready op s) := by
  cases op <;> unfold ready <;> infer_instance

/-- `std::lock_guard`: the mutex is held from here to the end of the scope. -/
def guarded (m : M) (scope : Program (Op M A) (Ans R) ρ) : Program (Op M A) (Ans R) ρ :=
  .call (.lock m) fun _ ↦ scope >>= fun r ↦ .call (.unlock m) fun _ ↦ .ret r

def act (a : A) : Program (Op M A) (Ans R) (R a) := .call (.act a) .ret

section

variable [DecidableEq M]

def exec (behaviour : ∀ a, σ → R a × σ) : ∀ op : Op M A, State M σ → Ans R op × State M σ
  | .lock m, s => ((), { s with taken := Function.update s.taken m true })
  | .unlock m, s => ((), { s with taken := Function.update s.taken m false })
  | .act a, s => ((behaviour a s.data).1, { s with data := (behaviour a s.data).2 })

def system (code : J → Program (Op M A) (Ans R) ρ) (behaviour : ∀ a, σ → R a × σ) :
    System J (Op M A) (Ans R) ρ (State M σ) :=
  ⟨code, ready, exec behaviour⟩

instance (code : J → Program (Op M A) (Ans R) ρ) (behaviour : ∀ a, σ → R a × σ) (op : Op M A)
    (s : State M σ) : Decidable ((system code behaviour).ready op s) :=
  inferInstanceAs (Decidable (ready op s))

def start (data : σ) : State M σ := ⟨fun _ ↦ false, data⟩

/-- The mutexes that a thread holds after an operation. -/
def after (held : List M) : Op M A → List M
  | .lock m => m :: held
  | .unlock m => held.erase m
  | .act _ => held

def heldAfter (es : List (Event (Ans (M := M) R))) : List M :=
  es.foldl (fun held e ↦ after held e.1) []

def holding (t : Thread J (Op M A) (Ans R) ρ) : List M := t.current.elim [] fun x ↦ heldAfter x.2.1

/-- The mutex that a thread is about to take. -/
def wants (t : Thread J (Op M A) (Ans R) ρ) : Option M :=
  match t.current with
  | some (_, _, .call (.lock m) _) => some m
  | _ => none

/-- There are threads each of which waits for a mutex that one of them holds. -/
def Deadlocked (c : Config ι J (Op M A) (Ans R) ρ (State M σ)) : Prop :=
  ∃ waiting : Set ι, waiting.Nonempty ∧ ∀ i ∈ waiting, ∃ j ∈ waiting, ∃ m,
    wants (c.thread i) = some m ∧ m ∈ holding (c.thread j)

/-- Some thread that holds `m` is about to take `m'`. -/
def Nested (c : Config ι J (Op M A) (Ans R) ρ (State M σ)) (m m' : M) : Prop :=
  ∃ i, m ∈ holding (c.thread i) ∧ wants (c.thread i) = some m'

theorem not_deadlocked_of_acyclic [Finite ι] {c : Config ι J (Op M A) (Ans R) ρ (State M σ)}
    (h : ∀ m, ¬ Relation.TransGen (Nested c) m m) : ¬ Deadlocked c := by
  let Behind (j i : ι) : Prop := ∃ m m', wants (c.thread i) = some m ∧
    wants (c.thread j) = some m' ∧ Relation.TransGen (Nested c) m m'
  have htrans : IsTrans ι Behind := by
    refine ⟨?_⟩
    rintro k j i ⟨m₁, m₂, h₁, h₂, hm⟩ ⟨m₀, m₁', h₀, h₁', hm'⟩
    obtain rfl := Option.some.inj (h₁.symm.trans h₁')
    exact ⟨m₀, m₂, h₀, h₂, hm'.trans hm⟩
  have hirrefl : Std.Irrefl Behind := by
    refine ⟨?_⟩
    rintro i ⟨m, m', hm, hm', hmm⟩
    obtain rfl := Option.some.inj (hm.symm.trans hm')
    exact h m hmm
  rintro ⟨waiting, ⟨i, hi⟩, hwaits⟩
  induction i using (Finite.wellFounded_of_trans_of_irrefl Behind).induction with
  | _ i ih =>
    obtain ⟨j, hj, m, hm, hheld⟩ := hwaits i hi
    obtain ⟨-, -, m', hm', -⟩ := hwaits j hj
    exact ih j ⟨m, m', hm, hm', .single ⟨j, hheld, hm'⟩⟩ hj

/-- Holding `held`, the program takes mutexes only as `r` allows, and ends holding `final`. -/
def Orderly (r : M → M → Prop) (final : List M) :
    List M → Program (Op M A) (Ans R) ρ → Prop
  | held, .ret _ => held = final
  | held, .call op k =>
    (∀ m, op = .lock m → ∀ m' ∈ held, r m' m) ∧ ∀ a, Orderly r final (after held op) (k a)

namespace Orderly

variable {r : M → M → Prop} {held middle final : List M} {p : Program (Op M A) (Ans R) ρ}

theorem bind {f : ρ → Program (Op M A) (Ans R) τ} (hp : Orderly r middle held p)
    (hf : ∀ a, Orderly r final middle (f a)) : Orderly r final held (p >>= f) := by
  induction p generalizing held with
  | ret a =>
    obtain rfl : held = middle := hp
    exact hf a
  | call op k ih => exact ⟨hp.1, fun a ↦ ih a (hp.2 a)⟩

theorem guarded {m : M} (hm : ∀ m' ∈ held, r m' m) (hp : Orderly r (m :: held) (m :: held) p) :
    Orderly r held held (Locks.guarded m p) := by
  refine ⟨fun m' h ↦ by cases h; exact hm, fun _ ↦ hp.bind fun a ↦ ⟨fun _ h ↦ (by cases h), ?_⟩⟩
  intro _
  exact List.erase_cons_head m held

theorem guarded_alone {m : M} (hp : Orderly r [m] [m] p) :
    Orderly r [] [] (Locks.guarded m p) :=
  .guarded (fun _ h ↦ (by cases h)) hp

theorem guarded_within {m m' : M} (hm : r m m') (hp : Orderly r [m', m] [m', m] p) :
    Orderly r [m] [m] (Locks.guarded m' p) :=
  .guarded (fun x hx ↦ by rwa [List.mem_singleton.mp hx]) hp

theorem act (a : A) : Orderly r held held (Locks.act a : Program (Op M A) (Ans R) (R a)) :=
  ⟨fun _ h ↦ (by cases h), fun _ ↦ rfl⟩

theorem after {behaviour : ∀ a, σ → R a × σ} {q : Program (Op M A) (Ans R) ρ}
    {es : List (Event (Ans R))} (h : After (exec behaviour) p es q) (hp : Orderly r final [] p) :
    Orderly r final (heldAfter es) q := by
  induction h with
  | start => exact hp
  | step h s ih =>
    rw [heldAfter, List.foldl_append]
    exact ih.2 _

end Orderly

end

/-- A new edge closes no cycle if its end does not lead back to its start. -/
theorem acyclic_of_new_edge {α : Type} {r r' : α → α → Prop} {a b : α}
    (hr : ∀ x, ¬ Relation.TransGen r x x) (hedge : ∀ x y, r' x y → r x y ∨ x = a ∧ y = b)
    (hback : ¬ Relation.ReflTransGen r b a) (x : α) : ¬ Relation.TransGen r' x x := by
  have hpath {x y : α} (h : Relation.TransGen r' x y) : Relation.TransGen r x y ∨
      Relation.ReflTransGen r x a ∧ Relation.ReflTransGen r b y := by
    induction h with
    | single h =>
      rcases hedge _ _ h with h | ⟨rfl, rfl⟩
      · exact .inl (.single h)
      · exact .inr ⟨.refl, .refl⟩
    | tail _ h ih =>
      rcases hedge _ _ h with h | ⟨rfl, rfl⟩
      · exact ih.imp (·.tail h) fun ⟨hxa, hby⟩ ↦ ⟨hxa, hby.tail h⟩
      · exact .inr ⟨ih.elim (·.to_reflTransGen) (·.1), .refl⟩
  intro h
  rcases hpath h with h | ⟨hxa, hbx⟩
  · exact hr x h
  · exact hback (hbx.trans hxa)

end ServiceSystem.Foundations.Locks
