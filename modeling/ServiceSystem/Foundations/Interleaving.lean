import ServiceSystem.Foundations.Program
import Mathlib.Algebra.BigOperators.Group.Finset.Basic
import Mathlib.Algebra.BigOperators.Group.List.Basic
import Mathlib.Data.Fintype.Basic
import Mathlib.Algebra.Order.BigOperators.Group.List
import Mathlib.Algebra.Order.Monoid.Canonical.Defs
import Mathlib.Algebra.Order.Group.Nat

namespace ServiceSystem.Foundations

/-- Threads that share an object: what each kind of call runs, when an operation may
be taken and what it does. An operation is one atomic step. -/
structure System (J Op : Type) (Ans : Op → Type) (ρ σ : Type) where
  code : J → Program Op Ans ρ
  ready : Op → σ → Prop
  exec : ∀ op, σ → Ans op × σ

/-- A thread: the calls still to make, the call in progress with the events it has had
and what is left of it, and the calls that have returned. -/
structure Thread (J Op : Type) (Ans : Op → Type) (ρ : Type) where
  todo : List J
  current : Option (J × List (Program.Event Ans) × Program Op Ans ρ)
  done : List (J × List (Program.Event Ans) × ρ)

namespace Thread

variable {J Op : Type} {Ans : Op → Type} {ρ : Type}

def calls (t : Thread J Op Ans ρ) : List J :=
  t.done.map Prod.fst ++ (t.current.map Prod.fst).toList ++ t.todo

def events (t : Thread J Op Ans ρ) : List (Program.Event Ans) :=
  t.done.flatMap (·.2.1) ++ (t.current.elim [] (·.2.1))

def spent (weight : Op → ℕ) (t : Thread J Op Ans ρ) : ℕ := Program.weigh weight t.events

theorem spent_eq (weight : Op → ℕ) (t : Thread J Op Ans ρ) :
    t.spent weight = (t.done.map (fun d ↦ Program.weigh weight d.2.1)).sum +
      t.current.elim 0 (fun x ↦ Program.weigh weight x.2.1) := by
  have hdone (ds : List (J × List (Program.Event Ans) × ρ)) :
      ((ds.flatMap (·.2.1)).map (weight ·.1)).sum =
        (ds.map (fun d ↦ Program.weigh weight d.2.1)).sum := by
    induction ds with
    | nil => rfl
    | cons d ds ih => simp [ih, Program.weigh]
  rw [spent, Program.weigh, events, List.map_append, List.sum_append, hdone]
  cases t.current <;> rfl

end Thread

/-- Two threads are named by numerals. -/
instance neZero_two : NeZero 2 := ⟨two_ne_zero⟩

structure Config (ι J Op : Type) (Ans : Op → Type) (ρ σ : Type) where
  shared : σ
  thread : ι → Thread J Op Ans ρ

namespace Interleaving

open Program

variable {ι J Op : Type} {Ans : Op → Type} {ρ σ : Type} [DecidableEq ι]

def initial (s : σ) (calls : ι → List J) : Config ι J Op Ans ρ σ :=
  ⟨s, fun i ↦ ⟨calls i, none, []⟩⟩

def update (c : Config ι J Op Ans ρ σ) (s : σ) (i : ι) (t : Thread J Op Ans ρ) :
    Config ι J Op Ans ρ σ :=
  ⟨s, Function.update c.thread i t⟩

@[simp] theorem update_shared (c : Config ι J Op Ans ρ σ) (s : σ) (i : ι)
    (t : Thread J Op Ans ρ) : (update c s i t).shared = s := rfl

@[simp] theorem update_self (c : Config ι J Op Ans ρ σ) (s : σ) (i : ι)
    (t : Thread J Op Ans ρ) : (update c s i t).thread i = t := Function.update_self ..

theorem update_update (c : Config ι J Op Ans ρ σ) (s s' : σ) (i : ι) (t t' : Thread J Op Ans ρ) :
    update (update c s i t) s' i t' = update c s' i t' := by
  simp only [update, Function.update_idem]

theorem update_eq_self (c : Config ι J Op Ans ρ σ) (i : ι) :
    update c c.shared i (c.thread i) = c := by
  simp only [update, Function.update_eq_self]

@[simp] theorem update_other (c : Config ι J Op Ans ρ σ) (s : σ) {i j : ι}
    (t : Thread J Op Ans ρ) (h : j ≠ i) : (update c s i t).thread j = c.thread j :=
  Function.update_of_ne h ..

variable (S : System J Op Ans ρ σ)

/-- Thread `i` begins a call, takes one operation of it, or returns from it. -/
inductive Step : Config ι J Op Ans ρ σ → ι → Config ι J Op Ans ρ σ → Prop
  | begin {c : Config ι J Op Ans ρ σ} {i : ι} {j : J} {js : List J}
      {done : List (J × List (Event Ans) × ρ)} (h : c.thread i = ⟨j :: js, none, done⟩) :
      Step c i (update c c.shared i ⟨js, some (j, [], S.code j), done⟩)
  | take {c : Config ι J Op Ans ρ σ} {i : ι} {j : J} {js : List J} {es : List (Event Ans)}
      {op : Op} {k : Ans op → Program Op Ans ρ} {done : List (J × List (Event Ans) × ρ)}
      (h : c.thread i = ⟨js, some (j, es, .call op k), done⟩) (hr : S.ready op c.shared) :
      Step c i (update c (S.exec op c.shared).2 i
        ⟨js, some (j, es ++ [⟨op, (S.exec op c.shared).1⟩], k (S.exec op c.shared).1), done⟩)
  | finish {c : Config ι J Op Ans ρ σ} {i : ι} {j : J} {js : List J} {es : List (Event Ans)}
      {r : ρ} {done : List (J × List (Event Ans) × ρ)}
      (h : c.thread i = ⟨js, some (j, es, .ret r), done⟩) :
      Step c i (update c c.shared i ⟨js, none, done ++ [(j, es, r)]⟩)

/-- A run whose steps all meet `P`, with the states it has left behind, latest first. -/
inductive Run (P : Config ι J Op Ans ρ σ → ι → Prop) (c₀ : Config ι J Op Ans ρ σ) :
    List (Config ι J Op Ans ρ σ) → Config ι J Op Ans ρ σ → Prop
  | start : Run P c₀ [] c₀
  | step {past : List (Config ι J Op Ans ρ σ)} {c c' : Config ι J Op Ans ρ σ} {i : ι}
      (h : Run P c₀ past c) (hP : P c i) (hs : Step S c i c') : Run P c₀ (c :: past) c'

def Reaches (P : Config ι J Op Ans ρ σ → ι → Prop) (c₀ c : Config ι J Op Ans ρ σ) : Prop :=
  ∃ past, Run S P c₀ past c

def advance [∀ op s, Decidable (S.ready op s)] (c : Config ι J Op Ans ρ σ) (i : ι) :
    Option (Config ι J Op Ans ρ σ) :=
  match c.thread i with
  | ⟨[], none, _⟩ => none
  | ⟨j :: js, none, done⟩ => some (update c c.shared i ⟨js, some (j, [], S.code j), done⟩)
  | ⟨js, some (j, es, .call op k), done⟩ =>
    if S.ready op c.shared then
      some (update c (S.exec op c.shared).2 i
        ⟨js, some (j, es ++ [⟨op, (S.exec op c.shared).1⟩], k (S.exec op c.shared).1), done⟩)
    else none
  | ⟨js, some (j, es, .ret r), done⟩ => some (update c c.shared i ⟨js, none, done ++ [(j, es, r)]⟩)

def anyStep (_ : Config ι J Op Ans ρ σ) (_ : ι) : Prop := True

instance (c : Config ι J Op Ans ρ σ) (i : ι) : Decidable (anyStep c i) := .isTrue trivial

/-- The threads move in the order given; one that cannot move, or not with `P`, is
passed over. -/
def play (P : Config ι J Op Ans ρ σ → ι → Prop) [∀ c i, Decidable (P c i)]
    [∀ op s, Decidable (S.ready op s)] : List ι →
    List (Config ι J Op Ans ρ σ) × Config ι J Op Ans ρ σ →
    List (Config ι J Op Ans ρ σ) × Config ι J Op Ans ρ σ
  | [], h => h
  | i :: is, (past, c) =>
    match advance S c i with
    | none => play P is (past, c)
    | some c' => if P c i then play P is (c :: past, c') else play P is (past, c)

def playFrom (P : Config ι J Op Ans ρ σ → ι → Prop) [∀ c i, Decidable (P c i)]
    [∀ op s, Decidable (S.ready op s)] (c : Config ι J Op Ans ρ σ) (is : List ι) :
    List (Config ι J Op Ans ρ σ) × Config ι J Op Ans ρ σ :=
  play S P is ([], c)

def Finished (c : Config ι J Op Ans ρ σ) : Prop :=
  ∀ i, (c.thread i).todo.isEmpty ∧ (c.thread i).current.isNone

instance [Fintype ι] (c : Config ι J Op Ans ρ σ) : Decidable (Finished c) :=
  inferInstanceAs (Decidable (∀ _, _ ∧ _))

variable {S} {P : Config ι J Op Ans ρ σ → ι → Prop} {c₀ c : Config ι J Op Ans ρ σ}

theorem advance_step [∀ op s, Decidable (S.ready op s)] {c c' : Config ι J Op Ans ρ σ} {i : ι}
    (h : advance S c i = some c') : Step S c i c' := by
  unfold advance at h
  split at h
  · cases h
  · rename_i ht
    cases h
    exact .begin ht
  · rename_i ht
    split_ifs at h with hr
    cases h
    exact .take ht hr
  · rename_i ht
    cases h
    exact .finish ht

theorem play_run [∀ c i, Decidable (P c i)] [∀ op s, Decidable (S.ready op s)]
    {past : List (Config ι J Op Ans ρ σ)} (h : Run S P c₀ past c) (is : List ι) :
    Run S P c₀ (play S P is (past, c)).1 (play S P is (past, c)).2 := by
  induction is generalizing past c with
  | nil => exact h
  | cons i is ih =>
    rw [play]
    split
    · exact ih h
    · rename_i hd
      split_ifs with hP
      · exact ih (h.step hP (advance_step hd))
      · exact ih h

theorem playFrom_run [∀ c i, Decidable (P c i)] [∀ op s, Decidable (S.ready op s)]
    (c₀ : Config ι J Op Ans ρ σ) (is : List ι) :
    Run S P c₀ (playFrom S P c₀ is).1 (playFrom S P c₀ is).2 :=
  play_run .start is

variable (S) in
/-- Where the threads get to, in the order given. -/
def played [∀ op s, Decidable (S.ready op s)] (c : Config ι J Op Ans ρ σ) (is : List ι) :
    Config ι J Op Ans ρ σ :=
  (playFrom S anyStep c is).2

theorem Reaches.played [∀ op s, Decidable (S.ready op s)] (c : Config ι J Op Ans ρ σ)
    (is : List ι) : Reaches S anyStep c (Interleaving.played S c is) :=
  ⟨_, playFrom_run c is⟩

theorem Reaches.mono {Q : Config ι J Op Ans ρ σ → ι → Prop} (h : Reaches S P c₀ c)
    (hPQ : ∀ c i, Reaches S P c₀ c → P c i → Q c i) : Reaches S Q c₀ c := by
  obtain ⟨past, h⟩ := h
  refine ⟨past, ?_⟩
  induction h with
  | start => exact .start
  | step h hP hs ih => exact ih.step (hPQ _ _ ⟨_, h⟩ hP) hs

theorem Run.reaches {past : List (Config ι J Op Ans ρ σ)} {c' : Config ι J Op Ans ρ σ}
    (h : Run S P c₀ past c) (hc' : c' ∈ past) : Reaches S P c₀ c' := by
  induction h with
  | start => cases hc'
  | step h hP hs ih =>
    rcases List.mem_cons.mp hc' with rfl | hc'
    · exact ⟨_, h⟩
    · exact ih hc'

theorem Reaches.refl : Reaches S P c c := ⟨[], .start⟩

theorem Reaches.invariant {I : Config ι J Op Ans ρ σ → Prop} (h : Reaches S P c₀ c) (h₀ : I c₀)
    (hstep : ∀ c i c', Reaches S P c₀ c → I c → P c i → Step S c i c' → I c') : I c := by
  obtain ⟨past, h⟩ := h
  induction h with
  | start => exact h₀
  | step h hP hs ih => exact hstep _ _ _ ⟨_, h⟩ ih hP hs

structure Fits (S : System J Op Ans ρ σ) (t : Thread J Op Ans ρ) : Prop where
  current : ∀ j es p, t.current = some (j, es, p) → After S.exec (S.code j) es p
  done : ∀ j es r, (j, es, r) ∈ t.done → After S.exec (S.code j) es (.ret r)

theorem fits {s : σ} {calls : ι → List J} (h : Reaches S P (initial s calls) c) (i : ι) :
    Fits S (c.thread i) := by
  refine h.invariant (I := fun c ↦ ∀ i, Fits S (c.thread i)) ?_ ?_ i
  · exact fun i ↦ ⟨fun _ _ _ h ↦ (Option.some_ne_none _ h.symm).elim, fun _ _ _ h ↦ by cases h⟩
  · intro c i c' _ ih _ hs i'
    by_cases hi : i' = i
    · subst hi
      have hf := ih i'
      cases hs with
      | begin h =>
        rw [h] at hf
        rw [update_self]
        exact ⟨fun _ _ _ hc ↦ by cases hc; exact .start, hf.done⟩
      | take h hr =>
        rw [h] at hf
        rw [update_self]
        exact ⟨fun _ _ _ hc ↦ by cases hc; exact (hf.current _ _ _ rfl).step _, hf.done⟩
      | finish h =>
        rw [h] at hf
        rw [update_self]
        refine ⟨fun _ _ _ hc ↦ (Option.some_ne_none _ hc.symm).elim, fun j es r hd ↦ ?_⟩
        rcases List.mem_append.mp hd with hd | hd
        · exact hf.done _ _ _ hd
        · cases List.mem_singleton.mp hd
          exact hf.current _ _ _ rfl
    · cases hs <;> simpa [hi] using ih i'

theorem Step.calls {c' : Config ι J Op Ans ρ σ} {i : ι} (hs : Step S c i c') (k : ι) :
    (c'.thread k).calls = (c.thread k).calls := by
  by_cases hk : k = i
  · subst hk
    cases hs with
    | begin h => simp [h, Thread.calls]
    | take h hr => simp [h, Thread.calls]
    | finish h => simp [h, Thread.calls]
  · cases hs <;> simp [hk]

theorem calls_kept {s : σ} {calls : ι → List J} (h : Reaches S P (initial s calls) c) (i : ι) :
    (c.thread i).calls = calls i := by
  refine h.invariant (I := fun c ↦ ∀ i, (c.thread i).calls = calls i) (fun i ↦ rfl) ?_ i
  intro c i c' _ ih _ hs k
  rw [hs.calls k, ih k]

theorem done_of_finished {s : σ} {calls : ι → List J} (h : Reaches S P (initial s calls) c)
    (hf : Finished c) (i : ι) : (c.thread i).done.map Prod.fst = calls i := by
  obtain ⟨htodo, hcurrent⟩ := hf i
  rw [← calls_kept h i, Thread.calls, List.isEmpty_iff.mp htodo,
    Option.isNone_iff_eq_none.mp hcurrent]
  simp

/-- Threads that keep to `R` among themselves find the preconditions of their operations
met, when the code of each call is guarded. -/
theorem guarded {R : σ → σ → Prop} {pre : Op → σ → Prop} (hrefl : ∀ s, R s s)
    (htrans : ∀ s t u, R s t → R t u → R s u) (hexec : ∀ op s, R s (S.exec op s).2)
    (hcode : ∀ j s, Guarded S.exec R pre (S.code j) s) {s : σ} {calls : ι → List J}
    (h : Reaches S P (initial s calls) c) {i : ι} {j : J} {es : List (Event Ans)}
    {p : Program Op Ans ρ} (hi : (c.thread i).current = some (j, es, p)) :
    Guarded S.exec R pre p c.shared := by
  refine h.invariant (I := fun c ↦ ∀ i j es p, (c.thread i).current = some (j, es, p) →
    Guarded S.exec R pre p c.shared) ?_ ?_ i j es p hi
  · exact fun _ _ _ _ h ↦ (Option.some_ne_none _ h.symm).elim
  · intro c i c' _ ih _ hs i' j' es' p' hc'
    by_cases hi : i' = i
    · subst hi
      cases hs with
      | begin h =>
        rw [update_self] at hc'
        cases hc'
        exact hcode _ _
      | take h hr =>
        rw [update_self] at hc'
        cases hc'
        exact (ih i' _ _ _ (congrArg Thread.current h) c.shared (hrefl _)).2
      | finish h =>
        rw [update_self] at hc'
        cases hc'
    · cases hs with
      | begin h => exact ih i' j' es' p' (by simpa [hi] using hc')
      | take h hr => exact (ih i' j' es' p' (by simpa [hi] using hc')).mono htrans (hexec _ _)
      | finish h => exact ih i' j' es' p' (by simpa [hi] using hc')

/-- What every operation respects holds from any state of a run to any later one. -/
theorem Reaches.keeps {R : σ → σ → Prop} (hrefl : ∀ s, R s s)
    (htrans : ∀ s t u, R s t → R t u → R s u) (hexec : ∀ op s, R s (S.exec op s).2)
    (h : Reaches S P c₀ c) : R c₀.shared c.shared := by
  refine h.invariant (I := fun c ↦ R c₀.shared c.shared) (hrefl _) ?_
  intro c i c' _ ih _ hs
  cases hs with
  | begin h => exact ih
  | take h hr => exact htrans _ _ _ ih (hexec _ _)
  | finish h => exact ih

theorem sum_update [Fintype ι] (g : Thread J Op Ans ρ → ℕ) (c : Config ι J Op Ans ρ σ) (s : σ)
    (i : ι) (t : Thread J Op Ans ρ) :
    ∑ i', g ((update c s i t).thread i') + g (c.thread i) = ∑ i', g (c.thread i') + g t := by
  have he : ∑ i' ∈ Finset.univ.erase i, g ((update c s i t).thread i') =
      ∑ i' ∈ Finset.univ.erase i, g (c.thread i') :=
    Finset.sum_congr rfl (fun i' hi' ↦ by rw [update_other _ _ _ (Finset.ne_of_mem_erase hi')])
  rw [← Finset.add_sum_erase _ _ (Finset.mem_univ i), he, update_self,
    ← Finset.add_sum_erase _ (fun i' ↦ g (c.thread i')) (Finset.mem_univ i)]
  omega

theorem step_spent [Fintype ι] (weight : Op → ℕ) {i : ι} {c' : Config ι J Op Ans ρ σ}
    (hs : Step S c i c') :
    (c'.shared = c.shared ∧ ∑ i', (c'.thread i').spent weight = ∑ i', (c.thread i').spent weight) ∨
      ∃ j es op k, (c.thread i).current = some (j, es, .call op k) ∧ S.ready op c.shared ∧
        c'.shared = (S.exec op c.shared).2 ∧
        ∑ i', (c'.thread i').spent weight = ∑ i', (c.thread i').spent weight + weight op := by
  cases hs with
  | @begin j js done h =>
    refine .inl ⟨rfl, ?_⟩
    have := sum_update (Thread.spent weight) c c.shared i ⟨js, some (j, [], S.code j), done⟩
    simp only [h, Thread.spent_eq, Option.elim_none, Option.elim_some, weigh, List.map_nil,
      List.sum_nil] at this ⊢
    omega
  | @take j js es op k done h hr =>
    refine .inr ⟨j, es, op, k, by rw [h], hr, rfl, ?_⟩
    have := sum_update (Thread.spent weight) c (S.exec op c.shared).2 i
      ⟨js, some (j, es ++ [⟨op, (S.exec op c.shared).1⟩], k (S.exec op c.shared).1), done⟩
    simp only [h, Thread.spent_eq, Option.elim_some, weigh, List.map_append, List.sum_append,
      List.map_cons, List.map_nil, List.sum_cons, List.sum_nil] at this ⊢
    omega
  | @finish j js es r done h =>
    refine .inl ⟨rfl, ?_⟩
    have := sum_update (Thread.spent weight) c c.shared i ⟨js, none, done ++ [(j, es, r)]⟩
    simp only [h, Thread.spent_eq, Option.elim_none, Option.elim_some, List.map_append,
      List.sum_append, List.map_cons, List.map_nil, List.sum_cons, List.sum_nil] at this ⊢
    omega

/-- A level that each operation raises by its weight is, at any time, the sum of the
weights of all the operations the threads have taken. -/
theorem level_eq [Fintype ι] {s : σ} {calls : ι → List J} (level : σ → ℕ) (weight : Op → ℕ)
    (hlevel : ∀ c i j es op k, Reaches S P (initial s calls) c →
      (c.thread i).current = some (j, es, .call op k) →
      level (S.exec op c.shared).2 = level c.shared + weight op)
    (h : Reaches S P (initial s calls) c) :
    level c.shared = level s + ∑ i, (c.thread i).spent weight := by
  refine h.invariant (I := fun c ↦ level c.shared = level s + ∑ i, (c.thread i).spent weight) ?_ ?_
  · simp [initial, Thread.spent, weigh, Thread.events]
  · intro c i c' hc ih _ hs
    rcases step_spent weight hs with ⟨hshared, hspent⟩ | ⟨j, es, op, k, hi, -, hshared, hspent⟩
    · rw [hshared, hspent, ih]
    · rw [hshared, hspent, hlevel c i j es op k hc hi, ih, Nat.add_assoc]

theorem spent_of_finished {s : σ} {calls : ι → List J} {weight : Op → ℕ} {cost : J → ℕ}
    (hcost : ∀ j es r, After S.exec (S.code j) es (.ret r) → weigh weight es = cost j)
    (h : Reaches S P (initial s calls) c) (hf : Finished c) (i : ι) :
    (c.thread i).spent weight = ((calls i).map cost).sum := by
  obtain ⟨htodo, hcurrent⟩ := hf i
  rw [List.isEmpty_iff] at htodo
  rw [Option.isNone_iff_eq_none] at hcurrent
  have hcalls : calls i = (c.thread i).done.map Prod.fst := by
    rw [← calls_kept h i, Thread.calls, htodo, hcurrent]
    simp
  have hdone : ∀ d ∈ (c.thread i).done, weigh weight d.2.1 = cost d.1 :=
    fun d hd ↦ hcost _ _ _ ((fits h i).done d.1 d.2.1 d.2.2 hd)
  rw [Thread.spent_eq, hcurrent, hcalls, List.map_map, Option.elim_none, Nat.add_zero,
    List.map_congr_left hdone]
  rfl

theorem spent_le {s : σ} {calls : ι → List J} {weight weight' : Op → ℕ} (behind : J → ℕ)
    (hdone : ∀ j es r, After S.exec (S.code j) es (.ret r) →
      weigh weight es ≤ weigh weight' es)
    (hcurrent : ∀ j es p, After S.exec (S.code j) es p →
      weigh weight es ≤ weigh weight' es + behind j)
    (h : Reaches S P (initial s calls) c) (i : ι) :
    (c.thread i).spent weight ≤
      (c.thread i).spent weight' + (c.thread i).current.elim 0 (fun x ↦ behind x.1) := by
  have hd : ((c.thread i).done.map (fun d ↦ weigh weight d.2.1)).sum ≤
      ((c.thread i).done.map (fun d ↦ weigh weight' d.2.1)).sum :=
    List.sum_le_sum (fun d hd ↦ hdone _ _ _ ((fits h i).done d.1 d.2.1 d.2.2 hd))
  rw [Thread.spent_eq, Thread.spent_eq]
  cases hc : (c.thread i).current with
  | none =>
    simp only [Option.elim_none]
    omega
  | some x =>
    have hx := hcurrent _ _ _ ((fits h i).current x.1 x.2.1 x.2.2 hc)
    simp only [Option.elim_some]
    omega

section Extension

variable {Q : Config ι J Op Ans ρ σ → ι → Prop}

/-- The same threads with more calls to make afterwards. -/
def extend (extra : ι → List J) (c : Config ι J Op Ans ρ σ) : Config ι J Op Ans ρ σ :=
  ⟨c.shared, fun i ↦ ⟨(c.thread i).todo ++ extra i, (c.thread i).current, (c.thread i).done⟩⟩

theorem extend_update (extra : ι → List J) (c : Config ι J Op Ans ρ σ) (s : σ) (i : ι)
    (t : Thread J Op Ans ρ) :
    extend extra (update c s i t) =
      update (extend extra c) s i ⟨t.todo ++ extra i, t.current, t.done⟩ := by
  unfold extend update
  congr 1
  funext k
  by_cases hk : k = i
  · subst hk
    simp only [Function.update_self]
  · simp only [Function.update_of_ne hk]

theorem Step.extend {c c' : Config ι J Op Ans ρ σ} {i : ι} (h : Step S c i c')
    (extra : ι → List J) :
    Step S (Interleaving.extend extra c) i (Interleaving.extend extra c') := by
  have hthread : ∀ t, c.thread i = t →
      (Interleaving.extend extra c).thread i = ⟨t.todo ++ extra i, t.current, t.done⟩ := by
    intro t ht
    rw [← ht]
    rfl
  cases h with
  | begin h =>
    rw [extend_update]
    exact .begin (hthread _ h)
  | take h hr =>
    rw [extend_update]
    exact .take (hthread _ h) hr
  | finish h =>
    rw [extend_update]
    exact .finish (hthread _ h)

theorem Reaches.extend {s : σ} {calls : ι → List J} {c : Config ι J Op Ans ρ σ}
    (h : Reaches S P (initial s calls) c) (extra : ι → List J)
    (hPQ : ∀ c i, P c i → Q (Interleaving.extend extra c) i) :
    Reaches S Q (initial s (fun i ↦ calls i ++ extra i)) (Interleaving.extend extra c) := by
  obtain ⟨past, h⟩ := h
  induction h with
  | start => exact .refl
  | step h hP hs ih =>
    obtain ⟨past', ih⟩ := ih
    exact ⟨_, ih.step (hPQ _ _ hP) (hs.extend extra)⟩

theorem Reaches.own_calls {s : σ} {calls : ι → List J} {c : Config ι J Op Ans ρ σ}
    (h : Reaches S P (initial s calls) c) :
    Reaches S P (initial s (fun i ↦ (c.thread i).calls)) c := by
  rw [funext (calls_kept h)]
  exact h

/-- An idle thread is given one more call, and begins it. -/
theorem Reaches.enter {s : σ} {calls : ι → List J} {c : Config ι J Op Ans ρ σ} {i : ι} {j : J}
    {op : Op} {k : Ans op → Program Op Ans ρ} {done : List (J × List (Event Ans) × ρ)}
    (h : Reaches S P (initial s calls) c) (hi : c.thread i = ⟨[], none, done⟩)
    (hcode : S.code j = .call op k) (hr : S.ready op c.shared)
    (hextend : ∀ extra c i, P c i → P (Interleaving.extend extra c) i)
    (hbegin : P (update c c.shared i ⟨[j], none, done⟩) i)
    (htake : P (update c c.shared i ⟨[], some (j, [], .call op k), done⟩) i) :
    Reaches S P (initial s (fun k ↦ calls k ++ Function.update (fun _ ↦ []) i [j] k))
      (update c (S.exec op c.shared).2 i
        ⟨[], some (j, [⟨op, (S.exec op c.shared).1⟩], k (S.exec op c.shared).1), done⟩) := by
  have hmore : Interleaving.extend (Function.update (fun _ ↦ []) i [j]) c =
      update c c.shared i ⟨[j], none, done⟩ := by
    unfold Interleaving.extend update
    congr 1
    funext k'
    by_cases hk : k' = i
    · subst hk
      simp only [Function.update_self, hi, List.nil_append]
    · simp only [Function.update_of_ne hk, List.append_nil]
  obtain ⟨past, hrun⟩ := h.extend (Function.update (fun _ ↦ []) i [j]) (hextend _)
  rw [hmore] at hrun
  have hbegins : Step S (update c c.shared i ⟨[j], none, done⟩) i
      (update c c.shared i ⟨[], some (j, [], .call op k), done⟩) := by
    have hs := Step.begin (S := S) (update_self c c.shared i ⟨[j], none, done⟩)
    rwa [update_update, hcode] at hs
  have htakes : Step S (update c c.shared i ⟨[], some (j, [], .call op k), done⟩) i
      (update c (S.exec op c.shared).2 i
        ⟨[], some (j, [⟨op, (S.exec op c.shared).1⟩], k (S.exec op c.shared).1), done⟩) := by
    have hs := Step.take (update_self c c.shared i ⟨[], some (j, [], .call op k), done⟩) hr
    rwa [update_update] at hs
  exact ⟨_, (hrun.step hbegin hbegins).step htake htakes⟩

end Extension

end Interleaving

end ServiceSystem.Foundations
