import ServiceSystem.Foundations.Interleaving

namespace ServiceSystem.Foundations.Interleaving

open Program

variable {ι J Op : Type} {Ans : Op → Type} {ρ σ α : Type}

/-- From any state the program ends in `r`, and it changes none. -/
def Inert (exec : ∀ op, σ → Ans op × σ) (r : ρ) : Program Op Ans ρ → Prop
  | .ret r' => r' = r
  | .call op k => ∀ s, (exec op s).2 = s ∧ Inert exec r (k (exec op s).1)

/-- Run alone from `s`, the program holds the object from its first operation on, until
it gives it back and is inert. -/
def Critical (exec : ∀ op, σ → Ans op × σ) (held : σ → Bool) : Program Op Ans ρ → σ → Prop
  | .ret _, _ => False
  | .call op k, s =>
    (held (exec op s).2 = true ∧ Critical exec held (k (exec op s).1) (exec op s).2) ∨
      (held (exec op s).2 = false ∧ ∃ r, Inert exec r (k (exec op s).1))

theorem Inert.run_eq {exec : ∀ op, σ → Ans op × σ} {r : ρ} {p : Program Op Ans ρ}
    (h : Inert exec r p) (s : σ) : p.run exec s = (r, s) := by
  induction p generalizing s with
  | ret r' => rw [show r' = r from h, run_ret]
  | call op k ih =>
    obtain ⟨hs, hk⟩ := h s
    rw [run_call, hs]
    exact ih _ hk s

variable (S : System J Op Ans ρ σ)

/-- The calls made one after the other: who gets which reply, and the state left. -/
def serial : List (ι × J) → σ → List (ι × J × ρ) × σ
  | [], s => ([], s)
  | (i, j) :: order, s =>
    let r := (S.code j).run S.exec s
    let rest := serial order r.2
    ((i, j, r.1) :: rest.1, rest.2)

theorem serial_append (order : List (ι × J)) (i : ι) (j : J) (s : σ) :
    serial S (order ++ [(i, j)]) s =
      ((serial S order s).1 ++ [(i, j, ((S.code j).run S.exec (serial S order s).2).1)],
        ((S.code j).run S.exec (serial S order s).2).2) := by
  induction order generalizing s with
  | nil => rfl
  | cons x order ih =>
    obtain ⟨i', j'⟩ := x
    simp only [List.cons_append, serial, ih]

theorem serial_calls (order : List (ι × J)) (s : σ) :
    (serial S order s).1.map (fun x ↦ (x.1, x.2.1)) = order := by
  induction order generalizing s with
  | nil => rfl
  | cons x order ih =>
    obtain ⟨i, j⟩ := x
    exact congrArg ((i, j) :: ·) (ih _)

variable [DecidableEq ι]

def of (i : ι) (xs : List (ι × α)) : List α := (xs.filter (·.1 = i)).map (·.2)

def replies (t : Thread J Op Ans ρ) : List (J × ρ) := t.done.map (fun d ↦ (d.1, d.2.2))

/-- The calls that have returned got the replies of some serial order of calls, in which
each thread's calls stand in its order. -/
def Serializable (s₀ : σ) (calls : ι → List J) (c : Config ι J Op Ans ρ σ) : Prop :=
  ∃ order : List (ι × J), ∀ i,
    of i order <+: calls i ∧ replies (c.thread i) <+: of i (serial S order s₀).1

/-- Thread `i` does not take the first operation of a call while the object is held. -/
def Uncontended (held : σ → Bool) (c : Config ι J Op Ans ρ σ) (i : ι) : Prop :=
  ∀ j p, (c.thread i).current = some (j, [], p) → held c.shared = false

/-- Where thread `i` stands in the serial order, when `holder` holds the object. -/
def Placed (held : σ → Bool) (s₀ : σ) (order : List (ι × J)) (holder : Option ι)
    (c : Config ι J Op Ans ρ σ) (i : ι) : Prop :=
  match (c.thread i).current with
  | none => of i (serial S order s₀).1 = replies (c.thread i) ∧ holder ≠ some i
  | some (j, [], p) =>
    of i (serial S order s₀).1 = replies (c.thread i) ∧ p = S.code j ∧ holder ≠ some i
  | some (j, _ :: _, p) =>
    ∃ r, of i (serial S order s₀).1 = replies (c.thread i) ++ [(j, r)] ∧
      ((holder ≠ some i ∧ Inert S.exec r p) ∨
        (holder = some i ∧ held c.shared = true ∧ Critical S.exec held p c.shared ∧
          p.run S.exec c.shared = (r, (serial S order s₀).2)))

structure Serialized (held : σ → Bool) (s₀ : σ) (order : List (ι × J)) (holder : Option ι)
    (c : Config ι J Op Ans ρ σ) : Prop where
  state : holder = none → held c.shared = false ∧ c.shared = (serial S order s₀).2
  placed : ∀ i, Placed S held s₀ order holder c i

variable {S} {held : σ → Bool} {s₀ : σ} {order : List (ι × J)} {holder : Option ι}
  {c c' : Config ι J Op Ans ρ σ} {i : ι}

theorem of_append (i : ι) (xs ys : List (ι × α)) : of i (xs ++ ys) = of i xs ++ of i ys := by
  rw [of, List.filter_append, List.map_append]
  rfl

@[simp] theorem of_self (i : ι) (x : α) : of i [(i, x)] = [x] := by simp [of]

theorem of_other {i k : ι} (h : k ≠ i) (x : α) : of k [(i, x)] = [] := by simp [of, Ne.symm h]

theorem Placed.of_eq {k : ι} (h : Placed S held s₀ order holder c k)
    (hthread : c'.thread k = c.thread k) (hshared : c'.shared = c.shared) :
    Placed S held s₀ order holder c' k := by
  unfold Placed at h ⊢
  rw [hthread, hshared]
  exact h

theorem serialized_prefix {calls : ι → List J} {P : Config ι J Op Ans ρ σ → ι → Prop}
    (hc : Reaches S P (initial s₀ calls) c) (h : Serialized S held s₀ order holder c) (i : ι) :
    of i order <+: calls i ∧ replies (c.thread i) <+: of i (serial S order s₀).1 := by
  have hcalls := calls_kept hc i
  have horder : of i order = (of i (serial S order s₀).1).map Prod.fst := by
    conv_lhs => rw [← serial_calls S order s₀]
    simp [of, List.filter_map, Function.comp_def]
  have hp := h.placed i
  rw [Thread.calls] at hcalls
  unfold Placed at hp
  split at hp
  · rename_i hcur
    rw [horder, hp.1, ← hcalls, hcur]
    simp [replies, Function.comp_def]
  · rename_i j p hcur
    rw [horder, hp.1, ← hcalls, hcur]
    simp [replies, Function.comp_def]
  · rename_i j e es p hcur
    obtain ⟨r, hr, -⟩ := hp
    rw [horder, hr, ← hcalls, hcur]
    simp [replies, Function.comp_def]

theorem serialized_initial (calls : ι → List J) (h : held s₀ = false) :
    Serialized S held s₀ [] none (initial s₀ calls) where
  state _ := ⟨h, rfl⟩
  placed _ := ⟨rfl, nofun⟩

theorem Serialized.move (h : Serialized S held s₀ order holder c) {t : Thread J Op Ans ρ}
    (ht : Placed S held s₀ order holder (update c c.shared i t) i) :
    Serialized S held s₀ order holder (update c c.shared i t) where
  state := h.state
  placed k := by
    by_cases hk : k = i
    · exact hk ▸ ht
    · exact (h.placed k).of_eq (update_other _ _ _ hk) rfl

theorem Serialized.begin {j : J} {js : List J} {done : List (J × List (Event Ans) × ρ)}
    (h : Serialized S held s₀ order holder c) (hi : c.thread i = ⟨j :: js, none, done⟩) :
    Serialized S held s₀ order holder (update c c.shared i ⟨js, some (j, [], S.code j), done⟩) := by
  have hp := h.placed i
  refine h.move ?_
  simp only [Placed, hi, update_self, true_and] at hp ⊢
  exact hp

theorem Serialized.finish {j : J} {js : List J} {es : List (Event Ans)} {r : ρ}
    {done : List (J × List (Event Ans) × ρ)} (hcode : ∀ j r, S.code j ≠ .ret r)
    (h : Serialized S held s₀ order holder c)
    (hi : c.thread i = ⟨js, some (j, es, .ret r), done⟩) :
    Serialized S held s₀ order holder (update c c.shared i ⟨js, none, done ++ [(j, es, r)]⟩) := by
  have hp := h.placed i
  refine h.move ?_
  cases es with
  | nil =>
    simp only [Placed, hi] at hp
    exact absurd hp.2.1.symm (hcode j r)
  | cons e es =>
    simp only [Placed, hi, update_self] at hp ⊢
    obtain ⟨r', hr, ⟨hholder, hinert⟩ | ⟨-, -, hcritical, -⟩⟩ := hp
    · obtain rfl : r = r' := hinert
      refine ⟨?_, hholder⟩
      rw [hr]
      simp [replies]
    · exact hcritical.elim

theorem Placed.transfer {k : ι} {order' : List (ι × J)} {holder' : Option ι}
    (h : Placed S held s₀ order holder c k) (hk : holder ≠ some k) (hk' : holder' ≠ some k)
    (hthread : c'.thread k = c.thread k)
    (horder : of k (serial S order' s₀).1 = of k (serial S order s₀).1) :
    Placed S held s₀ order' holder' c' k := by
  unfold Placed at h ⊢
  rw [hthread, horder]
  split at h
  · exact ⟨h.1, hk'⟩
  · exact ⟨h.1, h.2.1, hk'⟩
  · obtain ⟨r, hr, ⟨-, hinert⟩ | ⟨hholder, -⟩⟩ := h
    · exact ⟨r, hr, .inl ⟨hk', hinert⟩⟩
    · exact absurd hholder hk

theorem Serialized.holder_none (h : Serialized S held s₀ order holder c)
    (hfree : held c.shared = false) : holder = none := by
  cases hholder : holder with
  | none => rfl
  | some k =>
    have hk := h.placed k
    unfold Placed at hk
    split at hk
    · exact absurd hholder hk.2
    · exact absurd hholder hk.2.2
    · obtain ⟨r, -, ⟨hne, -⟩ | ⟨-, hheld, -⟩⟩ := hk
      · exact absurd hholder hne
      · rw [hheld] at hfree
        cases hfree

theorem Serialized.enter {j : J} {js : List J} {op : Op} {k : Ans op → Program Op Ans ρ}
    {done : List (J × List (Event Ans) × ρ)}
    (hcode : ∀ j s, held s = false → Critical S.exec held (S.code j) s)
    (h : Serialized S held s₀ order holder c) (hfree : held c.shared = false)
    (hi : c.thread i = ⟨js, some (j, [], .call op k), done⟩) :
    ∃ order' holder', Serialized S held s₀ order' holder' (update c (S.exec op c.shared).2 i
      ⟨js, some (j, [⟨op, (S.exec op c.shared).1⟩], k (S.exec op c.shared).1), done⟩) := by
  obtain rfl := h.holder_none hfree
  have hstate := (h.state rfl).2
  have hp := h.placed i
  simp only [Placed, hi] at hp
  obtain ⟨hreplies, hcall, -⟩ := hp
  have hcritical := hcode j c.shared hfree
  have hserial := serial_append S order i j s₀
  rw [← hcall, ← hstate, run_call] at hserial
  rw [← hcall] at hcritical
  have hself : of i (serial S (order ++ [(i, j)]) s₀).1 = replies (c.thread i) ++
      [(j, ((k (S.exec op c.shared).1).run S.exec (S.exec op c.shared).2).1)] := by
    rw [hserial, of_append, of_self, hreplies, hi]
  have hothers : ∀ k', k' ≠ i → of k' (serial S (order ++ [(i, j)]) s₀).1 =
      of k' (serial S order s₀).1 := by
    intro k' hk
    rw [hserial, of_append, of_other hk, List.append_nil]
  refine ⟨order ++ [(i, j)], if held (S.exec op c.shared).2 then some i else none, ?_, fun k' ↦ ?_⟩
  · intro hnone
    rcases hcritical with ⟨hheld, -⟩ | ⟨hheld, r, hinert⟩
    · simp [hheld] at hnone
    · refine ⟨hheld, ?_⟩
      rw [hserial, hinert.run_eq]
      rfl
  · by_cases hk : k' = i
    · subst hk
      rw [Placed, hself, update_self]
      refine ⟨_, by rw [hi]; rfl, ?_⟩
      rcases hcritical with ⟨hheld, hc⟩ | ⟨hheld, r, hinert⟩
      · refine .inr ⟨by simp [hheld], hheld, hc, ?_⟩
        rw [hserial]
        rfl
      · refine .inl ⟨by simp [hheld], ?_⟩
        rw [hinert.run_eq]
        exact hinert
    · refine (h.placed k').transfer nofun ?_ (update_other _ _ _ hk) (hothers k' hk)
      split_ifs
      · exact fun he ↦ hk (Option.some.inj he).symm
      · exact nofun

theorem Serialized.proceed {j : J} {js : List J} {e : Event Ans} {es : List (Event Ans)} {op : Op}
    {k : Ans op → Program Op Ans ρ} {done : List (J × List (Event Ans) × ρ)}
    (h : Serialized S held s₀ order holder c)
    (hi : c.thread i = ⟨js, some (j, e :: es, .call op k), done⟩) :
    ∃ holder', Serialized S held s₀ order holder' (update c (S.exec op c.shared).2 i
      ⟨js, some (j, e :: es ++ [⟨op, (S.exec op c.shared).1⟩],
        k (S.exec op c.shared).1), done⟩) := by
  have hp := h.placed i
  simp only [Placed, hi] at hp
  obtain ⟨r, hreplies, ⟨hholder, hinert⟩ | ⟨rfl, hheld, hcritical, hrun⟩⟩ := hp
  · obtain ⟨hsame, hinert⟩ := hinert c.shared
    rw [hsame]
    refine ⟨holder, h.move ?_⟩
    rw [Placed, update_self]
    exact ⟨r, hreplies, .inl ⟨hholder, hinert⟩⟩
  · refine ⟨if held (S.exec op c.shared).2 then some i else none, ?_, fun k' ↦ ?_⟩
    · intro hnone
      rcases hcritical with ⟨hheld, -⟩ | ⟨hheld, r', hinert⟩
      · simp [hheld] at hnone
      · refine ⟨hheld, ?_⟩
        rw [run_call, hinert.run_eq] at hrun
        exact (Prod.mk.inj hrun).2
    · by_cases hk : k' = i
      · subst hk
        rw [Placed, update_self]
        refine ⟨r, hreplies, ?_⟩
        rcases hcritical with ⟨hheld, hc⟩ | ⟨hheld, r', hinert⟩
        · exact .inr ⟨by simp [hheld], hheld, hc, hrun⟩
        · rw [run_call, hinert.run_eq] at hrun
          obtain rfl := (Prod.mk.inj hrun).1
          exact .inl ⟨by simp [hheld], hinert⟩
      · refine (h.placed k').transfer (fun he ↦ hk (Option.some.inj he).symm) ?_
          (update_other _ _ _ hk) rfl
        split_ifs
        · exact fun he ↦ hk (Option.some.inj he).symm
        · exact nofun

theorem serialized_of_uncontended {calls : ι → List J}
    (hcode : ∀ j s, held s = false → Critical S.exec held (S.code j) s) (hfree : held s₀ = false)
    (h : Reaches S (Uncontended held) (initial s₀ calls) c) :
    ∃ order holder, Serialized S held s₀ order holder c := by
  have hcall : ∀ j r, S.code j ≠ .ret r := by
    intro j r he
    have hc := hcode j s₀ hfree
    rw [he] at hc
    exact hc
  refine h.invariant (I := fun c ↦ ∃ order holder, Serialized S held s₀ order holder c)
    ⟨[], none, serialized_initial calls hfree⟩ ?_
  rintro c i c' - ⟨order, holder, ih⟩ hP hs
  cases hs with
  | begin hi => exact ⟨order, holder, ih.begin hi⟩
  | finish hi => exact ⟨order, holder, ih.finish hcall hi⟩
  | @take j js es op k done hi hr =>
    cases es with
    | nil => exact ih.enter hcode (hP j _ (by rw [hi])) hi
    | cons e es => exact ⟨order, ih.proceed hi⟩

/-- When every call is one critical section, and none begins while another holds the
object, the calls are serializable. -/
theorem serializable_of_uncontended {calls : ι → List J}
    (hcode : ∀ j s, held s = false → Critical S.exec held (S.code j) s) (hfree : held s₀ = false)
    (h : Reaches S (Uncontended held) (initial s₀ calls) c) : Serializable S s₀ calls c := by
  obtain ⟨order, holder, hs⟩ := serialized_of_uncontended hcode hfree h
  exact ⟨order, serialized_prefix h hs⟩

/-- Once all threads are done, the state is the one that the serial order leaves, and every reply
has been given. -/
theorem Serialized.finished (h : Serialized S held s₀ order holder c) (hf : Finished c) :
    c.shared = (serial S order s₀).2 ∧
      ∀ i, of i (serial S order s₀).1 = replies (c.thread i) := by
  have hidle : ∀ i, (c.thread i).current = none := fun i ↦ Option.isNone_iff_eq_none.mp (hf i).2
  have hplaced : ∀ i, of i (serial S order s₀).1 = replies (c.thread i) ∧ holder ≠ some i := by
    intro i
    have hp := h.placed i
    rw [Placed, hidle i] at hp
    exact hp
  have hnone : holder = none := by
    cases hholder : holder with
    | none => rfl
    | some i => exact absurd hholder (hplaced i).2
  exact ⟨(h.state hnone).2, fun i ↦ (hplaced i).1⟩

section Sole

/-- Only thread `i` has calls, and where it is in them. -/
structure Sole (S : System J Op Ans ρ σ) (s₀ : σ) (i : ι) (c : Config ι J Op Ans ρ σ) : Prop where
  others : ∀ k, k ≠ i → c.thread k = ⟨[], none, []⟩
  replies : replies (c.thread i) =
    (serial S ((replies (c.thread i)).map fun x ↦ (i, x.1)) s₀).1.map (·.2)
  state : match (c.thread i).current with
    | none => c.shared = (serial S ((Interleaving.replies (c.thread i)).map fun x ↦ (i, x.1)) s₀).2
    | some (j, _, p) => p.run S.exec c.shared = (S.code j).run S.exec
        (serial S ((Interleaving.replies (c.thread i)).map fun x ↦ (i, x.1)) s₀).2

theorem Sole.step {k : ι} (h : Sole S s₀ i c) (hs : Step S c k c') : Sole S s₀ i c' := by
  by_cases hk : k = i
  · subst hk
    have hothers : ∀ l, l ≠ k → c'.thread l = ⟨[], none, []⟩ := by
      intro l hl
      rw [← h.others l hl]
      cases hs <;> exact update_other _ _ _ hl
    obtain ⟨-, hreplies, hstate⟩ := h
    cases hs with
    | begin hi =>
      rw [hi] at hreplies hstate
      refine ⟨hothers, ?_, ?_⟩
      · rw [update_self]
        exact hreplies
      · rw [update_self]
        exact congrArg _ hstate
    | take hi hr =>
      rw [hi] at hreplies hstate
      refine ⟨hothers, ?_, ?_⟩
      · rw [update_self]
        exact hreplies
      · rw [update_self]
        exact hstate
    | @finish j js es r done hi =>
      rw [hi] at hreplies hstate
      have hsnoc : (Interleaving.replies ⟨js, none, done ++ [(j, es, r)]⟩).map (fun x ↦ (k, x.1)) =
          (Interleaving.replies ⟨js, some (j, es, .ret r), done⟩).map (fun x ↦ (k, x.1)) ++
            [(k, j)] := by
        simp [Interleaving.replies]
      simp only [run_ret] at hstate
      refine ⟨hothers, ?_, ?_⟩
      · rw [update_self, hsnoc, serial_append, ← hstate, List.map_append, ← hreplies]
        simp [Interleaving.replies]
      · rw [update_self]
        dsimp only
        rw [hsnoc, serial_append, ← hstate]
        rfl
  · have hk' := h.others k hk
    cases hs with
    | begin hi | take hi | finish hi =>
      rw [hi] at hk'
      cases hk'

/-- A thread that is alone makes its calls one after the other. -/
theorem sole {calls : ι → List J} {P : Config ι J Op Ans ρ σ → ι → Prop}
    (hothers : ∀ k, k ≠ i → calls k = []) (h : Reaches S P (initial s₀ calls) c)
    (hf : Finished c) :
    replies (c.thread i) = (serial S ((calls i).map (i, ·)) s₀).1.map (·.2) ∧
      c.shared = (serial S ((calls i).map (i, ·)) s₀).2 := by
  have hsole : Sole S s₀ i c := by
    refine h.invariant (I := Sole S s₀ i) ⟨fun k hk ↦ ?_, rfl, rfl⟩ ?_
    · show Thread.mk (calls k) none [] = _
      rw [hothers k hk]
    · intro c k c' _ ih _ hs
      exact ih.step hs
  have hcalls : (replies (c.thread i)).map (fun x ↦ (i, x.1)) = (calls i).map (i, ·) := by
    rw [← done_of_finished h hf i, replies, List.map_map, List.map_map]
    rfl
  obtain ⟨-, hreplies, hstate⟩ := hsole
  rw [Option.isNone_iff_eq_none.mp (hf i).2, hcalls] at hstate
  rw [hcalls] at hreplies
  exact ⟨hreplies, hstate⟩

end Sole

end ServiceSystem.Foundations.Interleaving
