import ServiceSystem.Foundations.Interleaving
import ServiceSystem.Foundations.ExclusiveSections

namespace ServiceSystem.Foundations

open Program

variable {Op Op₁ J J₁ : Type} {Ans : Op → Type} {Ans₁ : Op₁ → Type} {ρ ρ₁ τ υ σ σ₁ : Type}

/-- The operations of a part among those of the whole, and what the part makes of their answers. -/
structure View (Ans : Op → Type) (Ans₁ : Op₁ → Type) where
  op : Op₁ → Op
  ans : ∀ o, Ans (op o) → Ans₁ o

namespace View

variable (v : View Ans Ans₁)

def embed : Program Op₁ Ans₁ τ → Program Op Ans τ
  | .ret r => .ret r
  | .call o k => .call (v.op o) (fun a ↦ embed (k (v.ans o a)))

@[simp] theorem embed_ret (r : τ) : v.embed (.ret r) = .ret r := rfl

@[simp] theorem embed_call (o : Op₁) (k : Ans₁ o → Program Op₁ Ans₁ τ) :
    v.embed (.call o k) = .call (v.op o) (fun a ↦ v.embed (k (v.ans o a))) := rfl

/-- An operation of the whole that is none of the part's. -/
def Foreign (op : Op) : Prop := ∀ o, op ≠ v.op o

/-- The program uses the part only by whole calls, and those that it makes on its way to a result
satisfy `Q` with it. -/
inductive Makes (code : J₁ → Program Op₁ Ans₁ ρ₁) :
    Program Op Ans τ → (List (J₁ × ρ₁) → τ → Prop) → Prop
  | ret {r : τ} {Q : List (J₁ × ρ₁) → τ → Prop} (h : Q [] r) : Makes code (.ret r) Q
  | foreign {op : Op} {k : Ans op → Program Op Ans τ} {Q : List (J₁ × ρ₁) → τ → Prop}
      (h : v.Foreign op) (hk : ∀ a, Makes code (k a) Q) : Makes code (.call op k) Q
  | sub {j : J₁} {k : ρ₁ → Program Op Ans τ} {Q : List (J₁ × ρ₁) → τ → Prop}
      (hk : ∀ r, Makes code (k r) (fun l r' ↦ Q ((j, r) :: l) r')) :
      Makes code (v.embed (code j) >>= k) Q

namespace Makes

variable {v} {code : J₁ → Program Op₁ Ans₁ ρ₁} {Q Q' : List (J₁ × ρ₁) → τ → Prop}
  {p : Program Op Ans τ}

theorem mono (h : v.Makes code p Q) (hQ : ∀ l r, Q l r → Q' l r) : v.Makes code p Q' := by
  induction h generalizing Q' with
  | ret h => exact .ret (hQ _ _ h)
  | foreign h hk ih => exact .foreign h fun a ↦ ih a hQ
  | sub hk ih => exact .sub fun r ↦ ih r fun l r' ↦ hQ _ r'

theorem bind {f : τ → Program Op Ans υ} {R : List (J₁ × ρ₁) → υ → Prop} (h : v.Makes code p Q)
    (hf : ∀ l r, Q l r → v.Makes code (f r) (fun l' r' ↦ R (l ++ l') r')) :
    v.Makes code (p >>= f) R := by
  induction h generalizing R with
  | ret h => exact hf [] _ h
  | foreign h hk ih => exact .foreign h fun a ↦ ih a hf
  | @sub j k Q hk ih =>
    rw [bind_bind]
    exact .sub fun r ↦ ih r fun l r' hQ ↦ hf _ r' hQ

theorem of_ret {r : τ} (hcode : ∀ j r, code j ≠ .ret r) (h : v.Makes code (.ret r) Q) :
    Q [] r := by
  generalize hp : (.ret r : Program Op Ans τ) = p at h
  cases h with
  | ret h =>
    cases hp
    exact h
  | foreign h hk => cases hp
  | @sub j k hk =>
    cases hj : code j with
    | ret r' => exact absurd hj (hcode j r')
    | call o q =>
      rw [hj] at hp
      cases hp

/-- The first operation of such a program is foreign to the part, or begins a call of it. -/
theorem of_call {op : Op} {k : Ans op → Program Op Ans τ} (hcode : ∀ j r, code j ≠ .ret r)
    (h : v.Makes code (.call op k) Q) :
    (v.Foreign op ∧ ∀ a, v.Makes code (k a) Q) ∨
      ∃ (j : J₁) (o : Op₁) (q : Ans₁ o → Program Op₁ Ans₁ ρ₁) (k' : ρ₁ → Program Op Ans τ),
        code j = .call o q ∧ .call op k = v.embed (.call o q) >>= k' ∧
          ∀ r, v.Makes code (k' r) (fun l r' ↦ Q ((j, r) :: l) r') := by
  generalize hp : (.call op k : Program Op Ans τ) = p at h
  cases h with
  | ret h => cases hp
  | foreign h hk =>
    cases hp
    exact .inl ⟨h, hk⟩
  | @sub j k' _ hk =>
    cases hj : code j with
    | ret r' => exact absurd hj (hcode j r')
    | call o q =>
      rw [hj] at hp
      exact .inr ⟨j, o, q, k', hj, hp ▸ rfl, hk⟩

theorem once {j : J₁} {Q : List (J₁ × ρ₁) → ρ₁ → Prop} (hQ : ∀ r, Q [(j, r)] r) :
    v.Makes code (v.embed (code j)) Q := by
  rw [← bind_ret (v.embed (code j))]
  exact .sub fun r ↦ .ret (hQ r)

section Exceptions

variable {ε α β : Type} {R : List (J₁ × ρ₁) → Except ε β → Prop}
  {g : α → ExceptT ε (Program Op Ans) β}

theorem pure_run {b : β} (h : R [] (.ok b)) :
    v.Makes code (pure b : ExceptT ε (Program Op Ans) β).run R := .ret h

theorem except_bind {x : Except ε α} (hok : ∀ a, x = .ok a → v.Makes code (g a).run R)
    (herror : ∀ e, x = .error e → R [] (.error e)) :
    v.Makes code (ExceptT.mk (pure x) >>= g).run R := by
  cases x with
  | ok a => exact hok a rfl
  | error e => exact .ret (herror e rfl)

theorem lift_bind {p : Program Op Ans α} (h : Only v.Foreign p)
    (hg : ∀ a, v.Makes code (g a).run R) : v.Makes code (ExceptT.lift p >>= g).run R := by
  induction p with
  | ret a => exact hg a
  | call op k ih => exact .foreign h.1 fun a ↦ ih a (h.2 a)

theorem sub_bind {j : J₁} {g : ρ₁ → ExceptT ε (Program Op Ans) β}
    (hg : ∀ r, v.Makes code (g r).run (fun l r' ↦ R ((j, r) :: l) r')) :
    v.Makes code (ExceptT.lift (v.embed (code j)) >>= g).run R := by
  rw [Program.lift_bind_run]
  exact .sub hg

theorem try_catch {p : ExceptT ε (Program Op Ans) β} {handler : ε → ExceptT ε (Program Op Ans) β}
    (h : v.Makes code p.run (fun l r ↦ match r with
      | .ok b => R l (.ok b)
      | .error e => v.Makes code (handler e).run (fun l' r' ↦ R (l ++ l') r'))) :
    v.Makes code (tryCatch p handler).run R := by
  refine Makes.bind h fun l r hr ↦ ?_
  cases r with
  | ok b =>
    refine .ret ?_
    rwa [List.append_nil]
  | error e => exact hr

end Exceptions

end Makes

end View

/-- A part of a larger object: its operations do to it what they do on its own, and the other ones
leave it alone. -/
structure Part (S : System J Op Ans ρ σ) (S₁ : System J₁ Op₁ Ans₁ ρ₁ σ₁) extends
    View Ans Ans₁ where
  state : σ → σ₁
  exec_ans : ∀ o s, ans o (S.exec (op o) s).1 = (S₁.exec o (state s)).1
  exec_state : ∀ o s, state (S.exec (op o) s).2 = (S₁.exec o (state s)).2
  exec_foreign : ∀ o s, toView.Foreign o → state (S.exec o s).2 = state s
  ready : ∀ o s, S.ready (op o) s → S₁.ready o (state s)
  calls : ∀ j r, S₁.code j ≠ .ret r

namespace Interleaving

variable {ι : Type} [DecidableEq ι] {S : System J Op Ans ρ σ}
  {S₁ : System J₁ Op₁ Ans₁ ρ₁ σ₁} (V : Part S S₁) (Q : J → List (J₁ × ρ₁) → ρ → Prop)

/-- What the thread of a part, `u`, has done for a call of the whole: the calls `pre` are over, and
one may be going on. -/
inductive Doing (j : J) (pre : List (J₁ × ρ₁)) :
    Program Op Ans ρ → Option (J₁ × List (Event Ans₁) × Program Op₁ Ans₁ ρ₁) → Prop
  | outside {p : Program Op Ans ρ} (h : V.Makes S₁.code p (fun l r ↦ Q j (pre ++ l) r)) :
      Doing j pre p none
  | inside {j₁ : J₁} {es : List (Event Ans₁)} {o : Op₁} {q : Ans₁ o → Program Op₁ Ans₁ ρ₁}
      {k : ρ₁ → Program Op Ans ρ}
      (h : ∀ r, V.Makes S₁.code (k r) (fun l r' ↦ Q j (pre ++ (j₁, r) :: l) r')) :
      Doing j pre (V.embed (.call o q) >>= k) (some (j₁, es, .call o q))

theorem Doing.of_ret {V : Part S S₁} {Q : J → List (J₁ × ρ₁) → ρ → Prop} {j : J}
    {pre : List (J₁ × ρ₁)} {r : ρ}
    {cur : Option (J₁ × List (Event Ans₁) × Program Op₁ Ans₁ ρ₁)}
    (h : Doing V Q j pre (.ret r) cur) : cur = none ∧ Q j pre r := by
  generalize hp : (.ret r : Program Op Ans ρ) = p at h
  cases h with
  | inside h => cases hp
  | outside h =>
    subst hp
    have hQ := h.of_ret V.calls
    rw [List.append_nil] at hQ
    exact ⟨rfl, hQ⟩

theorem Doing.of_call {V : Part S S₁} {Q : J → List (J₁ × ρ₁) → ρ → Prop} {j : J}
    {pre : List (J₁ × ρ₁)} {op : Op} {k : Ans op → Program Op Ans ρ}
    {cur : Option (J₁ × List (Event Ans₁) × Program Op₁ Ans₁ ρ₁)}
    (h : Doing V Q j pre (.call op k) cur) :
    (cur = none ∧ V.Foreign op ∧ ∀ a, Doing V Q j pre (k a) none) ∨
      ∃ (j₁ : J₁) (o : Op₁) (q : Ans₁ o → Program Op₁ Ans₁ ρ₁) (k' : ρ₁ → Program Op Ans ρ),
        .call op k = V.embed (.call o q) >>= k' ∧
          (∀ r, V.Makes S₁.code (k' r) (fun l r' ↦ Q j (pre ++ (j₁, r) :: l) r')) ∧
          ((cur = none ∧ S₁.code j₁ = .call o q) ∨ ∃ es, cur = some (j₁, es, .call o q)) := by
  generalize hp : (.call op k : Program Op Ans ρ) = p at h
  cases h with
  | inside h => exact .inr ⟨_, _, _, _, rfl, h, .inr ⟨_, rfl⟩⟩
  | outside h =>
    subst hp
    rcases h.of_call V.calls with ⟨hforeign, hk⟩ | ⟨j₁, o, q, k', hcode, hp, hk⟩
    · exact .inl ⟨rfl, hforeign, fun a ↦ .outside (hk a)⟩
    · exact .inr ⟨j₁, o, q, k', hp, hk, .inl ⟨rfl, hcode⟩⟩

/-- The thread `u` of the part makes the calls that the thread `t` of the whole uses it for. -/
structure Follows (t : Thread J Op Ans ρ) (u : Thread J₁ Op₁ Ans₁ ρ₁) : Prop where
  todo : u.todo = []
  made : ∃ (ls : List (List (J₁ × ρ₁))) (pre : List (J₁ × ρ₁)),
    List.Forall₂ (fun d l ↦ Q d.1 l d.2.2) t.done ls ∧ replies u = ls.flatten ++ pre ∧
      match t.current with
      | none => pre = [] ∧ u.current = none
      | some (j, _, p) => Doing V Q j pre p u.current

/-- Where the thread of the part is about to take an operation, so is that of the whole. -/
theorem Follows.of_call {V : Part S S₁} {Q : J → List (J₁ × ρ₁) → ρ → Prop}
    {t : Thread J Op Ans ρ} {u : Thread J₁ Op₁ Ans₁ ρ₁} {j₁ : J₁} {es : List (Event Ans₁)} {o : Op₁}
    {q : Ans₁ o → Program Op₁ Ans₁ ρ₁} (h : Follows V Q t u)
    (hu : u.current = some (j₁, es, .call o q)) :
    ∃ js j es' k done, t = ⟨js, some (j, es', .call (V.op o) k), done⟩ := by
  obtain ⟨js, current, done⟩ := t
  obtain ⟨ls, pre, -, -, hcurrent⟩ := h.made
  rw [hu] at hcurrent
  cases current with
  | none => cases hcurrent.2
  | some x =>
    obtain ⟨j, es', p⟩ := x
    cases hcurrent with
    | inside _ => exact ⟨js, j, es', _, done, rfl⟩

variable {V Q} {P : Config ι J Op Ans ρ σ → ι → Prop} {s : σ₁} {calls : ι → List J₁}
  {c : Config ι J₁ Op₁ Ans₁ ρ₁ σ₁} {i : ι}

theorem Reaches.next {c' : Config ι J₁ Op₁ Ans₁ ρ₁ σ₁} {c₀ : Config ι J₁ Op₁ Ans₁ ρ₁ σ₁}
    (h : Reaches S₁ anyStep c₀ c) (hs : Step S₁ c i c') : Reaches S₁ anyStep c₀ c' := by
  obtain ⟨past, h⟩ := h
  exact ⟨_, h.step trivial hs⟩

/-- A call of the part that has nothing left to do returns at once. -/
theorem settle {j : J} {pre : List (J₁ × ρ₁)} {j₁ : J₁} {es : List (Event Ans₁)} {s' : σ₁}
    {q : Program Op₁ Ans₁ ρ₁} {k : ρ₁ → Program Op Ans ρ}
    {done : List (J₁ × List (Event Ans₁) × ρ₁)}
    (h : Reaches S₁ anyStep (initial s calls) (update c s' i ⟨[], some (j₁, es, q), done⟩))
    (hk : ∀ r, V.Makes S₁.code (k r) (fun l r' ↦ Q j (pre ++ (j₁, r) :: l) r')) :
    ∃ (u : Thread J₁ Op₁ Ans₁ ρ₁) (more : List (J₁ × ρ₁)),
      Reaches S₁ anyStep (initial s calls) (update c s' i u) ∧ u.todo = [] ∧
        replies u = done.map (fun d ↦ (d.1, d.2.2)) ++ more ∧
        Doing V Q j (pre ++ more) (V.embed q >>= k) u.current := by
  cases q with
  | call o q => exact ⟨_, [], h, rfl, by simp [replies], by simpa using .inside hk⟩
  | ret r =>
    have hs := Step.finish (S := S₁) (update_self c s' i ⟨[], some (j₁, es, .ret r), done⟩)
    rw [update_update] at hs
    refine ⟨_, [(j₁, r)], h.next hs, rfl, by simp [replies], .outside ?_⟩
    simpa using hk r

variable (V Q) in
/-- A run of the part whose threads follow those of the whole. -/
def Followed (s₀ : σ) (c : Config ι J Op Ans ρ σ) : Prop :=
  ∃ (calls₁ : ι → List J₁) (c₁ : Config ι J₁ Op₁ Ans₁ ρ₁ σ₁),
    Reaches S₁ anyStep (initial (V.state s₀) calls₁) c₁ ∧ c₁.shared = V.state c.shared ∧
      ∀ i, Follows V Q (c.thread i) (c₁.thread i)

theorem followed_update {s₀ s' : σ} {c : Config ι J Op Ans ρ σ} {c₁ : Config ι J₁ Op₁ Ans₁ ρ₁ σ₁}
    {s₁ : σ₁} {t : Thread J Op Ans ρ} {u : Thread J₁ Op₁ Ans₁ ρ₁}
    (hf : ∀ i, Follows V Q (c.thread i) (c₁.thread i))
    (h : Reaches S₁ anyStep (initial (V.state s₀) calls) (update c₁ s₁ i u))
    (hs : s₁ = V.state s') (hu : Follows V Q t u) : Followed V Q s₀ (update c s' i t) := by
  refine ⟨calls, _, h, hs, fun k ↦ ?_⟩
  by_cases hk : k = i
  · subst hk
    rwa [update_self, update_self]
  · rw [update_other _ _ _ hk, update_other _ _ _ hk]
    exact hf k

theorem Followed.begin {s₀ : σ} {c : Config ι J Op Ans ρ σ} {j : J} {js : List J}
    {done : List (J × List (Event Ans) × ρ)} (h : Followed V Q s₀ c)
    (hcode : V.Makes S₁.code (S.code j) (Q j)) (hi : c.thread i = ⟨j :: js, none, done⟩) :
    Followed V Q s₀ (update c c.shared i ⟨js, some (j, [], S.code j), done⟩) := by
  obtain ⟨calls₁, c₁, hc₁, hshared, hfollows⟩ := h
  have hf := hfollows i
  rw [hi] at hf
  obtain ⟨ls, pre, hls, hreplies, rfl, hcurrent⟩ := hf.made
  rw [← update_eq_self c₁ i] at hc₁
  refine followed_update hfollows hc₁ hshared ⟨hf.todo, ls, [], hls, hreplies, ?_⟩
  rw [hcurrent]
  exact .outside hcode

theorem Followed.finish {s₀ : σ} {c : Config ι J Op Ans ρ σ} {j : J} {js : List J}
    {es : List (Event Ans)} {r : ρ} {done : List (J × List (Event Ans) × ρ)}
    (h : Followed V Q s₀ c) (hi : c.thread i = ⟨js, some (j, es, .ret r), done⟩) :
    Followed V Q s₀ (update c c.shared i ⟨js, none, done ++ [(j, es, r)]⟩) := by
  obtain ⟨calls₁, c₁, hc₁, hshared, hfollows⟩ := h
  have hf := hfollows i
  rw [hi] at hf
  obtain ⟨ls, pre, hls, hreplies, hdoing⟩ := hf.made
  obtain ⟨hcurrent, hQ⟩ := hdoing.of_ret
  rw [← update_eq_self c₁ i] at hc₁
  refine followed_update hfollows hc₁ hshared ⟨hf.todo, ls ++ [pre], [], ?_, ?_, rfl, hcurrent⟩
  · exact List.rel_append hls (.cons hQ .nil)
  · rw [hreplies, List.flatten_append, List.flatten_singleton, List.append_nil]

theorem Followed.take {s₀ : σ} {c : Config ι J Op Ans ρ σ} {j : J} {js : List J}
    {es : List (Event Ans)} {op : Op} {k : Ans op → Program Op Ans ρ}
    {done : List (J × List (Event Ans) × ρ)} (h : Followed V Q s₀ c)
    (hi : c.thread i = ⟨js, some (j, es, .call op k), done⟩) (hr : S.ready op c.shared) :
    Followed V Q s₀ (update c (S.exec op c.shared).2 i
      ⟨js, some (j, es ++ [⟨op, (S.exec op c.shared).1⟩], k (S.exec op c.shared).1), done⟩) := by
  obtain ⟨calls₁, c₁, hc₁, hshared, hfollows⟩ := h
  have hf := hfollows i
  rw [hi] at hf
  obtain ⟨ls, pre, hls, hreplies, hdoing⟩ := hf.made
  rcases hdoing.of_call with ⟨hcurrent, hforeign, hk⟩ | ⟨j₁, o, q, k', hp, hk, hcurrent⟩
  · rw [← update_eq_self c₁ i] at hc₁
    refine followed_update hfollows hc₁ ?_ ⟨hf.todo, ls, pre, hls, hreplies, ?_⟩
    · rw [V.exec_foreign _ _ hforeign, hshared]
    · rw [hcurrent]
      exact hk _
  · cases hp
    have hready : S₁.ready o c₁.shared := hshared ▸ V.ready o c.shared hr
    obtain ⟨calls₂, es', hentered⟩ : ∃ calls₂ es', Reaches S₁ anyStep (initial (V.state s₀) calls₂)
        (update c₁ (S₁.exec o c₁.shared).2 i
          ⟨[], some (j₁, es', q (S₁.exec o c₁.shared).1), (c₁.thread i).done⟩) := by
      have hthread : c₁.thread i = ⟨[], (c₁.thread i).current, (c₁.thread i).done⟩ := by
        rw [← hf.todo]
      rcases hcurrent with ⟨hnone, hcode⟩ | ⟨es', hsome⟩
      · rw [hnone] at hthread
        exact ⟨_, _, hc₁.enter hthread hcode hready (fun _ _ _ _ ↦ trivial) trivial trivial⟩
      · rw [hsome] at hthread
        exact ⟨_, _, hc₁.next (.take hthread hready)⟩
    obtain ⟨u, more, hu, htodo, hreplies', hdoing'⟩ := settle hentered hk
    rw [hshared, ← V.exec_ans] at hdoing'
    refine followed_update hfollows hu ?_ ⟨htodo, ls, pre ++ more, hls, ?_, hdoing'⟩
    · rw [hshared, V.exec_state]
    · rw [hreplies', ← List.append_assoc, ← hreplies]
      rfl

/-- Whatever a whole does with a part, the part runs as on its own: its threads make the calls that
those of the whole use it for. -/
theorem followed {s₀ : σ} {calls : ι → List J} {c : Config ι J Op Ans ρ σ}
    (hcode : ∀ j, V.Makes S₁.code (S.code j) (Q j)) (h : Reaches S P (initial s₀ calls) c) :
    Followed V Q s₀ c := by
  refine h.invariant (I := Followed V Q s₀) ?_ ?_
  · exact ⟨fun _ ↦ [], _, .refl, rfl, fun i ↦ ⟨rfl, [], [], .nil, rfl, rfl, rfl⟩⟩
  · intro c i c' _ ih _ hs
    cases hs with
    | begin hi => exact ih.begin (hcode _) hi
    | take hi hr => exact ih.take hi hr
    | finish hi => exact ih.finish hi

/-- Once the whole is done with, so is the part, and each of its threads has made the calls that
the calls of the whole stand for, in their order. -/
theorem Followed.finished {s₀ : σ} {c : Config ι J Op Ans ρ σ} (h : Followed V Q s₀ c)
    (hf : Finished c) :
    ∃ (calls₁ : ι → List J₁) (c₁ : Config ι J₁ Op₁ Ans₁ ρ₁ σ₁),
      Reaches S₁ anyStep (initial (V.state s₀) calls₁) c₁ ∧ Finished c₁ ∧
        c₁.shared = V.state c.shared ∧
        ∀ i, ∃ ls, List.Forall₂ (fun d l ↦ Q d.1 l d.2.2) (c.thread i).done ls ∧
          replies (c₁.thread i) = ls.flatten := by
  obtain ⟨calls₁, c₁, hc₁, hshared, hfollows⟩ := h
  have hidle : ∀ i, (c.thread i).current = none := fun i ↦ Option.isNone_iff_eq_none.mp (hf i).2
  refine ⟨calls₁, c₁, hc₁, fun i ↦ ?_, hshared, fun i ↦ ?_⟩
  · obtain ⟨ls, pre, -, -, hcurrent⟩ := (hfollows i).made
    rw [hidle i] at hcurrent
    rw [(hfollows i).todo, hcurrent.2]
    exact ⟨rfl, rfl⟩
  · obtain ⟨ls, pre, hls, hreplies, hcurrent⟩ := (hfollows i).made
    rw [hidle i] at hcurrent
    rw [hcurrent.1, List.append_nil] at hreplies
    exact ⟨ls, hls, hreplies⟩

end Interleaving

end ServiceSystem.Foundations
