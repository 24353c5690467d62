import ServiceSystem.Foundations.ExclusiveSections

namespace ServiceSystem.Foundations.Interleaving

open Program

variable {ι J Op : Type} {Ans : Op → Type} {ρ σ : Type} [DecidableEq ι]
  {S : System J Op Ans ρ σ} {P : Config ι J Op Ans ρ σ → ι → Prop}

/-- While the object is held, the first operation of a call is answered as busy; it then changes
nothing, and what is left of the call only returns `turned`. -/
structure Refusing (S : System J Op Ans ρ σ) (held : σ → Bool) (busy : Event Ans → Bool)
    (turned : J → ρ) : Prop where
  code : ∀ j s, held s = false → Critical S.exec held (S.code j) s
  refused : ∀ j op k s, S.code j = .call op k → held s = true → busy ⟨op, (S.exec op s).1⟩ = true
  inert : ∀ j op k s, S.code j = .call op k → busy ⟨op, (S.exec op s).1⟩ = true →
    (S.exec op s).2 = s ∧ Inert S.exec (turned j) (k (S.exec op s).1)

variable {held : σ → Bool} {busy : Event Ans → Bool} {turned : J → ρ}

def admits (busy : Event Ans → Bool) : List (Event Ans) → Bool
  | [] => false
  | e :: _ => !busy e

/-- What is left of a thread when the calls that were refused, or have yet to take their first
operation, are struck out. -/
def admitted (busy : Event Ans → Bool) (t : Thread J Op Ans ρ) : Thread J Op Ans ρ :=
  ⟨[], t.current.filter (fun x ↦ admits busy x.2.1), t.done.filter (fun d ↦ admits busy d.2.1)⟩

def strike (busy : Event Ans → Bool) (c : Config ι J Op Ans ρ σ) : Config ι J Op Ans ρ σ :=
  ⟨c.shared, fun i ↦ admitted busy (c.thread i)⟩

theorem strike_update (c : Config ι J Op Ans ρ σ) (s : σ) (i : ι) (t : Thread J Op Ans ρ) :
    strike busy (update c s i t) = update (strike busy c) s i (admitted busy t) := by
  unfold strike update
  congr 1
  funext k
  by_cases hk : k = i
  · subst hk
    simp only [Function.update_self]
  · simp only [Function.update_of_ne hk]

theorem strike_unchanged {c : Config ι J Op Ans ρ σ} {s : σ} {i : ι} {t t' : Thread J Op Ans ρ}
    (hi : c.thread i = t) (hs : s = c.shared) (ht : admitted busy t' = admitted busy t) :
    strike busy (update c s i t') = strike busy c := by
  rw [strike_update, ht, hs, ← hi]
  unfold update strike
  congr 1
  exact Function.update_eq_self i _

omit [DecidableEq ι] in
theorem refused_inert (hS : Refusing S held busy turned) {j : J} {e : Event Ans} {es : List (Event Ans)}
    {p : Program Op Ans ρ} (h : After S.exec (S.code j) (e :: es) p) (he : busy e = true) :
    Inert S.exec (turned j) p := by
  generalize hl : e :: es = l at h
  induction h generalizing es with
  | start => cases hl
  | @step es' op k h s ih =>
    cases es' with
    | nil =>
      obtain ⟨rfl, -⟩ := List.cons.inj hl
      exact (hS.inert j op k s h.of_nil.symm he).2
    | cons e' es' =>
      obtain ⟨rfl, -⟩ := List.cons.inj hl
      exact (ih rfl s).2

variable (busy) in
theorem admits_append {es : List (Event Ans)} (h : es ≠ []) (e : Event Ans) :
    admits busy (es ++ [e]) = admits busy es := by
  obtain ⟨e', es, rfl⟩ := List.exists_cons_of_ne_nil h
  rfl

theorem admitted_current {js : List J} {j : J} {es : List (Event Ans)} {p : Program Op Ans ρ}
    {done : List (J × List (Event Ans) × ρ)} (h : admits busy es = true) :
    admitted busy ⟨js, some (j, es, p), done⟩ =
      ⟨[], some (j, es, p), done.filter (fun d ↦ admits busy d.2.1)⟩ := by
  simp only [admitted, Option.filter_some, h, if_true]

theorem admitted_struck {js : List J} {j : J} {es : List (Event Ans)} {p : Program Op Ans ρ}
    {done : List (J × List (Event Ans) × ρ)} (h : admits busy es = false) :
    admitted busy ⟨js, some (j, es, p), done⟩ =
      ⟨[], none, done.filter (fun d ↦ admits busy d.2.1)⟩ := by
  simp only [admitted, Option.filter_some, h, Bool.false_eq_true, if_false]

variable (S held busy) in
/-- The struck-out threads run on their own, and no call of theirs begins while another holds the
object. -/
def Alone (s₀ : σ) (c : Config ι J Op Ans ρ σ) : Prop :=
  Reaches S (Uncontended held) (initial s₀ (fun i ↦ ((strike busy c).thread i).calls))
    (strike busy c)

theorem Alone.of_eq {s₀ : σ} {c c' : Config ι J Op Ans ρ σ} (h : Alone S held busy s₀ c)
    (hc : strike busy c' = strike busy c) : Alone S held busy s₀ c' := by
  unfold Alone
  rw [hc]
  exact h

theorem Alone.step {s₀ : σ} {c c' : Config ι J Op Ans ρ σ} {i : ι} (h : Alone S held busy s₀ c)
    (hP : Uncontended held (strike busy c) i) (hs : Step S (strike busy c) i (strike busy c')) :
    Alone S held busy s₀ c' := by
  unfold Alone at h ⊢
  rw [funext hs.calls]
  obtain ⟨past, h⟩ := h
  exact ⟨_, h.step hP hs⟩

/-- A call that is not refused is added to the struck-out thread as it takes its first
operation. -/
theorem Alone.admit {s₀ : σ} {c : Config ι J Op Ans ρ σ} {i : ι} {j : J} {js : List J} {op : Op}
    {k : Ans op → Program Op Ans ρ} {done : List (J × List (Event Ans) × ρ)}
    (h : Alone S held busy s₀ c) (hcode : S.code j = .call op k)
    (hi : c.thread i = ⟨js, some (j, [], .call op k), done⟩) (hr : S.ready op c.shared)
    (hfree : held c.shared = false) (hbusy : busy ⟨op, (S.exec op c.shared).1⟩ = false) :
    Alone S held busy s₀ (update c (S.exec op c.shared).2 i
      ⟨js, some (j, [⟨op, (S.exec op c.shared).1⟩], k (S.exec op c.shared).1), done⟩) := by
  have hidle : (strike busy c).thread i = ⟨[], none, done.filter (fun d ↦ admits busy d.2.1)⟩ := by
    show admitted busy (c.thread i) = _
    rw [hi]
    exact admitted_struck rfl
  have hadmits : admits busy [⟨op, (S.exec op c.shared).1⟩] = true := by
    rw [admits, hbusy]
    rfl
  unfold Alone
  rw [strike_update, admitted_current hadmits]
  refine (Reaches.enter h hidle hcode hr (fun _ _ _ hP ↦ hP) ?_ (fun _ _ _ ↦ hfree)).own_calls
  intro j' p hp
  rw [update_self] at hp
  cases hp

omit [DecidableEq ι] in
theorem uncontended_of_admits {c : Config ι J Op Ans ρ σ} {i : ι} {t : Thread J Op Ans ρ} {j : J}
    {es : List (Event Ans)} {p : Program Op Ans ρ} (h : c.thread i = t)
    (ht : t.current = some (j, es, p)) (hes : admits busy es = true) : Uncontended held c i := by
  intro j' p' hp
  rw [h, ht] at hp
  cases hp
  cases hes

variable (busy) in
omit [DecidableEq ι] in
theorem strike_thread {c : Config ι J Op Ans ρ σ} {i : ι} {t : Thread J Op Ans ρ}
    (h : c.thread i = t) : (strike busy c).thread i = admitted busy t :=
  congrArg (admitted busy) h

theorem Alone.finish {s₀ : σ} {c : Config ι J Op Ans ρ σ} {i : ι} {j : J} {js : List J}
    {es : List (Event Ans)} {r : ρ} {done : List (J × List (Event Ans) × ρ)}
    (h : Alone S held busy s₀ c) (hi : c.thread i = ⟨js, some (j, es, .ret r), done⟩) :
    Alone S held busy s₀ (update c c.shared i ⟨js, none, done ++ [(j, es, r)]⟩) := by
  have hstrike := strike_thread busy hi
  cases hadmits : admits busy es with
  | false =>
    rw [admitted_struck hadmits] at hstrike
    refine h.of_eq (strike_unchanged hi rfl ?_)
    rw [admitted_struck hadmits, admitted, List.filter_append]
    simp only [Option.filter_none, List.filter_cons, hadmits, Bool.false_eq_true, if_false,
      List.filter_nil, List.append_nil]
  | true =>
    rw [admitted_current hadmits] at hstrike
    refine h.step (uncontended_of_admits hstrike rfl hadmits) ?_
    have hfinished : admitted busy ⟨js, none, done ++ [(j, es, r)]⟩ =
        ⟨[], none, done.filter (fun d ↦ admits busy d.2.1) ++ [(j, es, r)]⟩ := by
      simp only [admitted, Option.filter_none, List.filter_append, List.filter_cons, hadmits,
        if_true, List.filter_nil]
    rw [strike_update, hfinished]
    exact .finish hstrike

theorem Alone.proceed {s₀ : σ} {c : Config ι J Op Ans ρ σ} {i : ι} {j : J} {js : List J}
    {e : Event Ans} {es : List (Event Ans)} {op : Op} {k : Ans op → Program Op Ans ρ}
    {done : List (J × List (Event Ans) × ρ)} (hS : Refusing S held busy turned)
    (h : Alone S held busy s₀ c) (hafter : After S.exec (S.code j) (e :: es) (.call op k))
    (hi : c.thread i = ⟨js, some (j, e :: es, .call op k), done⟩) (hr : S.ready op c.shared) :
    Alone S held busy s₀ (update c (S.exec op c.shared).2 i
      ⟨js, some (j, e :: es ++ [⟨op, (S.exec op c.shared).1⟩], k (S.exec op c.shared).1),
        done⟩) := by
  have hsame := admits_append busy (List.cons_ne_nil e es) ⟨op, (S.exec op c.shared).1⟩
  have hstrike := strike_thread busy hi
  cases hbusy : busy e with
  | true =>
    have hstruck : admits busy (e :: es) = false := by rw [admits, hbusy]; rfl
    have hinert := refused_inert hS hafter hbusy
    refine h.of_eq (strike_unchanged hi (hinert c.shared).1 ?_)
    rw [admitted_struck hstruck, admitted_struck (hsame.trans hstruck)]
  | false =>
    have hadmits : admits busy (e :: es) = true := by rw [admits, hbusy]; rfl
    rw [admitted_current hadmits] at hstrike
    refine h.step (uncontended_of_admits hstrike rfl hadmits) ?_
    rw [strike_update, admitted_current (hsame.trans hadmits)]
    exact .take hstrike hr

theorem alone_of_reaches {s₀ : σ} {calls : ι → List J} {c : Config ι J Op Ans ρ σ}
    (hS : Refusing S held busy turned) (h : Reaches S P (initial s₀ calls) c) : Alone S held busy s₀ c := by
  refine h.invariant (I := Alone S held busy s₀) .refl ?_
  intro c i c' hc ih _ hs
  cases hs with
  | begin hi => exact ih.of_eq (strike_unchanged hi rfl (admitted_struck rfl))
  | finish hi => exact ih.finish hi
  | @take j js es op k done hi hr =>
    have hafter := (fits hc i).current _ _ _ (congrArg Thread.current hi)
    cases es with
    | cons e es => exact ih.proceed hS hafter hi hr
    | nil =>
      have hcode : S.code j = .call op k := hafter.of_nil.symm
      cases hbusy : busy ⟨op, (S.exec op c.shared).1⟩ with
      | true =>
        refine ih.of_eq (strike_unchanged hi (hS.inert j op k _ hcode hbusy).1 ?_)
        have hstruck : admits busy [⟨op, (S.exec op c.shared).1⟩] = false := by
          rw [admits, hbusy]
          rfl
        exact (admitted_struck hstruck).trans (admitted_struck rfl).symm
      | false =>
        have hheld : held c.shared = false := by
          by_contra hheld
          rw [hS.refused j op k _ hcode (Bool.eq_true_of_not_eq_false hheld)] at hbusy
          cases hbusy
        exact ih.admit hcode hi hr hheld hbusy

theorem sublist_calls (t : Thread J Op Ans ρ) : (admitted busy t).calls.Sublist t.calls := by
  unfold Thread.calls
  have hcurrent : ((admitted busy t).current.map Prod.fst).toList.Sublist
      (t.current.map Prod.fst).toList := by
    show ((t.current.filter _).map Prod.fst).toList.Sublist _
    cases t.current with
    | none => exact .refl []
    | some x =>
      rw [Option.filter_some]
      split_ifs
      · exact .refl _
      · exact List.nil_sublist _
  exact ((List.filter_sublist.map _).append hcurrent).append (List.nil_sublist _)

theorem turned_of_refused {s₀ : σ} {calls : ι → List J} {c : Config ι J Op Ans ρ σ}
    (hS : Refusing S held busy turned) (hfree : held s₀ = false)
    (h : Reaches S P (initial s₀ calls) c) (i : ι) :
    ∀ d ∈ (c.thread i).done, admits busy d.2.1 = false → d.2.2 = turned d.1 := by
  intro d hd hrefused
  obtain ⟨j, es, r⟩ := d
  have hafter := (fits h i).done j es r hd
  cases es with
  | nil =>
    have hcritical := hS.code j s₀ hfree
    rw [← hafter.of_nil] at hcritical
    exact hcritical.elim
  | cons e es =>
    have hbusy : busy e = true := by simpa [admits] using hrefused
    exact refused_inert hS hafter hbusy

omit [DecidableEq ι] in
theorem admitted_sublist (t : Thread J Op Ans ρ) :
    (replies (admitted busy t)).Sublist (replies t) := List.filter_sublist.map _

omit [DecidableEq ι] in
theorem filter_admitted {t : Thread J Op Ans ρ} {p : J × ρ → Bool}
    (h : ∀ d ∈ t.done, admits busy d.2.1 = false → p (d.1, d.2.2) = false) :
    (replies (admitted busy t)).filter p = (replies t).filter p := by
  simp only [replies, admitted, List.filter_map, List.filter_filter]
  refine congrArg (List.map _) (List.filter_congr fun d hd ↦ ?_)
  cases hadmits : admits busy d.2.1 with
  | true => exact Bool.and_true _
  | false =>
    rw [Function.comp_apply, h d hd hadmits]
    rfl

/-- Whenever calls may begin, the ones that are not refused are serializable as if the others had
never been made, and when all have returned the object is as the serial order leaves it. -/
theorem serializable_of_refusing {s₀ : σ} {calls : ι → List J} {c : Config ι J Op Ans ρ σ}
    (hS : Refusing S held busy turned) (hfree : held s₀ = false)
    (h : Reaches S P (initial s₀ calls) c) :
    ∃ order : List (ι × J),
      (∀ i, (of i order).Sublist (calls i) ∧
        replies (admitted busy (c.thread i)) <+: of i (serial S order s₀).1) ∧
      (Finished c → c.shared = (serial S order s₀).2 ∧
        ∀ i, of i (serial S order s₀).1 = replies (admitted busy (c.thread i))) := by
  have halone : Alone S held busy s₀ c := alone_of_reaches hS h
  obtain ⟨order, holder, hs⟩ := serialized_of_uncontended hS.code hfree halone
  refine ⟨order, fun i ↦ ?_, fun hf ↦ hs.finished fun i ↦ ⟨rfl, ?_⟩⟩
  · obtain ⟨horder, hreplies⟩ := serialized_prefix halone hs i
    refine ⟨horder.sublist.trans ?_, hreplies⟩
    rw [← calls_kept h i]
    exact sublist_calls _
  · have hnone := Option.isNone_iff_eq_none.mp (hf i).2
    show ((c.thread i).current.filter _).isNone = true
    rw [hnone]
    rfl

end ServiceSystem.Foundations.Interleaving
