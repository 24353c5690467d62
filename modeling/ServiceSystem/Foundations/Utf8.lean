import ServiceSystem.Foundations.Text

namespace ServiceSystem.Foundations.Utf8

/-- What may follow the bytes read so far; a character of a `Str` stands for a byte. -/
inductive State
  | accept
  | reject
  | tail1
  | tail2
  | tail3
  | afterE0
  | afterED
  | afterF0
  | afterF4
  deriving DecidableEq

def between (lo hi : ℕ) (c : Char) : Bool := lo ≤ c.toNat && c.toNat ≤ hi

def step : State → Char → State
  | .accept, c =>
    if c.toNat < 0x80 then .accept
    else if between 0xC2 0xDF c then .tail1
    else if between 0xE0 0xE0 c then .afterE0
    else if between 0xED 0xED c then .afterED
    else if between 0xE1 0xEF c then .tail2
    else if between 0xF0 0xF0 c then .afterF0
    else if between 0xF1 0xF3 c then .tail3
    else if between 0xF4 0xF4 c then .afterF4
    else .reject
  | .reject, _ => .reject
  | .tail1, c => if between 0x80 0xBF c then .accept else .reject
  | .tail2, c => if between 0x80 0xBF c then .tail1 else .reject
  | .tail3, c => if between 0x80 0xBF c then .tail2 else .reject
  | .afterE0, c => if between 0xA0 0xBF c then .tail1 else .reject
  | .afterED, c => if between 0x80 0x9F c then .tail1 else .reject
  | .afterF0, c => if between 0x90 0xBF c then .tail2 else .reject
  | .afterF4, c => if between 0x80 0x8F c then .tail2 else .reject

def Valid (s : Str) : Prop := s.foldl step .accept = .accept

instance (s : Str) : Decidable (Valid s) := inferInstanceAs (Decidable (_ = _))

def splitAt : ℕ → Str → Str × Str
  | _, [] => ([], [])
  | 0, c :: s =>
    if between 0x80 0xBF c then (c :: (splitAt 0 s).1, (splitAt 0 s).2) else ([], c :: s)
  | n + 1, c :: s =>
    if between 0x80 0xBF c then (c :: (splitAt (n + 1) s).1, (splitAt (n + 1) s).2)
    else (c :: (splitAt n s).1, (splitAt n s).2)

theorem valid_nil : Valid [] := rfl

theorem Valid.append {s t : Str} (hs : Valid s) (ht : Valid t) : Valid (s ++ t) := by
  rw [Valid, List.foldl_append, hs]
  exact ht

theorem valid_of_ascii {s : Str} (h : ∀ c ∈ s, c.toNat < 0x80) : Valid s := by
  induction s with
  | nil => rfl
  | cons c s ih =>
    have hs := ih (fun c hc ↦ h c (List.mem_cons_of_mem _ hc))
    rw [Valid, List.foldl_cons, step, if_pos (h c List.mem_cons_self)]
    exact hs

theorem step_of_ascii {c : Char} (h : c.toNat < 0x80) (state : State) :
    step state c = if state = .accept then .accept else .reject := by
  have hlow : ∀ {lo hi : ℕ}, 0x80 ≤ lo → between lo hi c = false := by
    intro lo hi hlo
    rw [between, Bool.and_eq_false_iff, decide_eq_false_iff_not]
    exact .inl (by omega)
  cases state <;> simp [step, h, hlow]

theorem foldl_of_ascii {s : Str} (h : ∀ c ∈ s, c.toNat < 0x80) (hs : s ≠ []) (state : State) :
    s.foldl step state = if state = .accept then .accept else .reject := by
  induction s generalizing state with
  | nil => exact absurd rfl hs
  | cons c s ih =>
    obtain ⟨hc, htail⟩ := List.forall_mem_cons.mp h
    rw [List.foldl_cons, step_of_ascii hc]
    rcases eq_or_ne s [] with rfl | hne
    · rfl
    · rw [ih htail hne]
      split_ifs <;> simp_all

theorem valid_append_of_ascii {s t : Str} (h : ∀ c ∈ t, c.toNat < 0x80) :
    Valid (s ++ t) ↔ Valid s := by
  rw [Valid, List.foldl_append]
  rcases eq_or_ne t [] with rfl | hne
  · rfl
  · rw [foldl_of_ascii h hne, Valid]
    split_ifs with hs <;> simp [hs]

theorem Valid.append_iff {s t : Str} (hs : Valid s) : Valid (s ++ t) ↔ Valid t := by
  rw [Valid, List.foldl_append, hs, Valid]

theorem ascii_of_isDigit {c : Char} (h : c.isDigit) : c.toNat < 0x80 := by
  simp only [Char.isDigit, Bool.and_eq_true, decide_eq_true_eq] at h
  have hle := UInt32.le_iff_toNat_le.mp h.2
  exact hle.trans_lt (by decide)

theorem valid_ofInt (n : ℤ) : Valid (Str.ofInt n) := by
  refine valid_of_ascii (fun c hc ↦ ?_)
  rcases Str.mem_ofInt hc with hc | rfl
  · exact ascii_of_isDigit hc
  · decide

theorem valid_fixed (precision : ℕ) (q : ℚ) : Valid (Str.fixed precision q) := by
  refine valid_of_ascii (fun c hc ↦ ?_)
  rcases Str.mem_fixed hc with hc | rfl | rfl
  · exact ascii_of_isDigit hc
  · decide
  · decide

end ServiceSystem.Foundations.Utf8
