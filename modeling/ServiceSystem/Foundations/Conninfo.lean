import ServiceSystem.Foundations.Text
import Mathlib.Data.List.Basic
import Mathlib.Data.List.TakeWhile
import Mathlib.Algebra.BigOperators.Group.List.Basic
import Mathlib.Data.List.Perm.Subperm
import Mathlib.Data.List.Nodup

namespace ServiceSystem.Foundations.Conninfo

/-! The keyword/value connection strings of libpq. -/

def isSpace (c : Char) : Bool := c ∈ [' ', '\t', '\n', '\x0b', '\x0c', '\r']

def isKeyChar (c : Char) : Bool := c ≠ '=' && !isSpace c

def skipSpaces (s : Str) : Str := s.dropWhile isSpace

/-- A keyword and the equals sign after it, which may have blanks around it. -/
def keyword (s : Str) : Option (Str × Str) :=
  let s := skipSpaces s
  match skipSpaces (s.dropWhile isKeyChar) with
  | '=' :: rest => some (s.takeWhile isKeyChar, rest)
  | _ => none

/-- A value up to the next blank, which is used up. A backslash makes the next character
ordinary. -/
def unquoted : Str → Str × Str
  | [] => ([], [])
  | ['\\'] => ([], [])
  | '\\' :: c :: s => (c :: (unquoted s).1, (unquoted s).2)
  | c :: s => if isSpace c then ([], s) else (c :: (unquoted s).1, (unquoted s).2)

/-- A value up to its closing quote. -/
def quoted : Str → Option (Str × Str)
  | [] => none
  | ['\\'] => none
  | '\\' :: c :: s => (quoted s).map (fun r ↦ (c :: r.1, r.2))
  | '\'' :: s => some ([], s)
  | c :: s => (quoted s).map (fun r ↦ (c :: r.1, r.2))

def value (s : Str) : Option (Str × Str) :=
  match skipSpaces s with
  | '\'' :: s => quoted s
  | s => some (unquoted s)

def pair (s : Str) : Option ((Str × Str) × Str) :=
  (keyword s).bind fun k ↦ (value k.2).map fun v ↦ ((k.1, v.1), v.2)

/-- The pair `k=v`, with nothing in it that reads otherwise than it is written. -/
def CleanKey (k : Str) : Prop := ∀ c ∈ k, isKeyChar c = true

def CleanValue (v : Str) : Prop :=
  (∀ c ∈ v, isSpace c = false ∧ c ≠ '\\') ∧ v.head? ≠ some '\''

instance (v : Str) : Decidable (CleanValue v) := inferInstanceAs (Decidable (_ ∧ _))

theorem length_skipSpaces (s : Str) : s = skipSpaces s ∨ (skipSpaces s).length < s.length := by
  cases s with
  | nil => exact .inl rfl
  | cons c s =>
    by_cases hc : isSpace c = true
    · right
      rw [skipSpaces, List.dropWhile_cons_of_pos hc, List.length_cons]
      exact Nat.lt_succ_of_le (List.dropWhile_sublist _).length_le
    · left
      rw [skipSpaces, List.dropWhile_cons_of_neg hc]

theorem head_skipSpaces {s t : Str} {c : Char} (h : skipSpaces s = c :: t) : isSpace c = false := by
  have hhead := List.head?_dropWhile_not isSpace s
  rw [show s.dropWhile isSpace = c :: t from h, List.head?_cons] at hhead
  simpa using hhead

theorem keyword_spec {s k rest : Str} (h : keyword s = some (k, rest)) :
    CleanKey k ∧ (s = k ++ '=' :: rest ∨ k.length + 1 + rest.length < s.length) := by
  have hs := length_skipSpaces s
  unfold keyword at h
  generalize skipSpaces s = t at h hs
  simp only at h
  split at h
  · rename_i rest' hrest
    obtain ⟨rfl, rfl⟩ := Prod.mk.inj (Option.some.inj h)
    have hkey : CleanKey (t.takeWhile isKeyChar) := fun c hc ↦ List.mem_takeWhile_imp hc
    have hsplit : t.takeWhile isKeyChar ++ t.dropWhile isKeyChar = t :=
      List.takeWhile_append_dropWhile
    have hlength := congrArg List.length hsplit
    rw [List.length_append] at hlength
    rcases length_skipSpaces (t.dropWhile isKeyChar) with hd | hd
    · rw [hd, hrest, List.length_cons] at hlength
      rcases hs with rfl | hs
      · refine ⟨hkey, .inl ?_⟩
        rw [← hrest, ← hd, hsplit]
      · exact ⟨hkey, .inr (by omega)⟩
    · rw [hrest, List.length_cons] at hd
      refine ⟨hkey, .inr ?_⟩
      rcases hs with rfl | hs <;> omega
  · cases h

theorem unquoted_spec (s : Str) :
    (∃ c, isSpace c = true ∧ (∀ c ∈ (unquoted s).1, isSpace c = false ∧ c ≠ '\\') ∧
      s = (unquoted s).1 ++ c :: (unquoted s).2) ∨
    ((unquoted s).2 = [] ∧ (∀ c ∈ (unquoted s).1, isSpace c = false ∧ c ≠ '\\') ∧
      s = (unquoted s).1) ∨
    (unquoted s).1.length + 1 + (unquoted s).2.length < s.length ∨
    (unquoted s).2 = [] ∧ (unquoted s).1.length + 1 ≤ s.length := by
  induction s using unquoted.induct with
  | case1 => exact .inr (.inl ⟨rfl, List.forall_mem_nil _, rfl⟩)
  | case2 => exact .inr (.inr (.inr ⟨rfl, by decide⟩))
  | case3 c s ih =>
    rw [unquoted]
    right
    right
    simp only [List.length_cons]
    rcases ih with ⟨c', -, -, h⟩ | ⟨hnil, -, h⟩ | h | ⟨hnil, h⟩
    · left
      have hlength := congrArg List.length h
      rw [List.length_append, List.length_cons] at hlength
      omega
    · right
      have hlength := congrArg List.length h
      exact ⟨hnil, by omega⟩
    · left
      omega
    · right
      exact ⟨hnil, by omega⟩
  | case4 c s h₁ h₂ hc =>
    rw [unquoted]
    · rw [if_pos hc]
      exact .inl ⟨c, hc, List.forall_mem_nil _, rfl⟩
    · exact h₁
    · exact h₂
  | case5 c s h₁ h₂ hc ih =>
    have hslash : c ≠ '\\' := by
      rintro rfl
      cases s with
      | nil => exact h₁ rfl rfl
      | cons d s => exact h₂ d s rfl rfl
    have hclean {v : Str} (hv : ∀ c ∈ v, isSpace c = false ∧ c ≠ '\\') :
        ∀ d ∈ c :: v, isSpace d = false ∧ d ≠ '\\' :=
      List.forall_mem_cons.mpr ⟨⟨Bool.eq_false_iff.mpr hc, hslash⟩, hv⟩
    rw [unquoted]
    · rw [if_neg hc]
      simp only [List.length_cons]
      rcases ih with ⟨c', hc', hv, h⟩ | ⟨hnil, hv, h⟩ | h | ⟨hnil, h⟩
      · exact .inl ⟨c', hc', hclean hv, by rw [List.cons_append, ← h]⟩
      · exact .inr (.inl ⟨hnil, hclean hv, by rw [← h]⟩)
      · exact .inr (.inr (.inl (by omega)))
      · exact .inr (.inr (.inr ⟨hnil, by omega⟩))
    · exact h₁
    · exact h₂

theorem quoted_length {s v rest : Str} (h : quoted s = some (v, rest)) :
    v.length + 1 + rest.length ≤ s.length := by
  induction s using quoted.induct generalizing v rest with
  | case1 => cases h
  | case2 => cases h
  | case3 c s ih =>
    rw [quoted] at h
    obtain ⟨⟨v', rest'⟩, hr, he⟩ := Option.map_eq_some_iff.mp h
    obtain ⟨rfl, rfl⟩ := Prod.mk.inj he
    have hlength := ih hr
    simp only [List.length_cons]
    omega
  | case4 s =>
    rw [quoted] at h
    obtain ⟨rfl, rfl⟩ := Prod.mk.inj (Option.some.inj h)
    simp only [List.length_nil, List.length_cons]
    omega
  | case5 c s h₁ h₂ h₃ ih =>
    rw [quoted] at h
    · obtain ⟨⟨v', rest'⟩, hr, he⟩ := Option.map_eq_some_iff.mp h
      obtain ⟨rfl, rfl⟩ := Prod.mk.inj he
      have hlength := ih hr
      simp only [List.length_cons]
      omega
    · exact h₁
    · exact h₂
    · exact h₃

theorem value_spec {s v rest : Str} (h : value s = some (v, rest)) :
    (∃ c, isSpace c = true ∧ v ≠ [] ∧ CleanValue v ∧ s = v ++ c :: rest) ∨
    (rest = [] ∧ CleanValue v ∧ s = v) ∨
    v.length + 1 + rest.length < s.length ∨ rest = [] ∧ v.length + 1 ≤ s.length := by
  have hs := length_skipSpaces s
  have hhead := @head_skipSpaces s
  unfold value at h
  generalize skipSpaces s = t at h hs hhead
  split at h
  · rename_i t'
    have hlength := quoted_length h
    rw [List.length_cons] at hs
    right
    right
    left
    rcases hs with rfl | hs
    · rw [List.length_cons]
      omega
    · omega
  · rename_i hquote
    obtain ⟨rfl, rfl⟩ := Prod.mk.inj (Option.some.inj h)
    have hclean (hv : ∀ c ∈ (unquoted t).1, isSpace c = false ∧ c ≠ '\\') {r : Str}
        (ht : t = (unquoted t).1 ++ r) : CleanValue (unquoted t).1 := by
      refine ⟨hv, fun hq ↦ ?_⟩
      obtain ⟨v', hv'⟩ := List.head?_eq_some_iff.mp hq
      rw [hv', List.cons_append] at ht
      exact hquote _ ht
    rcases unquoted_spec t with ⟨c, hc, hv, ht⟩ | ⟨hnil, hv, ht⟩ | ht | ⟨hnil, ht⟩
    · rcases hs with rfl | hs
      · refine .inl ⟨c, hc, fun hv' ↦ ?_, hclean hv ht, ht⟩
        rw [hv', List.nil_append] at ht
        exact absurd (hhead ht) (by simp [hc])
      · have hlength := congrArg List.length ht
        rw [List.length_append, List.length_cons] at hlength
        exact .inr (.inr (.inl (by omega)))
    · rcases hs with rfl | hs
      · exact .inr (.inl ⟨hnil, hclean hv (by rw [List.append_nil]; exact ht), ht⟩)
      · have hlength := congrArg List.length ht
        exact .inr (.inr (.inr ⟨hnil, by omega⟩))
    · rcases hs with rfl | hs
      · exact .inr (.inr (.inl ht))
      · exact .inr (.inr (.inl (by omega)))
    · rcases hs with rfl | hs
      · exact .inr (.inr (.inr ⟨hnil, ht⟩))
      · exact .inr (.inr (.inr ⟨hnil, by omega⟩))

theorem pair_spec {s k v rest : Str} (h : pair s = some ((k, v), rest)) :
    (∃ c, isSpace c = true ∧ CleanKey k ∧ v ≠ [] ∧ CleanValue v ∧
      s = k ++ '=' :: (v ++ c :: rest)) ∨
    (rest = [] ∧ CleanKey k ∧ CleanValue v ∧ s = k ++ '=' :: v) ∨
    k.length + v.length + 2 + rest.length < s.length ∨
    rest = [] ∧ k.length + v.length + 2 ≤ s.length := by
  obtain ⟨⟨k', t⟩, hk, h⟩ := Option.bind_eq_some_iff.mp h
  obtain ⟨⟨v', rest'⟩, hv, he⟩ := Option.map_eq_some_iff.mp h
  obtain ⟨hkv, rfl⟩ := Prod.mk.inj he
  obtain ⟨rfl, rfl⟩ := Prod.mk.inj hkv
  obtain ⟨hclean, hlength⟩ := keyword_spec hk
  have hle : k'.length + 1 + t.length ≤ s.length := by
    rcases hlength with rfl | hlength
    · simp only [List.length_append, List.length_cons]
      omega
    · exact hlength.le
  simp only at hv ⊢
  rcases value_spec hv with ⟨c, hc, hne, hv', ht⟩ | ⟨hnil, hv', ht⟩ | ht | ⟨hnil, ht⟩
  · rcases hlength with hs | hlength
    · exact .inl ⟨c, hc, hclean, hne, hv', by rw [hs, ht]⟩
    · have hl := congrArg List.length ht
      rw [List.length_append, List.length_cons] at hl
      exact .inr (.inr (.inl (by omega)))
  · rcases hlength with hs | hlength
    · exact .inr (.inl ⟨hnil, hclean, hv', by rw [hs, ht]⟩)
    · have hl := congrArg List.length ht
      exact .inr (.inr (.inr ⟨hnil, by omega⟩))
  · exact .inr (.inr (.inl (by omega)))
  · exact .inr (.inr (.inr ⟨hnil, by omega⟩))

theorem pair_length {s rest : Str} {p : Str × Str} (h : pair s = some (p, rest)) :
    rest.length < s.length := by
  rcases pair_spec h with ⟨c, -, -, -, -, rfl⟩ | ⟨rfl, -, -, rfl⟩ | h | ⟨rfl, h⟩
  · simp only [List.length_append, List.length_cons]
    omega
  · simp only [List.length_append, List.length_cons, List.length_nil]
    omega
  · omega
  · rw [List.length_nil]
    omega

/-- The pairs of a connection string in order, or nothing where libpq reports an error in it.
That a keyword is unknown is left to what looks at the pairs. -/
def parse (s : Str) : Option (List (Str × Str)) :=
  if skipSpaces s = [] then some []
  else
    match _h : pair s with
    | none => none
    | some (p, rest) => (parse rest).map (p :: ·)
termination_by s.length
decreasing_by exact pair_length ‹_›

theorem parse_eq (s : Str) : parse s =
    if skipSpaces s = [] then some [] else (pair s).bind (fun r ↦ (parse r.2).map (r.1 :: ·)) := by
  rw [parse]
  split_ifs
  · rfl
  · split
    · rename_i h
      rw [h, Option.bind_none]
    · rename_i h
      rw [h, Option.bind_some]

theorem parse_nil : parse [] = some [] := by rw [parse_eq, if_pos (show skipSpaces [] = [] by rfl)]

def weight (ps : List (Str × Str)) : ℕ := (ps.map (fun p ↦ p.1.length + p.2.length + 2)).sum

/-- The text is the pairs one after the other, one blank between two of them. -/
inductive Clean : Str → List (Str × Str) → Prop
  | last {k v : Str} : CleanKey k → CleanValue v → Clean (k ++ '=' :: v) [(k, v)]
  | cons {k v s : Str} {c : Char} {ps : List (Str × Str)} : CleanKey k → v ≠ [] → CleanValue v →
      isSpace c = true → Clean s ps → Clean (k ++ '=' :: (v ++ c :: s)) ((k, v) :: ps)

/-- A text as short as its pairs is clean. -/
theorem parse_weight {s : Str} {ps : List (Str × Str)} (h : parse s = some ps) :
    weight ps ≤ s.length + 1 ∧ (weight ps = s.length + 1 → Clean s ps) := by
  induction hn : s.length using Nat.strong_induction_on generalizing s ps with
  | h n ih =>
    rw [parse_eq] at h
    split_ifs at h with hs
    · cases h
      exact ⟨Nat.zero_le _, fun h ↦ by cases h⟩
    · obtain ⟨⟨⟨k, v⟩, rest⟩, hpair, hrest⟩ := Option.bind_eq_some_iff.mp h
      obtain ⟨ps', hps', rfl⟩ := Option.map_eq_some_iff.mp hrest
      have hw : weight ((k, v) :: ps') = k.length + v.length + 2 + weight ps' := by simp [weight]
      obtain ⟨hle, hclean⟩ := ih rest.length (hn ▸ pair_length hpair) hps' rfl
      have hnil : rest = [] → ps' = [] := by
        rintro rfl
        rw [parse_nil] at hps'
        exact (Option.some.inj hps').symm
      rw [hw]
      rcases pair_spec hpair with ⟨c, hc, hk, hne, hv, hs⟩ | ⟨hr, hk, hv, hs⟩ | hlt | ⟨hr, hlt⟩
      · have hlength := congrArg List.length hs
        simp only [List.length_append, List.length_cons] at hlength
        refine ⟨by omega, fun heq ↦ ?_⟩
        rw [hs]
        exact .cons hk hne hv hc (hclean (by omega))
      · have hlength := congrArg List.length hs
        simp only [List.length_append, List.length_cons] at hlength
        rw [hnil hr, hs]
        exact ⟨by simp only [weight, List.map_nil, List.sum_nil]; omega, fun _ ↦ .last hk hv⟩
      · exact ⟨by omega, fun heq ↦ by omega⟩
      · rw [hnil hr]
        simp only [weight, List.map_nil, List.sum_nil]
        exact ⟨by omega, fun heq ↦ by omega⟩

theorem skipSpaces_of_head {s : Str} (h : ∀ c ∈ s.head?, isSpace c = false) :
    skipSpaces s = s := by
  cases s with
  | nil => rfl
  | cons c s => exact List.dropWhile_cons_of_neg (by simp [h c rfl])

theorem keyword_clean {k : Str} (hk : CleanKey k) (rest : Str) :
    keyword (k ++ '=' :: rest) = some (k, rest) := by
  have hskip : skipSpaces (k ++ '=' :: rest) = k ++ '=' :: rest := by
    refine skipSpaces_of_head (fun c hc ↦ ?_)
    cases k with
    | nil =>
      obtain rfl := Option.some.inj hc
      rfl
    | cons d k =>
      obtain rfl := Option.some.inj hc
      have hd := hk d List.mem_cons_self
      simp only [isKeyChar, Bool.and_eq_true, Bool.not_eq_eq_eq_not, Bool.not_true] at hd
      exact hd.2
  have ht : (k ++ '=' :: rest).takeWhile isKeyChar = k := by
    rw [List.takeWhile_append_of_pos hk, List.takeWhile_cons_of_neg (by decide), List.append_nil]
  have hd : skipSpaces ((k ++ '=' :: rest).dropWhile isKeyChar) = '=' :: rest := by
    rw [List.dropWhile_append_of_pos hk, List.dropWhile_cons_of_neg (by decide)]
    rfl
  simp only [keyword, hskip, ht, hd]

theorem unquoted_clean {v : Str} (hv : ∀ c ∈ v, isSpace c = false ∧ c ≠ '\\') :
    unquoted v = (v, []) ∧
      ∀ c, isSpace c = true → ∀ rest, unquoted (v ++ c :: rest) = (v, rest) := by
  induction v with
  | nil =>
    refine ⟨rfl, fun c hc rest ↦ ?_⟩
    have hslash : c ≠ '\\' := by
      rintro rfl
      revert hc
      decide
    rw [List.nil_append, unquoted, if_pos hc] <;> simp [hslash]
  | cons d v ih =>
    obtain ⟨⟨hd, hslash⟩, hv⟩ := List.forall_mem_cons.mp hv
    obtain ⟨hend, hspace⟩ := ih hv
    constructor
    · rw [unquoted, if_neg (by simp [hd]), hend] <;> simp [hslash]
    · intro c hc rest
      rw [List.cons_append, unquoted, if_neg (by simp [hd]), hspace c hc rest] <;> simp [hslash]

theorem value_unquoted {s : Str} (hspace : ∀ c ∈ s.head?, isSpace c = false)
    (hquote : s.head? ≠ some '\'') : value s = some (unquoted s) := by
  rw [value, skipSpaces_of_head hspace]
  split
  · exact absurd rfl hquote
  · rfl

theorem parse_clean {s : Str} {ps : List (Str × Str)} (h : Clean s ps) : parse s = some ps := by
  have hne (k rest : Str) (hk : CleanKey k) : skipSpaces (k ++ '=' :: rest) ≠ [] := by
    intro hnil
    have hkey := keyword_clean hk rest
    simp only [keyword, hnil] at hkey
    cases hkey
  induction h with
  | @last k v hk hv =>
    have hvalue : value v = some (v, []) := by
      rw [value_unquoted (fun c hc ↦ (hv.1 c (List.mem_of_mem_head? hc)).1) hv.2,
        (unquoted_clean hv.1).1]
    rw [parse_eq, if_neg (hne k v hk), pair, keyword_clean hk, Option.bind_some, hvalue,
      Option.map_some, Option.bind_some]
    simp only [parse_nil, Option.map_some]
  | @cons k v s c ps hk hnil hv hc _ ih =>
    have hhead : (v ++ c :: s).head? = v.head? := List.head?_append_of_ne_nil v hnil
    have hvalue : value (v ++ c :: s) = some (v, s) := by
      rw [value_unquoted (fun d hd ↦ (hv.1 d (List.mem_of_mem_head? (hhead ▸ hd))).1)
        (hhead ▸ hv.2), (unquoted_clean hv.1).2 c hc s]
    rw [parse_eq, if_neg (hne k _ hk), pair, keyword_clean hk, Option.bind_some, hvalue,
      Option.map_some, Option.bind_some, ih, Option.map_some]

/-- What a keyword is set to in the end: a later pair takes the place of an earlier one. -/
def setting (ps : List (Str × Str)) (k : Str) : Option Str :=
  ((ps.filter (·.1 = k)).getLast?).map Prod.snd

theorem mem_of_setting {ps : List (Str × Str)} {k v : Str} (h : setting ps k = some v) :
    (k, v) ∈ ps := by
  obtain ⟨⟨k', v'⟩, hlast, rfl⟩ := Option.map_eq_some_iff.mp h
  obtain ⟨hmem, hk⟩ := List.mem_filter.mp (List.mem_of_getLast? hlast)
  rw [decide_eq_true_eq] at hk
  exact hk ▸ hmem

theorem setting_of_mem {ps : List (Str × Str)} (hn : (ps.map Prod.fst).Nodup) {p : Str × Str}
    (h : p ∈ ps) : setting ps p.1 = some p.2 := by
  have hmem : p ∈ ps.filter (·.1 = p.1) := List.mem_filter.mpr ⟨h, by simp⟩
  obtain ⟨q, hq⟩ : ∃ q, (ps.filter (·.1 = p.1)).getLast? = some q :=
    ⟨_, List.getLast?_eq_some_getLast (List.ne_nil_of_mem hmem)⟩
  obtain ⟨hq', hk⟩ := List.mem_filter.mp (List.mem_of_getLast? hq)
  rw [decide_eq_true_eq] at hk
  rw [setting, hq, List.inj_on_of_nodup_map hn hq' h hk, Option.map_some]

def print : List (Str × Str) → Str
  | [] => []
  | [p] => p.1 ++ '=' :: p.2
  | p :: ps => p.1 ++ '=' :: (p.2 ++ ' ' :: print ps)

theorem print_length {fields : List (Str × Str)} (h : fields ≠ []) :
    (print fields).length + 1 = weight fields := by
  induction fields with
  | nil => exact absurd rfl h
  | cons p ps ih =>
    cases ps with
    | nil =>
      simp only [print, weight, List.length_append, List.length_cons, List.map_cons, List.map_nil,
        List.sum_cons, List.sum_nil]
      omega
    | cons q ps =>
      have hps := ih (List.cons_ne_nil q ps)
      have hw : weight (p :: q :: ps) = p.1.length + p.2.length + 2 + weight (q :: ps) := rfl
      rw [hw, print]
      · simp only [List.length_append, List.length_cons]
        omega
      · exact List.cons_ne_nil q ps

theorem weight_sublist {l ps : List (Str × Str)} (h : l.Sublist ps) :
    weight l + 2 * ps.length ≤ weight ps + 2 * l.length := by
  have hcons (p : Str × Str) (ps : List (Str × Str)) :
      weight (p :: ps) = p.1.length + p.2.length + 2 + weight ps := rfl
  induction h with
  | slnil => exact le_rfl
  | cons p _ ih =>
    rw [hcons, List.length_cons]
    omega
  | cons_cons p _ ih =>
    rw [hcons, hcons, List.length_cons, List.length_cons]
    omega

theorem perm_of_weight {fields ps : List (Str × Str)} (h : fields.Subperm ps)
    (hw : weight ps ≤ weight fields) : fields.Perm ps := by
  obtain ⟨l, hl, hsub⟩ := h
  have hweight : weight l = weight fields := (hl.map _).sum_eq
  have hle := weight_sublist hsub
  rw [← hsub.eq_of_length_le (by omega)]
  exact hl.symm

theorem Clean.ne_nil {s : Str} {ps : List (Str × Str)} (h : Clean s ps) : ps ≠ [] := by
  cases h <;> exact List.cons_ne_nil _ _

theorem Clean.values {s : Str} {ps : List (Str × Str)} (h : Clean s ps) :
    (∀ p ∈ ps, CleanValue p.2) ∧ ∀ p ∈ ps.dropLast, p.2 ≠ [] := by
  induction h with
  | last _ hv => exact ⟨List.forall_mem_singleton.mpr hv, List.forall_mem_nil _⟩
  | cons _ hne hv _ hps ih =>
    rw [List.dropLast_cons_of_ne_nil hps.ne_nil]
    exact ⟨List.forall_mem_cons.mpr ⟨hv, ih.1⟩, List.forall_mem_cons.mpr ⟨hne, ih.2⟩⟩

theorem key_append_inj {k k' t t' : Str} (hk : CleanKey k) (hk' : CleanKey k')
    (h : k ++ '=' :: t = k' ++ '=' :: t') : k = k' ∧ t = t' := by
  have hkeys := congrArg (List.takeWhile isKeyChar) h
  rw [List.takeWhile_append_of_pos hk, List.takeWhile_cons_of_neg (by decide), List.append_nil,
    List.takeWhile_append_of_pos hk', List.takeWhile_cons_of_neg (by decide),
    List.append_nil] at hkeys
  subst hkeys
  exact ⟨rfl, (List.cons.inj (List.append_cancel_left h)).2⟩

theorem eq_of_clean_print {fields ps : List (Str × Str)} (hkeys : ∀ p ∈ fields, CleanKey p.1)
    (hn : (fields.map Prod.fst).Nodup) (hp : fields.Perm ps) (h : Clean (print fields) ps) :
    ps = fields := by
  induction fields generalizing ps with
  | nil => exact hp.nil_eq.symm
  | cons p fields ih =>
    cases fields with
    | nil => exact (List.singleton_perm.mp hp).symm
    | cons q fields =>
      obtain ⟨hp₁, hkeys'⟩ := List.forall_mem_cons.mp hkeys
      rw [print] at h
      · generalize hs : p.1 ++ '=' :: (p.2 ++ ' ' :: print (q :: fields)) = s at h
        cases h with
        | last _ _ => exact absurd hp.length_eq (by simp)
        | @cons k v s c ps hk _ _ _ hclean =>
          obtain ⟨rfl, hrest⟩ := key_append_inj hp₁ hk hs
          have hmem : (p.1, v) ∈ p :: q :: fields := hp.mem_iff.mpr List.mem_cons_self
          have hpv : (p.1, v) = p := List.inj_on_of_nodup_map hn hmem List.mem_cons_self rfl
          obtain rfl : v = p.2 := congrArg Prod.snd hpv
          obtain ⟨-, rfl⟩ := List.cons.inj (List.append_cancel_left hrest)
          rw [ih hkeys' (List.nodup_cons.mp hn).2 hp.cons_inv hclean]
      · exact List.cons_ne_nil q fields

theorem clean_print {fields : List (Str × Str)} (hne : fields ≠ [])
    (hkeys : ∀ p ∈ fields, CleanKey p.1) (hv : ∀ p ∈ fields, CleanValue p.2)
    (hnil : ∀ p ∈ fields.dropLast, p.2 ≠ []) : Clean (print fields) fields := by
  induction fields with
  | nil => exact absurd rfl hne
  | cons p fields ih =>
    obtain ⟨hp, hkeys⟩ := List.forall_mem_cons.mp hkeys
    obtain ⟨hv₁, hv⟩ := List.forall_mem_cons.mp hv
    cases fields with
    | nil => exact .last hp hv₁
    | cons q fields =>
      rw [List.dropLast_cons_of_ne_nil (List.cons_ne_nil q fields)] at hnil
      obtain ⟨hp₂, hnil⟩ := List.forall_mem_cons.mp hnil
      have hclean := ih (List.cons_ne_nil q fields) hkeys hv hnil
      rw [print]
      · exact .cons hp hp₂ hv₁ (by decide) hclean
      · exact List.cons_ne_nil q fields

/-- Reading gives the pairs that were printed, and nothing else. -/
def ReadsBack (s : Str) (fields : List (Str × Str)) : Prop :=
  ∃ ps, parse s = some ps ∧ ∀ k, setting ps k = setting fields k

/-- Pairs printed without quotes read back exactly if no value has a blank or a backslash in it or
starts with a quote, and none but the last is empty. -/
theorem print_readsBack_iff {fields : List (Str × Str)} (hne : fields ≠ [])
    (hkeys : ∀ p ∈ fields, CleanKey p.1) (hn : (fields.map Prod.fst).Nodup) :
    ReadsBack (print fields) fields ↔
      (∀ p ∈ fields, CleanValue p.2) ∧ ∀ p ∈ fields.dropLast, p.2 ≠ [] := by
  constructor
  · rintro ⟨ps, hps, hsettings⟩
    have hsubset : fields ⊆ ps := fun p hp ↦
      mem_of_setting ((hsettings p.1).trans (setting_of_mem hn hp))
    have hsubperm := (List.Nodup.of_map _ hn).subperm hsubset
    obtain ⟨hle, hclean⟩ := parse_weight hps
    rw [print_length hne] at hle hclean
    have hperm := perm_of_weight hsubperm hle
    have hweight : weight ps = weight fields := ((hperm.map _).sum_eq).symm
    obtain rfl := eq_of_clean_print hkeys hn hperm (hclean hweight)
    exact (hclean hweight).values
  · rintro ⟨hv, hnil⟩
    exact ⟨fields, parse_clean (clean_print hne hkeys hv hnil), fun _ ↦ rfl⟩

end ServiceSystem.Foundations.Conninfo
