import ServiceSystem.Foundations.Text

namespace ServiceSystem.Foundations

/-- Regular expressions whose repetitions are of single characters. -/
inductive Regex
  | lit (s : Str)
  | exactly (n : ℕ) (p : Char → Bool)
  | atLeast (n : ℕ) (p : Char → Bool)
  | seq (a b : Regex)
  | alt (a b : Regex)
  | group (name : Str) (a : Regex)

namespace Regex

def isDigit (c : Char) : Bool := c.isDigit

def isWord (c : Char) : Bool := c.isAlphanum || c = '_'

def isAny (c : Char) : Bool := c ≠ '\n'

structure Match where
  text : Str
  groups : List (Str × Str)
  rest : Str
  deriving DecidableEq

/-- The matches that start where the text does, the preferred ones first: a repetition
prefers to take more, an alternative its left side. -/
def matchesAt : Regex → Str → List Match
  | .lit a, s => if a <+: s then [⟨a, [], s.drop a.length⟩] else []
  | .exactly n p, s =>
    if n ≤ (s.takeWhile p).length then [⟨s.take n, [], s.drop n⟩] else []
  | .atLeast n p, s =>
    let most := (s.takeWhile p).length
    (List.range (most + 1 - n)).map (fun i ↦ ⟨s.take (most - i), [], s.drop (most - i)⟩)
  | .seq a b, s =>
    (a.matchesAt s).flatMap (fun m ↦
      (b.matchesAt m.rest).map (fun m' ↦ ⟨m.text ++ m'.text, m.groups ++ m'.groups, m'.rest⟩))
  | .alt a b, s => a.matchesAt s ++ b.matchesAt s
  | .group name a, s =>
    (a.matchesAt s).map (fun m ↦ ⟨m.text, (name, m.text) :: m.groups, m.rest⟩)

/-- The leftmost match, and of those the preferred one. -/
def search (r : Regex) : Str → Option Match
  | [] => (r.matchesAt []).head?
  | c :: s => (r.matchesAt (c :: s)).head?.or (search r s)

def capture (m : Match) (name : Str) : Option Str := (m.groups.find? (·.1 = name)).map (·.2)

def first (r : Regex) (s : Str) : Option Match := (r.matchesAt s).head?

theorem search_of_first {r : Regex} {s : Str} {m : Match} (h : r.first s = some m) :
    r.search s = some m := by
  cases s with
  | nil => exact h
  | cons c s => rw [search, show (r.matchesAt (c :: s)).head? = some m from h, Option.some_or]

theorem first_lit (a s : Str) : (lit a).first (a ++ s) = some ⟨a, [], s⟩ := by
  simp [first, matchesAt]

theorem takeWhile_append_length {p : Char → Bool} {a : Str} (h : ∀ c ∈ a, p c = true) (s : Str) :
    ((a ++ s).takeWhile p).length = a.length + (s.takeWhile p).length := by
  rw [List.takeWhile_append_of_pos h, List.length_append]

theorem first_exactly {p : Char → Bool} {a : Str} (h : ∀ c ∈ a, p c = true) (s : Str) :
    (exactly a.length p).first (a ++ s) = some ⟨a, [], s⟩ := by
  have hle : a.length ≤ ((a ++ s).takeWhile p).length := by
    rw [takeWhile_append_length h]
    omega
  simp [first, matchesAt, hle]

theorem first_atLeast {n : ℕ} {p : Char → Bool} {a s : Str} (h : ∀ c ∈ a, p c = true)
    (hn : n ≤ a.length) (hs : ∀ c ∈ s.head?, p c = false) :
    (atLeast n p).first (a ++ s) = some ⟨a, [], s⟩ := by
  have hstop : (s.takeWhile p).length = 0 := by
    cases s with
    | nil => rfl
    | cons c s => simp [hs c (by simp)]
  have hmost : ((a ++ s).takeWhile p).length = a.length := by
    rw [takeWhile_append_length h, hstop, Nat.add_zero]
  obtain ⟨k, hk⟩ : ∃ k, a.length + 1 - n = k + 1 := ⟨a.length - n, by omega⟩
  simp [first, matchesAt, hmost, hk, List.range_succ_eq_map]

theorem first_seq {a b : Regex} {s : Str} {m m' : Match} (ha : a.first s = some m)
    (hb : b.first m.rest = some m') :
    (seq a b).first s = some ⟨m.text ++ m'.text, m.groups ++ m'.groups, m'.rest⟩ := by
  obtain ⟨ms, hms⟩ := List.head?_eq_some_iff.mp ha
  obtain ⟨ms', hms'⟩ := List.head?_eq_some_iff.mp hb
  simp [first, matchesAt, hms, hms']

theorem first_group {a : Regex} {s : Str} {m : Match} (name : Str) (ha : a.first s = some m) :
    (group name a).first s = some ⟨m.text, (name, m.text) :: m.groups, m.rest⟩ := by
  simp only [first, matchesAt, List.head?_map]
  rw [show (a.matchesAt s).head? = some m from ha]
  rfl

theorem first_run {n : ℕ} {p : Char → Bool} {x s : Str} {b : Regex} {m : Match} (name : Str)
    (hx : ∀ c ∈ x, p c = true) (hn : n ≤ x.length) (hs : ∀ c ∈ s.head?, p c = false)
    (hb : b.first s = some m) : (seq (group name (atLeast n p)) b).first (x ++ s) =
      some ⟨x ++ m.text, (name, x) :: m.groups, m.rest⟩ :=
  first_seq (first_group name (first_atLeast hx hn hs)) hb

/-- A text starts otherwise than with `a`, however it goes on. -/
def clashes (a s : Str) : Bool := (List.zipWith (· != ·) a s).any id

/-- No part of the text can be where `a` starts, however it goes on. -/
def absent (a : Str) : Str → Bool
  | [] => true
  | c :: s => clashes a (c :: s) && absent a s

theorem not_prefix_of_clashes {a s t : Str} (h : clashes a s = true) : ¬ a <+: s ++ t := by
  induction a generalizing s with
  | nil => cases h
  | cons x a ih =>
    cases s with
    | nil => cases h
    | cons c s =>
      intro hp
      obtain ⟨rfl, htail⟩ := List.cons_prefix_cons.mp hp
      exact ih (by simpa [clashes] using h) htail

theorem matchesAt_seq_lit {a s : Str} {b : Regex} (h : ¬ a <+: s) :
    (seq (lit a) b).matchesAt s = [] := by
  simp [matchesAt, h]

theorem search_absent {a p : Str} {b : Regex} (h : absent a p = true) (s : Str) :
    (seq (lit a) b).search (p ++ s) = (seq (lit a) b).search s := by
  induction p with
  | nil => rfl
  | cons c p ih =>
    rw [absent, Bool.and_eq_true] at h
    have hnone := matchesAt_seq_lit (b := b) (not_prefix_of_clashes (t := s) h.1)
    rw [List.cons_append] at hnone ⊢
    rw [search, hnone, List.head?_nil, Option.none_or]
    exact ih h.2

theorem absent_append {x : Char} {a p q : Str} (hp : x ∉ p) (hq : absent (x :: a) q = true) :
    absent (x :: a) (p ++ q) = true := by
  induction p with
  | nil => exact hq
  | cons c p ih =>
    obtain ⟨hne, hp⟩ := not_or.mp (List.mem_cons.not.mp hp)
    rw [List.cons_append, absent, Bool.and_eq_true]
    exact ⟨by simp [clashes, hne], ih hp⟩

/-- A repetition that has taken one character too many gives it back. -/
theorem first_giveBack {n : ℕ} {p : Char → Bool} {x s name : Str} {c : Char} {b : Regex}
    {m : Match} (hx : ∀ d ∈ x, p d = true) (hn : n ≤ x.length) (hc : p c = true)
    (hs : ∀ d ∈ s.head?, p d = false) (hb : b.matchesAt s = []) (hm : b.first (c :: s) = some m) :
    (seq (group name (atLeast n p)) b).first (x ++ c :: s) =
      some ⟨x ++ m.text, (name, x) :: m.groups, m.rest⟩ := by
  have hstop : (s.takeWhile p).length = 0 := by
    cases s with
    | nil => rfl
    | cons d s => simp [hs d (by simp)]
  have hmost : ((x ++ c :: s).takeWhile p).length = x.length + 1 := by
    rw [takeWhile_append_length hx, List.takeWhile_cons_of_pos hc, List.length_cons, hstop]
  obtain ⟨k, hk⟩ : ∃ k, x.length + 1 + 1 - n = k + 1 + 1 := ⟨x.length - n, by omega⟩
  obtain ⟨ms, hms⟩ := List.head?_eq_some_iff.mp hm
  have htake : (x ++ c :: s).take (x.length + 1) = x ++ [c] := by
    rw [List.take_length_add_append]
    rfl
  have hdrop : (x ++ c :: s).drop (x.length + 1) = s := by
    rw [List.drop_length_add_append]
    rfl
  simp [first, matchesAt, hmost, hk, List.range_succ_eq_map, hb, hms, htake, hdrop]

theorem mem_of_matchesAt {r : Regex} {s : Str} {m : Match} (h : m ∈ r.matchesAt s) :
    (∀ c ∈ m.text, c ∈ s) ∧ (∀ g ∈ m.groups, ∀ c ∈ g.2, c ∈ s) ∧ ∀ c ∈ m.rest, c ∈ s := by
  induction r generalizing s m with
  | lit a =>
    simp only [matchesAt] at h
    split_ifs at h with ha
    · obtain rfl := List.mem_singleton.mp h
      exact ⟨fun c ↦ (ha.subset ·), nofun, fun c ↦ List.mem_of_mem_drop⟩
    · cases h
  | exactly n p =>
    simp only [matchesAt] at h
    split_ifs at h
    · obtain rfl := List.mem_singleton.mp h
      exact ⟨fun c ↦ List.mem_of_mem_take, nofun, fun c ↦ List.mem_of_mem_drop⟩
    · cases h
  | atLeast n p =>
    obtain ⟨i, -, rfl⟩ := List.mem_map.mp h
    exact ⟨fun c ↦ List.mem_of_mem_take, nofun, fun c ↦ List.mem_of_mem_drop⟩
  | seq a b iha ihb =>
    obtain ⟨ma, ha, h⟩ := List.mem_flatMap.mp h
    obtain ⟨mb, hb, rfl⟩ := List.mem_map.mp h
    obtain ⟨hat, hag, har⟩ := iha ha
    obtain ⟨hbt, hbg, hbr⟩ := ihb hb
    refine ⟨fun c hc ↦ ?_, fun g hg c hc ↦ ?_, fun c hc ↦ har c (hbr c hc)⟩
    · rcases List.mem_append.mp hc with hc | hc
      · exact hat c hc
      · exact har c (hbt c hc)
    · rcases List.mem_append.mp hg with hg | hg
      · exact hag g hg c hc
      · exact har c (hbg g hg c hc)
  | alt a b iha ihb =>
    rcases List.mem_append.mp h with h | h
    · exact iha h
    · exact ihb h
  | group name a iha =>
    obtain ⟨ma, ha, rfl⟩ := List.mem_map.mp h
    obtain ⟨hat, hag, har⟩ := iha ha
    refine ⟨hat, fun g hg ↦ ?_, har⟩
    rcases List.mem_cons.mp hg with rfl | hg
    · exact hat
    · exact hag g hg

theorem capture_self (text rest name x : Str) (groups : List (Str × Str)) :
    capture ⟨text, (name, x) :: groups, rest⟩ name = some x := by
  simp [capture]

theorem capture_of_ne {name key : Str} (h : key ≠ name) (text rest x : Str)
    (groups : List (Str × Str)) :
    capture ⟨text, (key, x) :: groups, rest⟩ name = capture ⟨text, groups, rest⟩ name := by
  simp [capture, h]

theorem mem_groups_of_capture {m : Match} {name x : Str} (h : capture m name = some x) :
    (name, x) ∈ m.groups := by
  obtain ⟨g, hg, rfl⟩ := Option.map_eq_some_iff.mp h
  have hname : g.1 = name := by simpa using List.find?_some hg
  exact hname ▸ List.mem_of_find?_eq_some hg

theorem exists_of_search {r : Regex} {s : Str} {m : Match} (h : r.search s = some m) :
    ∃ t, t <:+ s ∧ m ∈ r.matchesAt t := by
  induction s with
  | nil => exact ⟨[], List.suffix_rfl, List.mem_of_mem_head? h⟩
  | cons c s ih =>
    rw [search, Option.or_eq_some_iff] at h
    rcases h with h | ⟨-, h⟩
    · exact ⟨c :: s, List.suffix_rfl, List.mem_of_mem_head? h⟩
    · obtain ⟨t, hsuffix, ht⟩ := ih h
      exact ⟨t, hsuffix.trans (List.suffix_cons c s), ht⟩

theorem mem_of_capture {r : Regex} {s name x : Str} {m : Match} (hm : r.search s = some m)
    (hx : capture m name = some x) : ∀ c ∈ x, c ∈ s := by
  obtain ⟨t, hsuffix, ht⟩ := exists_of_search hm
  intro c hc
  exact hsuffix.subset ((mem_of_matchesAt ht).2.1 _ (mem_groups_of_capture hx) c hc)

def namedGroups : Regex → List (Str × Regex)
  | .lit _ | .exactly _ _ | .atLeast _ _ => []
  | .seq a b | .alt a b => a.namedGroups ++ b.namedGroups
  | .group name a => (name, a) :: a.namedGroups

theorem exists_of_mem_groups {r : Regex} {s : Str} {m : Match} (h : m ∈ r.matchesAt s)
    {g : Str × Str} (hg : g ∈ m.groups) :
    ∃ a, (g.1, a) ∈ r.namedGroups ∧ ∃ t, ∃ m' ∈ a.matchesAt t, m'.text = g.2 := by
  induction r generalizing s m with
  | lit a =>
    simp only [matchesAt] at h
    split_ifs at h
    · obtain rfl := List.mem_singleton.mp h
      cases hg
    · cases h
  | exactly n p =>
    simp only [matchesAt] at h
    split_ifs at h
    · obtain rfl := List.mem_singleton.mp h
      cases hg
    · cases h
  | atLeast n p =>
    obtain ⟨i, -, rfl⟩ := List.mem_map.mp h
    cases hg
  | seq a b iha ihb =>
    obtain ⟨ma, ha, h⟩ := List.mem_flatMap.mp h
    obtain ⟨mb, hb, rfl⟩ := List.mem_map.mp h
    rcases List.mem_append.mp hg with hg | hg
    · obtain ⟨r, hr, hmatch⟩ := iha ha hg
      exact ⟨r, List.mem_append_left _ hr, hmatch⟩
    · obtain ⟨r, hr, hmatch⟩ := ihb hb hg
      exact ⟨r, List.mem_append_right _ hr, hmatch⟩
  | alt a b iha ihb =>
    rcases List.mem_append.mp h with h | h
    · obtain ⟨r, hr, hmatch⟩ := iha h hg
      exact ⟨r, List.mem_append_left _ hr, hmatch⟩
    · obtain ⟨r, hr, hmatch⟩ := ihb h hg
      exact ⟨r, List.mem_append_right _ hr, hmatch⟩
  | group name a iha =>
    obtain ⟨ma, ha, rfl⟩ := List.mem_map.mp h
    rcases List.mem_cons.mp hg with rfl | hg
    · exact ⟨a, List.mem_cons_self, s, ma, ha, rfl⟩
    · obtain ⟨r, hr, hmatch⟩ := iha ha hg
      exact ⟨r, List.mem_cons_of_mem _ hr, hmatch⟩

theorem mem_matchesAt_atLeast {n : ℕ} {p : Char → Bool} {s : Str} {m : Match}
    (h : m ∈ (atLeast n p).matchesAt s) : n ≤ m.text.length ∧ ∀ c ∈ m.text, p c = true := by
  obtain ⟨i, hi, rfl⟩ := List.mem_map.mp h
  rw [List.mem_range] at hi
  have hle := (List.takeWhile_prefix (l := s) p).length_le
  refine ⟨?_, fun c hc ↦ ?_⟩
  · rw [List.length_take]
    omega
  · have hinitial : s.take ((s.takeWhile p).length - i) <+: s.takeWhile p :=
      List.prefix_of_prefix_length_le (List.take_prefix _ _) (List.takeWhile_prefix p)
        (by rw [List.length_take]; omega)
    exact List.all_eq_true.mp List.all_takeWhile c (hinitial.subset hc)

theorem captured_atLeast {r : Regex} {s name x : Str} {m : Match} {n : ℕ} {p : Char → Bool}
    (hr : r.namedGroups.filter (·.1 = name) = [(name, atLeast n p)]) (hm : r.search s = some m)
    (hx : capture m name = some x) : n ≤ x.length ∧ ∀ c ∈ x, p c = true := by
  obtain ⟨t, -, ht⟩ := exists_of_search hm
  obtain ⟨a, ha, t', m', hm', rfl⟩ := exists_of_mem_groups ht (mem_groups_of_capture hx)
  have hfilter : (name, a) ∈ r.namedGroups.filter (·.1 = name) := List.mem_filter.mpr ⟨ha, by simp⟩
  rw [hr, List.mem_singleton] at hfilter
  cases hfilter
  exact mem_matchesAt_atLeast hm'

/-- The search finds a match whose groups are as given. -/
def Extracts (r : Regex) (s : Str) (groups : List (Str × Str)) : Prop :=
  ∃ m, r.search s = some m ∧ ∀ g ∈ groups, capture m g.1 = some g.2

/-- Where a text starts with `x`, the first match is `x`, and it has no groups. -/
def Takes (r : Regex) (x : Str) : Prop := ∀ s, r.first (x ++ s) = some ⟨x, [], s⟩

theorem takes_lit (a : Str) : (lit a).Takes a := first_lit a

theorem takes_exactly {n : ℕ} {p : Char → Bool} {x : Str} (hn : x.length = n)
    (h : ∀ c ∈ x, p c = true) : (exactly n p).Takes x := by
  subst hn
  exact first_exactly h

theorem Takes.seq {a b : Regex} {x y : Str} (ha : a.Takes x) (hb : b.Takes y) :
    (seq a b).Takes (x ++ y) := by
  intro s
  rw [List.append_assoc]
  exact first_seq (ha (y ++ s)) (hb s)

end Regex

end ServiceSystem.Foundations
