import ServiceSystem.Logging.Loki
import Mathlib.Data.List.InsertIdx

namespace ServiceSystem.Logging

open Foundations

/-- A character of `escapedMessage`, with its place in the message unless the loop wrote it. -/
structure Cell where
  char : Char
  origin : Option ℕ
  deriving DecidableEq

def written (c : Char) : Cell := ⟨c, none⟩

/-- The loop of `sendToLoki` between two iterations, and the cells it has examined so far. -/
structure Pass where
  escapedMessage : List Cell
  i : ℕ
  examined : List Cell
  deriving DecidableEq

namespace Pass

def text (p : Pass) : Str := p.escapedMessage.map Cell.char

def start (message : Str) : Pass := ⟨message.mapIdx (fun k c ↦ ⟨c, some k⟩), 0, []⟩

/-- The cell at the index, if the index is inside. -/
def read (p : Pass) : Option (Cell × Pass) :=
  p.escapedMessage[p.i]?.map (fun cell ↦ (cell, { p with examined := p.examined ++ [cell] }))

def write (p : Pass) (c : Char) : Option Pass :=
  if p.i < p.escapedMessage.length then
    some { p with escapedMessage := p.escapedMessage.set p.i (written c) }
  else none

def insert (p : Pass) (c : Char) : Option Pass :=
  if p.i ≤ p.escapedMessage.length then
    some { p with escapedMessage := p.escapedMessage.insertIdx p.i (written c) }
  else none

def next (p : Pass) : Pass := { p with i := p.i + 1 }

/-- One iteration with its increment; there is none that reaches outside the string. -/
def iterate (p : Pass) : Option Pass := do
  let (cell, p) ← p.read
  if cell.char = '"' then next <$> p.write '\\'
  else if cell.char = '\\' then (fun p ↦ p.next.next) <$> p.insert '\\'
  else if cell.char = '\n' then next <$> p.write '\\'
  else if cell.char = '\r' then next <$> p.write '\\'
  else some p.next

/-- The condition of the loop. -/
def Continues (p : Pass) : Prop := p.i < p.escapedMessage.length

/-- The state after so many iterations. -/
inductive Run : ℕ → Pass → Pass → Prop
  | zero (p : Pass) : Run 0 p p
  | succ {n : ℕ} {p q r : Pass} (h : Run n p q) (hc : q.Continues) (hr : q.iterate = some r) :
      Run (n + 1) p r

end Pass

/-- What stands for a character once the loop has passed over it. -/
def escapeCell (cell : Cell) : List Cell :=
  if cell.char = '\\' then [written '\\', cell]
  else if cell.char = '"' ∨ cell.char = '\n' ∨ cell.char = '\r' then [written '\\']
  else [cell]

def escapeChar (c : Char) : Str :=
  if c = '\\' then ['\\', '\\']
  else if c = '"' ∨ c = '\n' ∨ c = '\r' then ['\\']
  else [c]

theorem map_char_escapeCell (cell : Cell) :
    (escapeCell cell).map Cell.char = escapeChar cell.char := by
  unfold escapeCell escapeChar
  split_ifs with hslash
  · rw [List.map_cons, List.map_singleton, hslash]
    rfl
  · rfl
  · rfl

theorem length_escapeChar (c : Char) : (escapeChar c).length = 1 + [c].count '\\' := by
  unfold escapeChar
  split_ifs with hslash
  · rw [hslash]
    rfl
  · rw [List.count_singleton, if_neg (by simpa using hslash)]
    rfl
  · rw [List.count_singleton, if_neg (by simpa using hslash)]
    rfl

theorem length_flatMap_escapeChar (message : Str) :
    (message.flatMap escapeChar).length = message.length + message.count '\\' := by
  induction message with
  | nil => rfl
  | cons c message ih =>
    have hcount : (c :: message).count '\\' = [c].count '\\' + message.count '\\' := by
      rw [← List.singleton_append, List.count_append]
    rw [List.flatMap_cons, List.length_append, ih, length_escapeChar, List.length_cons, hcount]
    omega

namespace Pass

/-- Between two iterations: what has been passed over is replaced, the rest is untouched. -/
def between (done rest : List Cell) : Pass :=
  ⟨done.flatMap escapeCell ++ rest, (done.flatMap escapeCell).length, done⟩

theorem between_continues (done rest : List Cell) :
    (between done rest).Continues ↔ rest ≠ [] := by
  have hlength : (between done rest).escapedMessage.length =
      (between done rest).i + rest.length := List.length_append
  rw [Continues, hlength, ← List.length_pos_iff]
  omega

theorem between_snoc (done rest : List Cell) (cell : Cell) :
    between (done ++ [cell]) rest = ⟨done.flatMap escapeCell ++ (escapeCell cell ++ rest),
      (done.flatMap escapeCell).length + (escapeCell cell).length, done ++ [cell]⟩ := by
  simp [between, List.flatMap_append]

theorem between_read (done rest : List Cell) (cell : Cell) :
    (between done (cell :: rest)).read =
      some (cell, { between done (cell :: rest) with examined := done ++ [cell] }) := by
  simp [read, between]

theorem overwrite (before rest examined : List Cell) (cell : Cell) (c : Char) :
    write ⟨before ++ cell :: rest, before.length, examined⟩ c =
      some ⟨before ++ written c :: rest, before.length, examined⟩ := by
  simp [write]

theorem insertIdx_length (before rest : List Cell) (cell : Cell) :
    (before ++ rest).insertIdx before.length cell = before ++ cell :: rest := by
  induction before with
  | nil => rfl
  | cons c before ih =>
    rw [List.cons_append, List.length_cons, List.insertIdx_succ_cons, ih, List.cons_append]

theorem insert_before (before rest examined : List Cell) (c : Char) :
    insert ⟨before ++ rest, before.length, examined⟩ c =
      some ⟨before ++ written c :: rest, before.length, examined⟩ := by
  simp [insert, insertIdx_length]

theorem iterate_between (done rest : List Cell) (cell : Cell) :
    (between done (cell :: rest)).iterate = some (between (done ++ [cell]) rest) := by
  unfold iterate
  rw [between_read, between_snoc]
  simp only [Option.bind_eq_bind, Option.bind_some, between, overwrite, insert_before, escapeCell]
  split_ifs <;> simp_all [next]

theorem length_start (message : Str) :
    (start message).escapedMessage.length = message.length := List.length_mapIdx

/-- After `n` iterations the loop stands behind the first `n` characters of the message. -/
theorem Run.eq_between {message : Str} {n : ℕ} {p : Pass} (h : Run n (start message) p) :
    n ≤ message.length ∧ p = between ((start message).escapedMessage.take n)
      ((start message).escapedMessage.drop n) := by
  generalize hp₀ : start message = p₀ at h
  induction h with
  | zero p =>
    subst hp₀
    exact ⟨Nat.zero_le _, rfl⟩
  | @succ n p q r h hc hr ih =>
    subst hp₀
    obtain ⟨-, rfl⟩ := ih rfl
    rw [between_continues, ne_eq, List.drop_eq_nil_iff, not_le, length_start] at hc
    have hn : n < (start message).escapedMessage.length := by rwa [length_start]
    rw [List.drop_eq_getElem_cons hn, iterate_between, ← List.take_succ_eq_append_getElem hn] at hr
    exact ⟨hc, (Option.some.inj hr).symm⟩

theorem run_start {message : Str} {n : ℕ} (h : n ≤ message.length) :
    Run n (start message) (between ((start message).escapedMessage.take n)
      ((start message).escapedMessage.drop n)) := by
  induction n with
  | zero => exact .zero _
  | succ n ih =>
    have hn : n < (start message).escapedMessage.length := by rwa [length_start]
    refine (ih (by omega)).succ ?_ ?_
    · rw [between_continues, ne_eq, List.drop_eq_nil_iff, not_le]
      exact hn
    · rw [List.drop_eq_getElem_cons hn, iterate_between, ← List.take_succ_eq_append_getElem hn]

theorem origins_start (message : Str) :
    (start message).escapedMessage.map Cell.origin = (List.range message.length).map some := by
  apply List.ext_getElem
  · simp [start]
  · intro k h₁ h₂
    simp [start]

theorem text_start (message : Str) : (start message).text = message := by
  apply List.ext_getElem
  · simp [start, text]
  · intro k h₁ h₂
    simp [start, text]

/-- The loop on plain characters does what the one that keeps track of them does. -/
theorem escapeLoop_iterate {p q : Pass} (hc : p.Continues) (h : p.iterate = some q) :
    escapeLoop p.text p.i = escapeLoop q.text q.i := by
  have hlength : p.i < p.text.length := by simpa [text, Continues] using hc
  have hinside : p.i < p.escapedMessage.length := hc
  have hchar : p.text[p.i] = p.escapedMessage[p.i].char := List.getElem_map _
  have hread : p.read = some (p.escapedMessage[p.i],
      { p with examined := p.examined ++ [p.escapedMessage[p.i]] }) := by
    rw [read, List.getElem?_eq_getElem hinside]
    rfl
  have hwrite (examined : List Cell) : write { p with examined := examined } '\\' =
      some { p with escapedMessage := p.escapedMessage.set p.i (written '\\'), examined } :=
    if_pos hc
  have hinsert (examined : List Cell) : insert { p with examined := examined } '\\' =
      some { p with escapedMessage := p.escapedMessage.insertIdx p.i (written '\\'), examined } :=
    if_pos (Nat.le_of_lt hc)
  rw [escapeLoop, dif_pos hlength, hchar]
  rw [iterate, hread] at h
  simp only [Option.bind_eq_bind, Option.bind_some, hwrite, hinsert, Option.map_eq_map,
    Option.map_some] at h
  split_ifs at h ⊢
  all_goals
    cases h
    simp only [text, next, List.map_set, List.map_insertIdx, written]

theorem escapeLoop_stop {p : Pass} (h : ¬ p.Continues) : escapeLoop p.text p.i = p.text := by
  rw [escapeLoop, dif_neg (by simpa [text, Continues] using h)]

theorem Run.escapeLoop_eq {n : ℕ} {p q : Pass} (h : Run n p q) :
    escapeLoop p.text p.i = escapeLoop q.text q.i := by
  induction h with
  | zero p => rfl
  | succ h hc hr ih => rw [ih, escapeLoop_iterate hc hr]

end Pass

/-- The loop of `sendToLoki` takes one iteration for each character of the message, always
inside the string, examines nothing else, and leaves the message with each character
replaced. -/
theorem escapeLoop_one_pass (message : Str) :
    (∀ n p, Pass.Run n (.start message) p →
      n ≤ message.length ∧ (p.Continues ↔ n < message.length) ∧
        (p.Continues → ∃ q, p.iterate = some q) ∧
        p.examined.map Cell.origin = (List.range n).map some) ∧
      (∃ last, Pass.Run message.length (.start message) last ∧ ¬ last.Continues ∧
        last.text = escapeLoop message 0) ∧
      escapeLoop message 0 = message.flatMap escapeChar ∧
      (escapeLoop message 0).length = message.length + message.count '\\' := by
  have hrun := Pass.run_start (le_refl message.length)
  rw [← Pass.length_start, List.take_length, List.drop_length, Pass.length_start] at hrun
  have hstop : ¬ (Pass.between (Pass.start message).escapedMessage []).Continues := by
    rw [Pass.between_continues]
    exact not_not_intro rfl
  have htext : (Pass.between (Pass.start message).escapedMessage []).text =
      escapeLoop message 0 := by
    rw [← Pass.escapeLoop_stop hstop, ← hrun.escapeLoop_eq, Pass.text_start]
    rfl
  have hresult : escapeLoop message 0 = message.flatMap escapeChar := by
    rw [← htext, Pass.text, Pass.between, List.append_nil, List.map_flatMap]
    simp only [map_char_escapeCell]
    rw [← List.flatMap_map]
    exact congrArg _ (Pass.text_start message)
  refine ⟨fun n p h ↦ ?_, ⟨_, hrun, hstop, htext⟩, hresult, ?_⟩
  · obtain ⟨hn, rfl⟩ := h.eq_between
    refine ⟨hn, ?_, ?_, ?_⟩
    · rw [Pass.between_continues, ne_eq, List.drop_eq_nil_iff, not_le, Pass.length_start]
    · intro hc
      rw [Pass.between_continues, ne_eq, List.drop_eq_nil_iff, not_le] at hc
      rw [List.drop_eq_getElem_cons hc]
      exact ⟨_, Pass.iterate_between _ _ _⟩
    · have horigins : (Pass.between ((Pass.start message).escapedMessage.take n)
          ((Pass.start message).escapedMessage.drop n)).examined.map Cell.origin =
          ((Pass.start message).escapedMessage.map Cell.origin).take n := List.map_take
      rw [horigins, Pass.origins_start, ← List.map_take, List.take_range, Nat.min_eq_left hn]
  · rw [hresult, length_flatMap_escapeChar]

end ServiceSystem.Logging
