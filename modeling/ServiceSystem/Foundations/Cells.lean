import ServiceSystem.Foundations.Markup
import Mathlib.Algebra.BigOperators.Group.List.Basic
import Mathlib.Algebra.Order.BigOperators.Group.List

namespace ServiceSystem.Foundations.Markup

variable {b : Browser}

section Counting

theorem special_append (s t : Str) : special (s ++ t) = special s + special t :=
  List.countP_append

theorem specialIn_append (nodes nodes' : List Node) :
    specialIn (nodes ++ nodes') = specialIn nodes + specialIn nodes' := by
  induction nodes with
  | nil => simp [specialIn]
  | cons node nodes ih => rw [List.cons_append, specialIn, specialIn, ih, Nat.add_assoc]

theorem specialIn_cell (data : Str) : specialIn [cell data] = special data := by
  unfold cell
  split_ifs with h
  · rw [h]
    rfl
  · simp [specialIn, Node.special]

theorem addChar_cases (nodes : List Node) (c : Char) :
    (∃ before data, nodes = before ++ [.text data] ∧
      addChar nodes c = before ++ [.text (data ++ [c])]) ∨
        addChar nodes c = nodes ++ [.text [c]] := by
  unfold addChar
  split
  · rename_i data h
    refine .inl ⟨nodes.dropLast, data, ?_, rfl⟩
    exact (List.dropLast_append_getLast? _ h).symm
  · exact .inr rfl

theorem specialIn_addChar (nodes : List Node) (c : Char) :
    specialIn (addChar nodes c) = specialIn nodes + special [c] := by
  rcases addChar_cases nodes c with ⟨before, data, rfl, h⟩ | h
  · simp [h, specialIn_append, specialIn, Node.special, special_append, Nat.add_assoc]
  · simp [h, specialIn_append, specialIn, Node.special]

theorem elements_addChar (nodes : List Node) (c : Char) :
    elements (addChar nodes c) = elements nodes := by
  rcases addChar_cases nodes c with ⟨before, data, rfl, h⟩ | h
  · simp [h, elements, Node.isElement]
  · simp [h, elements, Node.isElement]

theorem special_elements_le (nodes : List Node) : specialIn (elements nodes) ≤ specialIn nodes := by
  induction nodes with
  | nil => exact le_rfl
  | cons node nodes ih =>
    rw [elements, List.filter_cons]
    split_ifs
    · exact Nat.add_le_add_left ih _
    · exact ih.trans (Nat.le_add_left _ _)

namespace Browser

/-- How many of the characters that count have come into texts. -/
def loadOf : Mode b.State → ℕ
  | .inRow nodes => specialIn nodes
  | .inCell nodes data => specialIn nodes + special data
  | .other state => b.load state

theorem loadOf_next (mode : Mode b.State) (token : Token) :
    loadOf (b.next mode token) ≤ loadOf mode + token.special := by
  cases mode with
  | other state => exact b.load_step state token
  | inRow nodes =>
    cases token with
    | char c =>
      rw [next]
      split_ifs
      · exact Nat.le_add_right _ _
      · exact (specialIn_addChar nodes c).le
    | markup source =>
      rw [next]
      split_ifs
      · exact le_rfl
      · exact b.load_enter nodes none source
  | inCell nodes data =>
    cases token with
    | char c =>
      rw [next]
      split_ifs
      · exact Nat.le_add_right _ _
      · simp [loadOf, special_append, Token.special, Nat.add_assoc]
    | markup source =>
      rw [next]
      split_ifs
      · simp [loadOf, specialIn_append, specialIn_cell, Token.special]
      · exact b.load_enter nodes (some data) source

theorem loadOf_foldl (tokens : List Token) (mode : Mode b.State) :
    loadOf (tokens.foldl b.next mode) ≤ loadOf mode + (tokens.map Token.special).sum := by
  induction tokens generalizing mode with
  | nil => exact le_rfl
  | cons token tokens ih =>
    have hnext := loadOf_next mode token
    have hrest := ih (b.next mode token)
    rw [List.foldl_cons, List.map_cons, List.sum_cons]
    omega

theorem result_le (mode : Mode b.State) :
    hasOtherIn (b.result mode) = true ∨ specialIn (b.result mode) ≤ loadOf mode := by
  cases mode with
  | inRow nodes => exact .inr le_rfl
  | inCell nodes data =>
    rw [result, specialIn_append, specialIn_cell, loadOf]
    exact .inr le_rfl
  | other state => exact b.load_finish state

end Browser

/-- How many characters of a text can come into texts of the tree and count there. -/
def literals : Str → ℕ
  | [] => 0
  | c :: rest => (if c = '&' ∨ c = '<' ∧ Opens rest = false then 1 else 0) + literals rest

theorem chars_special (value : Str) :
    ((value.map Token.char).map Token.special).sum = special value := by
  induction value with
  | nil => rfl
  | cons c value ih =>
    rw [List.map_cons, List.map_cons, List.sum_cons, ih, Token.special, ← special_append]
    rfl

theorem run_step {mode : Mode b.State} {c : Char} {rest : Str}
    (h : b.switchedResult (c :: rest) mode = none) : b.run mode 0 (c :: rest) =
      b.run ((b.read c rest).2.foldl b.next mode) (b.read c rest).1 rest := by
  rw [Browser.run, h]

theorem read_opens {rest : Str} (h : Opens rest = true) (hslash : rest ≠ ['/']) :
    b.read '<' rest = (markupLength rest, [.markup ('<' :: rest.take (markupLength rest))]) :=
  if_pos ⟨rfl, h, hslash⟩

theorem read_ampersand (rest : Str) : b.read '&' rest = match reference b.names rest with
    | some (n, value) => (n, value.map .char)
    | none => (0, [.char '&']) := rfl

theorem read_char {c : Char} {rest : Str} (hlt : ¬ (c = '<' ∧ Opens rest = true)) (hamp : c ≠ '&') :
    b.read c rest = (0, [.char c]) := by
  rw [Browser.read, if_neg fun h ↦ hlt ⟨h.1, h.2.1⟩, if_neg hamp]

theorem read_special {c : Char} {rest : Str} (h : ¬ (c = '<' ∧ rest = ['/'])) :
    ((b.read c rest).2.map Token.special).sum + literals rest ≤ literals (c :: rest) := by
  rw [literals]
  refine Nat.add_le_add_right ?_ _
  by_cases hamp : c = '&'
  · subst hamp
    rw [if_pos (.inl rfl), read_ampersand]
    cases hr : reference b.names rest with
    | none => exact le_rfl
    | some r => exact (chars_special r.2).le.trans (reference_some hr).2.2.2
  · by_cases hopens : c = '<' ∧ Opens rest = true
    · obtain ⟨rfl, hopens⟩ := hopens
      rw [read_opens hopens fun hs ↦ h ⟨rfl, hs⟩]
      exact Nat.zero_le _
    · rw [read_char hopens hamp]
      by_cases hlt : c = '<'
      · rw [if_pos (.inr ⟨hlt, (Bool.not_eq_true _).mp fun ho ↦ hopens ⟨hlt, ho⟩⟩)]
        exact special_le_length [c]
      · simp [Token.special, special, hlt, hamp]

theorem run_special {s : Str} (h : ¬ ['<', '/'] <:+ s) (mode : Mode b.State) (n : ℕ) :
    hasOtherIn (b.run mode n s) = true ∨
      specialIn (b.run mode n s) ≤ Browser.loadOf mode + literals s := by
  induction s generalizing mode n with
  | nil =>
    rw [Browser.run]
    exact (Browser.result_le mode).imp_right fun hle ↦ hle.trans (Nat.le_add_right _ _)
  | cons c rest ih =>
    have hrest : ¬ ['<', '/'] <:+ rest := fun hs ↦ h (hs.trans (List.suffix_cons c rest))
    cases n with
    | succ n =>
      refine (ih hrest mode n).imp_right fun hle ↦ hle.trans (Nat.add_le_add_left ?_ _)
      exact Nat.le_add_left _ _
    | zero =>
      rw [Browser.run]
      split
      · rename_i nodes hswitched
        cases mode with
        | inRow | inCell => cases hswitched
        | other state =>
          rw [Browser.switchedResult] at hswitched
          split_ifs at hswitched with hs
          cases hswitched
          exact .inl (b.switched_other state _ hs)
      · have hstep := Browser.loadOf_foldl (b.read c rest).2 mode
        have hslash : ¬ (c = '<' ∧ rest = ['/']) := by
          rintro ⟨rfl, rfl⟩
          exact h List.suffix_rfl
        have hread := read_special (b := b) hslash
        refine (ih hrest _ _).imp_right fun hle ↦ ?_
        omega

end Counting

section Decoding

def Token.data : Token → Str
  | .char c => if c = '\x00' then [] else [c]
  | .markup _ => []

namespace Browser

/-- The text that a cell gets of a source without markup, with the characters still to skip. -/
def decode (b : Browser) : ℕ → Str → Str
  | _, [] => []
  | n + 1, _ :: rest => decode b n rest
  | 0, c :: rest => (b.read c rest).2.flatMap Token.data ++ decode b (b.read c rest).1 rest

end Browser

theorem read_append {c : Char} {rest : Str} (h : ¬ (c = '<' ∧ Opens rest = true)) (more : Str) :
    b.read c (rest ++ '<' :: more) = b.read c rest := by
  by_cases hamp : c = '&'
  · subst hamp
    rw [read_ampersand, read_ampersand, reference_append]
  · rw [read_char h hamp, read_char (by rwa [opens_append]) hamp]

/-- Outside of markup what is read are characters, and no more of them than were taken. -/
theorem read_cases {c : Char} {rest : Str} (h : ¬ (c = '<' ∧ Opens rest = true)) :
    b.read c rest = (0, [.char c]) ∧ (c = '&' → reference b.names rest = none) ∨
      ∃ n value, c = '&' ∧ reference b.names rest = some (n, value) ∧
        b.read c rest = (n, value.map .char) := by
  by_cases hamp : c = '&'
  · subst hamp
    rw [read_ampersand]
    cases hr : reference b.names rest with
    | none => exact .inl ⟨rfl, fun _ ↦ rfl⟩
    | some r => exact .inr ⟨r.1, r.2, rfl, rfl, rfl⟩
  · exact .inl ⟨read_char h hamp, fun hc ↦ absurd hc hamp⟩

theorem read_value {c : Char} {rest : Str} (h : ¬ (c = '<' ∧ Opens rest = true)) :
    ∃ (n : ℕ) (value : Str), b.read c rest = (n, value.map .char) ∧ n ≤ rest.length ∧
      value.length ≤ n + 1 := by
  rcases read_cases (b := b) h with ⟨hread, -⟩ | ⟨n, value, -, hr, hread⟩
  · exact ⟨0, [c], hread, Nat.zero_le _, le_rfl⟩
  · obtain ⟨hn, hle, hvalue, -⟩ := reference_some hr
    exact ⟨n, value, hread, hle, by omega⟩

theorem foldl_inCell (value : Str) (nodes : List Node) (data : Str) :
    (value.map Token.char).foldl b.next (.inCell nodes data) =
      .inCell nodes (data ++ (value.map Token.char).flatMap Token.data) := by
  induction value generalizing data with
  | nil => simp
  | cons c value ih =>
    rw [List.map_cons, List.foldl_cons, List.flatMap_cons, Browser.next, Token.data]
    split_ifs
    · rw [ih, List.nil_append]
    · rw [ih, List.append_assoc]

theorem data_length_le (value : Str) :
    ((value.map Token.char).flatMap Token.data).length ≤ value.length := by
  induction value with
  | nil => exact le_rfl
  | cons c value ih =>
    rw [List.map_cons, List.flatMap_cons, List.length_append, List.length_cons, Token.data]
    split_ifs
    · rw [List.length_nil]
      omega
    · rw [List.length_singleton]
      omega

/-- A text in which no `<` opens anything. -/
def Closed (s : Str) : Prop := ∀ rest, '<' :: rest <:+ s → Opens rest = false

theorem Closed.tail {c : Char} {s : Str} (h : Closed (c :: s)) : Closed s :=
  fun rest hrest ↦ h rest (hrest.trans (List.suffix_cons c s))

theorem Closed.head {c : Char} {s : Str} (h : Closed (c :: s)) :
    ¬ (c = '<' ∧ Opens s = true) := by
  rintro ⟨rfl, hopens⟩
  rw [h s List.suffix_rfl] at hopens
  cases hopens

theorem run_text {s : Str} (h : Closed s) (nodes : List Node) (data more : Str) {n : ℕ}
    (hn : n ≤ s.length) : b.run (.inCell nodes data) n (s ++ '<' :: more) =
      b.run (.inCell nodes (data ++ b.decode n s)) 0 ('<' :: more) := by
  induction s generalizing data n with
  | nil =>
    obtain rfl : n = 0 := Nat.le_zero.mp hn
    simp [Browser.decode]
  | cons c s ih =>
    cases n with
    | succ n => exact ih h.tail data (Nat.le_of_succ_le_succ hn)
    | zero =>
      rw [List.cons_append, run_step rfl, Browser.decode, read_append h.head]
      obtain ⟨n, value, hread, hle, -⟩ := read_value (b := b) h.head
      rw [hread, foldl_inCell, ih h.tail _ hle, List.append_assoc]

theorem decode_length_le {s : Str} (h : Closed s) {n : ℕ} (hn : n ≤ s.length) :
    (b.decode n s).length + n ≤ s.length := by
  induction s generalizing n with
  | nil => simpa [Browser.decode] using hn
  | cons c s ih =>
    cases n with
    | succ n =>
      have := ih h.tail (Nat.le_of_succ_le_succ hn)
      rw [Browser.decode, List.length_cons]
      omega
    | zero =>
      rw [Browser.decode, List.length_append, List.length_cons]
      obtain ⟨n, value, hread, hle, hvalue⟩ := read_value (b := b) h.head
      have hdata := data_length_le value
      have hrest := ih h.tail hle
      rw [hread]
      dsimp only
      omega

/-- A text that is decoded to one as long as itself is decoded to itself. -/
theorem decode_eq_of_length {s : Str} (h : Closed s) (hs : (b.decode 0 s).length = s.length) :
    b.decode 0 s = s ∧ '\x00' ∉ s ∧ ∀ rest, '&' :: rest <:+ s → reference b.names rest = none := by
  induction s with
  | nil => exact ⟨rfl, List.not_mem_nil, fun rest hrest ↦ by simp at hrest⟩
  | cons c s ih =>
    rw [Browser.decode, List.length_append, List.length_cons] at hs
    rw [Browser.decode]
    rcases read_cases (b := b) h.head with ⟨hread, hamp⟩ | ⟨n, value, -, hr, hread⟩
    · have hle := decode_length_le (b := b) h.tail (Nat.zero_le _)
      rw [hread] at hs ⊢
      simp only [List.flatMap_cons, List.flatMap_nil, List.append_nil, Token.data] at hs ⊢
      split_ifs at hs ⊢ with hc
      · rw [List.length_nil] at hs
        omega
      · rw [List.length_singleton] at hs
        obtain ⟨heq, hnul, href⟩ := ih h.tail (by omega)
        refine ⟨by rw [heq]; rfl, fun hmem ↦ ?_, fun rest hrest ↦ ?_⟩
        · rcases List.mem_cons.mp hmem with hmem | hmem
          · exact hc hmem.symm
          · exact hnul hmem
        · rcases List.suffix_cons_iff.mp hrest with heq | hrest
          · obtain ⟨rfl, rfl⟩ := List.cons.inj heq
            exact hamp rfl
          · exact href rest hrest
    · obtain ⟨hn, hle, hvalue, -⟩ := reference_some hr
      have hdata := data_length_le value
      have hrest := decode_length_le (b := b) h.tail hle
      rw [hread] at hs
      simp only at hs
      omega

theorem decode_plain {s : Str} (hnul : '\x00' ∉ s) (h : Closed s)
    (href : ∀ rest, '&' :: rest <:+ s → reference b.names rest = none) : b.decode 0 s = s := by
  induction s with
  | nil => rfl
  | cons c s ih =>
    obtain ⟨hc, hnul⟩ := not_or.mp (mt List.mem_cons.mpr hnul)
    have hs := ih hnul h.tail fun rest hrest ↦ href rest (hrest.trans (List.suffix_cons c s))
    rw [Browser.decode]
    rcases read_cases (b := b) h.head with ⟨hread, -⟩ | ⟨n, value, rfl, hr, -⟩
    · rw [hread]
      simp [Token.data, Ne.symm hc, hs]
    · rw [href s List.suffix_rfl] at hr
      cases hr

end Decoding

section Literals

theorem literals_append (s more : Str) :
    literals (s ++ '<' :: more) = literals s + literals ('<' :: more) := by
  induction s with
  | nil => simp [literals]
  | cons c s ih => rw [List.cons_append, literals, literals, opens_append, ih, Nat.add_assoc]

theorem special_cons (c : Char) (s : Str) : special (c :: s) = special [c] + special s :=
  special_append [c] s

theorem literal_le (c : Char) (rest : Str) :
    (if c = '&' ∨ c = '<' ∧ Opens rest = false then 1 else 0) ≤ special [c] := by
  split_ifs with h
  · rcases h with rfl | ⟨rfl, -⟩ <;> rfl
  · exact Nat.zero_le _

theorem literals_le (s : Str) : literals s ≤ special s := by
  induction s with
  | nil => exact le_rfl
  | cons c s ih =>
    rw [literals, special_cons]
    exact Nat.add_le_add (literal_le c s) ih

theorem closed_of_literals {s : Str} (h : literals s = special s) : Closed s := by
  induction s with
  | nil => exact fun rest hrest ↦ by simp at hrest
  | cons c s ih =>
    have hle := literals_le s
    have hcons := literal_le c s
    rw [literals, special_cons] at h
    intro rest hrest
    rcases List.suffix_cons_iff.mp hrest with heq | hrest
    · obtain ⟨rfl, rfl⟩ := List.cons.inj heq
      have hone : special ['<'] = 1 := rfl
      by_contra hopens
      rw [if_neg (by simpa using hopens)] at h
      omega
    · exact ih (by omega) rest hrest

end Literals

section Newlines

theorem normalizeNewlines_cons {c : Char} (hc : c ≠ '\r') (s : Str) :
    normalizeNewlines (c :: s) = c :: normalizeNewlines s :=
  normalizeNewlines.eq_4 c s (fun _ h _ ↦ hc h) (fun h ↦ hc h)

theorem normalizeNewlines_append {w : Str} (hw : '\r' ∉ w) (s : Str) :
    normalizeNewlines (w ++ s) = w ++ normalizeNewlines s := by
  induction w with
  | nil => rfl
  | cons c w ih =>
    obtain ⟨hc, hw⟩ := not_or.mp (mt List.mem_cons.mpr hw)
    rw [List.cons_append, normalizeNewlines_cons (Ne.symm hc), ih hw, List.cons_append]

theorem normalizeNewlines_eq {s : Str} (h : '\r' ∉ s) : normalizeNewlines s = s := by
  have happend := normalizeNewlines_append h []
  rwa [normalizeNewlines, List.append_nil] at happend

theorem normalizeNewlines_append_stop (s more : Str) :
    normalizeNewlines (s ++ '<' :: more) =
      normalizeNewlines s ++ '<' :: normalizeNewlines more := by
  fun_induction normalizeNewlines s with
  | case1 => exact normalizeNewlines_cons (by decide) more
  | case2 s ih =>
    rw [List.cons_append, List.cons_append, normalizeNewlines, ih, List.cons_append]
  | case3 s hs ih =>
    rw [List.cons_append, normalizeNewlines.eq_3, ih, List.cons_append]
    exact fun s' h ↦ (head_of_append (by decide) h).elim hs
  | case4 c s _ hc ih =>
    rw [List.cons_append, normalizeNewlines_cons hc, ih, List.cons_append]

theorem normalizeNewlines_length_le (s : Str) : (normalizeNewlines s).length ≤ s.length := by
  fun_induction normalizeNewlines s with
  | case1 => exact le_rfl
  | case2 s ih =>
    simp only [List.length_cons]
    omega
  | case3 | case4 =>
    simp only [List.length_cons]
    omega

theorem cr_notMem_normalizeNewlines (s : Str) : '\r' ∉ normalizeNewlines s := by
  fun_induction normalizeNewlines s with
  | case1 => exact List.not_mem_nil
  | case2 s ih => simpa using ih
  | case3 s hs ih => simpa using ih
  | case4 c s _ hc ih => exact fun h ↦ (List.mem_cons.mp h).elim (fun h ↦ hc h.symm) ih

theorem special_normalizeNewlines (s : Str) : special (normalizeNewlines s) = special s := by
  fun_induction normalizeNewlines s with
  | case1 => rfl
  | case2 s ih => simpa [special] using ih
  | case3 s hs ih => simpa [special] using ih
  | case4 c s h1 h2 ih => simp only [special, List.countP_cons] at ih ⊢; rw [ih]

end Newlines

section Row

/-- Spaces and line feeds, as stand between the cells of a row. -/
def Blank (w : Str) : Prop := ∀ c ∈ w, c = ' ' ∨ c = '\n'

/-- The source of a row of cells, each behind a separator. -/
def rowSource (sep tail : Str) (fields : List Str) : Str :=
  fields.flatMap (fun field ↦ sep ++ "<td>".toList ++ field ++ "</td>".toList) ++ tail

variable {sep tail : Str}

theorem rowSource_cons (field : Str) (fields : List Str) : rowSource sep tail (field :: fields) =
    sep ++ ("<td>".toList ++ (field ++ '<' :: ("/td>".toList ++ rowSource sep tail fields))) := by
  simp [rowSource]

theorem Blank.notMem {w : Str} (h : Blank w) {c : Char} (hs : c ≠ ' ') (hn : c ≠ '\n') : c ∉ w :=
  fun hc ↦ (h c hc).elim hs hn

theorem normalizeNewlines_rowSource (hsep : Blank sep) (htail : Blank tail) (fields : List Str) :
    normalizeNewlines (rowSource sep tail fields) =
      rowSource sep tail (fields.map normalizeNewlines) := by
  induction fields with
  | nil =>
    have h := normalizeNewlines_append (htail.notMem (by decide) (by decide)) []
    simpa [rowSource, normalizeNewlines] using h
  | cons field fields ih =>
    rw [List.map_cons, rowSource_cons, rowSource_cons,
      normalizeNewlines_append (hsep.notMem (by decide) (by decide)),
      normalizeNewlines_append (by decide), normalizeNewlines_append_stop,
      normalizeNewlines_append (by decide), ih]

theorem literals_blank {w : Str} (h : Blank w) (s : Str) : literals (w ++ s) = literals s := by
  induction w with
  | nil => rfl
  | cons c w ih =>
    obtain ⟨hc, hw⟩ := List.forall_mem_cons.mp h
    rw [List.cons_append, literals, ih hw]
    rcases hc with rfl | rfl <;> simp

theorem literals_rowSource (hsep : Blank sep) (htail : Blank tail) (fields : List Str) :
    literals (rowSource sep tail fields) = (fields.map literals).sum := by
  induction fields with
  | nil => simpa [rowSource, literals] using literals_blank htail []
  | cons field fields ih =>
    rw [rowSource_cons, literals_blank hsep, List.map_cons, List.sum_cons]
    have hopen (s : Str) : literals ("<td>".toList ++ s) = literals s := by
      simp [literals, Opens]
    have hclose (s : Str) : literals ('<' :: ("/td>".toList ++ s)) = literals s := by
      simp [literals, Opens]
    rw [hopen, literals_append, hclose, ih]

theorem rowSource_getLast (htail : Blank tail) (fields : List Str) :
    (rowSource sep tail fields).getLast? ≠ some '/' := by
  induction fields with
  | nil =>
    intro h
    have hmem : '/' ∈ tail := List.mem_of_getLast? (by simpa [rowSource] using h)
    exact htail.notMem (by decide) (by decide) hmem
  | cons field fields ih =>
    have hcons : rowSource sep tail (field :: fields) =
        (sep ++ "<td>".toList ++ field ++ "</td>".toList) ++ rowSource sep tail fields := by
      simp [rowSource]
    rw [hcons, List.getLast?_append]
    cases h : (rowSource sep tail fields).getLast? with
    | none =>
      rw [Option.none_or, List.getLast?_append]
      exact fun h ↦ (by cases h)
    | some c =>
      rw [h] at ih
      simpa using ih

theorem run_blank {w : Str} (h : Blank w) (nodes : List Node) (s : Str) :
    b.run (.inRow nodes) 0 (w ++ s) = b.run (.inRow (w.foldl addChar nodes)) 0 s := by
  induction w generalizing nodes with
  | nil => rfl
  | cons c w ih =>
    obtain ⟨hc, hw⟩ := List.forall_mem_cons.mp h
    have hread : b.read c (w ++ s) = (0, [.char c]) :=
      read_char (fun ⟨hlt, _⟩ ↦ by rcases hc with rfl | rfl <;> cases hlt)
        (by rintro rfl; rcases hc with hc | hc <;> cases hc)
    have hnext : b.next (.inRow nodes) (.char c) = .inRow (addChar nodes c) :=
      if_neg (by rintro rfl; rcases hc with hc | hc <;> cases hc)
    rw [List.cons_append, run_step rfl, hread, List.foldl_cons, List.foldl_nil, hnext]
    exact ih hw _

theorem elements_blank (w : Str) (nodes : List Node) :
    elements (w.foldl addChar nodes) = elements nodes := by
  induction w generalizing nodes with
  | nil => rfl
  | cons c w ih => rw [List.foldl_cons, ih, elements_addChar]

theorem run_open (nodes : List Node) (s : Str) :
    b.run (.inRow nodes) 0 ("<td>".toList ++ s) = b.run (.inCell nodes []) 0 s := by
  have hread : b.read '<' ('t' :: 'd' :: '>' :: s) = (3, [.markup "<td>".toList]) := by
    rw [read_opens rfl (by simp)]
    rfl
  rw [show "<td>".toList ++ s = '<' :: 't' :: 'd' :: '>' :: s from rfl, run_step rfl, hread]
  rfl

theorem run_close (nodes : List Node) (data s : Str) :
    b.run (.inCell nodes data) 0 ('<' :: ("/td>".toList ++ s)) =
      b.run (.inRow (nodes ++ [cell data])) 0 s := by
  have hread : b.read '<' ('/' :: 't' :: 'd' :: '>' :: s) = (4, [.markup "</td>".toList]) := by
    rw [read_opens rfl (by simp)]
    rfl
  rw [show "/td>".toList ++ s = '/' :: 't' :: 'd' :: '>' :: s from rfl, run_step rfl, hread]
  rfl

/-- A row whose fields open no markup has a cell for each of them. -/
theorem run_rowSource (hsep : Blank sep) (htail : Blank tail) {fields : List Str}
    (h : ∀ field ∈ fields, Closed field) (nodes : List Node) :
    elements (b.run (.inRow nodes) 0 (rowSource sep tail fields)) =
      elements nodes ++ fields.map (fun field ↦ cell (b.decode 0 field)) := by
  induction fields generalizing nodes with
  | nil =>
    have hrun := run_blank (b := b) htail nodes []
    rw [List.append_nil, Browser.run, Browser.result] at hrun
    simp only [rowSource, List.flatMap_nil, List.nil_append, List.map_nil, List.append_nil]
    rw [hrun, elements_blank]
  | cons field fields ih =>
    obtain ⟨hfield, hfields⟩ := List.forall_mem_cons.mp h
    rw [rowSource_cons, run_blank hsep, run_open, run_text hfield _ _ _ (Nat.zero_le _),
      List.nil_append, run_close, ih hfields]
    have hcell (nodes : List Node) (data : Str) :
        elements (nodes ++ [cell data]) = elements nodes ++ [cell data] := by
      simp [elements, cell, Node.isElement]
    rw [hcell, elements_blank, List.map_cons, List.append_assoc, List.singleton_append]

theorem cell_inj {s t : Str} (h : cell s = cell t) : s = t := by
  simp only [cell, Node.element.injEq, true_and] at h
  split_ifs at h with hs ht ht
  · rw [hs, ht]
  · exact Node.text.inj (List.cons.inj h).1

theorem hasOther_elements (nodes : List Node) : hasOtherIn (elements nodes) = hasOtherIn nodes := by
  induction nodes with
  | nil => rfl
  | cons node nodes ih =>
    rw [elements] at ih ⊢
    cases node with
    | text data | comment data => simpa [Node.isElement, hasOtherIn, Node.hasOther] using ih
    | element name attributes children =>
      rw [List.filter_cons_of_pos rfl, hasOtherIn, hasOtherIn, ih]

theorem hasOther_cells (fields : List Str) : hasOtherIn (fields.map cell) = false := by
  induction fields with
  | nil => rfl
  | cons field fields ih =>
    rw [List.map_cons, hasOtherIn, ih, Bool.or_false, cell]
    split_ifs <;> simp [Node.hasOther, hasOtherIn]

theorem special_cells (fields : List Str) :
    specialIn (fields.map cell) = (fields.map special).sum := by
  induction fields with
  | nil => rfl
  | cons field fields ih =>
    rw [List.map_cons, List.map_cons, List.sum_cons, ← ih, ← specialIn_cell field,
      ← specialIn_append, List.singleton_append]

theorem eq_of_sum_le {α : Type} {l : List α} {f g : α → ℕ} (hle : ∀ x ∈ l, f x ≤ g x)
    (hsum : (l.map g).sum ≤ (l.map f).sum) : ∀ x ∈ l, f x = g x := by
  induction l with
  | nil => exact fun x hx ↦ (by cases hx)
  | cons x l ih =>
    obtain ⟨hx, hl⟩ := List.forall_mem_cons.mp hle
    have hrest := List.sum_le_sum hl
    rw [List.map_cons, List.map_cons, List.sum_cons, List.sum_cons] at hsum
    exact List.forall_mem_cons.mpr ⟨by omega, ih hl (by omega)⟩

/-- What shows a row of cells as it is has met no markup in them. -/
theorem closed_of_elements (hsep : Blank sep) (htail : Blank tail) {fields : List Str}
    (h : elements (b.parse (rowSource sep tail fields)) = fields.map cell) :
    ∀ field ∈ fields, Closed (normalizeNewlines field) := by
  rw [Browser.parse, normalizeNewlines_rowSource hsep htail] at h
  generalize hsource : rowSource sep tail (fields.map normalizeNewlines) = source at h
  have hother : hasOtherIn (b.run (.inRow []) 0 source) = false := by
    rw [← hasOther_elements, h, hasOther_cells]
  have hgetLast : source.getLast? ≠ some '/' := hsource ▸ rowSource_getLast htail _
  have hlast : ¬ ['<', '/'] <:+ source := by
    rintro ⟨before, hbefore⟩
    refine hgetLast ?_
    rw [← hbefore, List.getLast?_append]
    rfl
  have hsum : (fields.map special).sum ≤
      (fields.map (fun field ↦ literals (normalizeNewlines field))).sum :=
    calc (fields.map special).sum
      _ = specialIn (elements (b.run (.inRow []) 0 source)) := by rw [h, special_cells]
      _ ≤ specialIn (b.run (.inRow []) 0 source) := special_elements_le _
      _ ≤ 0 + literals source := (run_special hlast (.inRow []) 0).resolve_left (by simp [hother])
      _ = (fields.map (fun field ↦ literals (normalizeNewlines field))).sum := by
        rw [← hsource, literals_rowSource hsep htail, List.map_map, Nat.zero_add]
        rfl
  have hle (field : Str) : literals (normalizeNewlines field) ≤ special field :=
    (literals_le _).trans_eq (special_normalizeNewlines field)
  intro field hfield
  refine closed_of_literals ?_
  rw [special_normalizeNewlines]
  exact eq_of_sum_le (fun field _ ↦ hle field) hsum field hfield

theorem parse_rowSource (hsep : Blank sep) (htail : Blank tail) {fields : List Str}
    (h : ∀ field ∈ fields, Closed (normalizeNewlines field)) :
    elements (b.parse (rowSource sep tail fields)) =
      fields.map (fun field ↦ cell (b.decode 0 (normalizeNewlines field))) := by
  rw [Browser.parse, normalizeNewlines_rowSource hsep htail,
    run_rowSource hsep htail (by simpa using h), List.map_map]
  rfl

theorem plain_of_decode {field : Str} (h : Closed (normalizeNewlines field))
    (heq : b.decode 0 (normalizeNewlines field) = field) : b.Plain field := by
  have hdecode := decode_length_le (b := b) h (Nat.zero_le _)
  have hnormalize := normalizeNewlines_length_le field
  rw [heq] at hdecode
  have hlength :
      (b.decode 0 (normalizeNewlines field)).length = (normalizeNewlines field).length := by
    rw [heq]
    omega
  obtain ⟨hsame, hnul, href⟩ := decode_eq_of_length h hlength
  have hfield : normalizeNewlines field = field := hsame.symm.trans heq
  have hcr := cr_notMem_normalizeNewlines field
  rw [hfield] at h hnul href hcr
  exact ⟨hcr, hnul, h, href⟩

/-- A row of cells shows its fields as they are just when each of them stands for itself. -/
theorem parse_rowSource_iff (hsep : Blank sep) (htail : Blank tail) (fields : List Str) :
    elements (b.parse (rowSource sep tail fields)) = fields.map cell ↔
      ∀ field ∈ fields, b.Plain field := by
  constructor
  · intro h field hfield
    have hclosed := closed_of_elements hsep htail h
    rw [parse_rowSource hsep htail hclosed, List.map_inj_left] at h
    exact plain_of_decode (hclosed field hfield) (cell_inj (h field hfield))
  · intro h
    have hsame (field : Str) (hfield : field ∈ fields) : normalizeNewlines field = field :=
      normalizeNewlines_eq (h field hfield).newlines
    rw [parse_rowSource hsep htail, List.map_inj_left]
    · intro field hfield
      have hplain := h field hfield
      rw [hsame field hfield, decode_plain hplain.controls hplain.markup hplain.references]
    · intro field hfield
      rw [hsame field hfield]
      exact (h field hfield).markup

end Row

end ServiceSystem.Foundations.Markup
