import ServiceSystem.Nlohmann.Reread

namespace ServiceSystem.Nlohmann

open Foundations

section Bytes

/-- The bytes of a text, of which the characters here stand for one each. -/
def IsBytes (s : Str) : Prop := ∀ c ∈ s, c.toNat < 256

theorem isBytes_append {s t : Str} (hs : IsBytes s) (ht : IsBytes t) : IsBytes (s ++ t) :=
  List.forall_mem_append.mpr ⟨hs, ht⟩

theorem isBytes_of_steps {state : Utf8.State} {s : Str} (h : s.foldl Utf8.step state = .accept) :
    IsBytes s := by
  induction s generalizing state with
  | nil => exact nofun
  | cons c s ih =>
    rw [List.foldl_cons] at h
    refine List.forall_mem_cons.mpr ⟨?_, ih h⟩
    by_contra hlarge
    have hascii : ¬ c.toNat < 0x80 := by omega
    have houtside : ∀ lo hi, hi < 256 → Utf8.between lo hi c = false := by
      intro lo hi hhi
      simp only [Utf8.between, Bool.and_eq_false_iff, decide_eq_false_iff_not]
      omega
    have hreject : Utf8.step state c = .reject := by
      cases state <;> simp [Utf8.step, hascii, houtside]
    rw [hreject, foldl_reject] at h
    cases h

theorem isBytes_of_valid {s : Str} (h : Utf8.Valid s) : IsBytes s := isBytes_of_steps h

theorem isBytes_bytesOf {n : ℕ} (hn : n < 0x110000) : IsBytes (bytesOf n) := by
  have hbyte : ∀ {b : ℕ}, b < 0x100 → (Char.ofNat b).toNat < 256 := by
    intro b hb
    rw [toNat_ofNat hb]
    exact hb
  intro c hc
  unfold bytesOf at hc
  split_ifs at hc <;> simp only [List.mem_cons, List.not_mem_nil, or_false] at hc
  · rw [hc]
    exact hbyte (by omega)
  · rcases hc with rfl | rfl <;> exact hbyte (by omega)
  · rcases hc with rfl | rfl | rfl <;> exact hbyte (by omega)
  · rcases hc with rfl | rfl | rfl | rfl <;> exact hbyte (by omega)

/-- What a token brings into a value. -/
def Token.Representable : Token → Prop
  | .value_string s => IsBytes s
  | .value_unsigned n => n < 2 ^ 64
  | .value_integer n => -2 ^ 63 ≤ n ∧ n < 2 ^ 63
  | .value_float (some q) => toDouble q = some q
  | _ => True

def Read.Representable : Read → Prop
  | .more _ l => IsBytes l.token_buffer
  | .token t l | .ungot t l => t.Representable ∧ IsBytes l.token_buffer

variable {l : Lexer} {c : Option Char}

theorem fail_representable (h : IsBytes l.token_buffer) (error_message : Str) :
    (l.fail error_message).Representable := ⟨trivial, h⟩

theorem isBytes_add (h : IsBytes l.token_buffer) {x : Char} (hx : x.toNat < 256) :
    IsBytes (l.add x).token_buffer :=
  isBytes_append h (by simpa [IsBytes] using hx)

theorem ofSum_ite_representable {p : Prop} [Decidable p] {r r' : (Scan ⊕ Token) × Lexer}
    (h : (Read.ofSum r).Representable) (h' : (Read.ofSum r').Representable) :
    (Read.ofSum (if p then r else r')).Representable := by
  split
  · exact h
  · exact h'

theorem skip_whitespace_representable (h : IsBytes l.token_buffer)
    (hc : ∀ x ∈ c, x.toNat < 256) : (Read.ofSum (l.skip_whitespace c)).Representable := by
  cases c with
  | none => exact ⟨trivial, h⟩
  | some c =>
    have hempty : IsBytes [] := by simp [IsBytes]
    have hadd : ∀ x : Char, x.toNat < 256 → IsBytes ((l.reset x).add x).token_buffer :=
      fun x hx ↦ isBytes_add hempty hx
    rw [Lexer.skip_whitespace]
    repeat' apply ofSum_ite_representable
    all_goals first
      | exact ⟨trivial, h⟩
      | exact h
      | exact hempty
      | exact hadd _ (hc _ rfl)

theorem continue_bom_representable (h : IsBytes l.token_buffer) (expected : Char) (scan : Scan)
    (c : Option Char) : (l.continue_bom expected scan c).Representable := by
  unfold Lexer.continue_bom
  split_ifs
  · exact h
  · exact fail_representable h _

theorem skip_bom_representable (h : IsBytes l.token_buffer) (hc : ∀ x ∈ c, x.toNat < 256) :
    (l.skip_bom c).Representable := by
  unfold Lexer.skip_bom
  split_ifs
  · exact h
  · apply skip_whitespace_representable _ hc
    rw [get_token_buffer]
    exact h

theorem next_byte_representable (h : IsBytes l.token_buffer) (state : Utf8.State)
    (hc : ∀ x ∈ c, x.toNat < 256) : (l.next_byte_in_range state c).Representable := by
  cases c with
  | none => exact fail_representable h _
  | some c =>
    rw [Lexer.next_byte_in_range]
    split
    · exact isBytes_add h (hc _ rfl)
    · exact fail_representable h _
    · exact isBytes_add h (hc _ rfl)

theorem scan_string_representable (h : IsBytes l.token_buffer) (hc : ∀ x ∈ c, x.toNat < 256) :
    (l.scan_string c).Representable := by
  cases c with
  | none => exact fail_representable h _
  | some c =>
    rw [Lexer.scan_string]
    split_ifs
    · exact ⟨h, h⟩
    · exact h
    · exact fail_representable h _
    · exact next_byte_representable h .accept hc

theorem scan_escape_representable (h : IsBytes l.token_buffer) (c : Option Char) :
    (l.scan_escape c).Representable := by
  unfold Lexer.scan_escape
  split
  · exact h
  · split
    · rename_i hx
      obtain ⟨_, -, hx⟩ := Option.bind_eq_some_iff.mp hx
      apply isBytes_add h
      unfold unescape at hx
      split_ifs at hx with hself <;> cases hx
      · rcases hself with rfl | rfl | rfl <;> decide
      all_goals decide
    · exact fail_representable h _

theorem codepoint_representable (h : IsBytes l.token_buffer) (high : Option HighSurrogate) {n : ℕ}
    (hn : n < 0x10000) : (l.codepoint high n).Representable := by
  unfold Lexer.codepoint
  split
  · rename_i high
    have hhigh := high.2
    split_ifs
    · exact isBytes_append h (isBytes_bytesOf (by omega))
    · exact fail_representable h _
  · split_ifs
    · exact h
    · exact fail_representable h _
    · exact isBytes_append h (isBytes_bytesOf (by omega))

theorem get_codepoint_representable (h : IsBytes l.token_buffer) (high : Option HighSurrogate)
    (digits : List (Fin 16)) (c : Option Char) :
    (l.get_codepoint high digits c).Representable := by
  unfold Lexer.get_codepoint
  split
  · exact fail_representable h _
  · refine codepoint_representable h high ?_
    unfold codepointOf
    omega
  · exact h

theorem scan_surrogate_representable (h : IsBytes l.token_buffer) (high : HighSurrogate)
    (backslash : Bool) (c : Option Char) : (l.scan_surrogate high backslash c).Representable := by
  unfold Lexer.scan_surrogate
  split_ifs <;> first | exact h | exact fail_representable h _

theorem value_float_representable (text : Str) :
    (Token.value_float (strtod text)).Representable := by
  cases h : strtod text with
  | none => trivial
  | some q => exact toDouble_toDouble h

theorem numberToken_representable (type : NumberType) (text : Str) :
    (numberToken type text).Representable := by
  cases type with
  | value_unsigned =>
    rw [numberToken]
    split_ifs with hsize
    · exact hsize
    · exact value_float_representable text
  | value_integer =>
    rw [numberToken]
    split_ifs with hsize
    · refine ⟨?_, ?_⟩ <;> omega
    · exact value_float_representable text
  | value_float => exact value_float_representable text

theorem scan_number_representable (h : IsBytes l.token_buffer) (state : NumberState)
    (type : NumberType) (hc : ∀ x ∈ c, x.toNat < 256) :
    (l.scan_number state type c).Representable := by
  unfold Lexer.scan_number
  split
  · exact isBytes_add h (hc _ rfl)
  · exact fail_representable h _
  · exact ⟨numberToken_representable type l.token_buffer, h⟩

theorem scan_literal_representable (h : IsBytes l.token_buffer) (which : Literal) (i : ℕ)
    (c : Option Char) : (l.scan_literal which i c).Representable := by
  unfold Lexer.scan_literal
  split_ifs
  · cases which <;> exact ⟨trivial, h⟩
  · exact h
  · exact fail_representable h _

theorem read_representable (scan : Scan) (h : IsBytes l.token_buffer)
    (hc : ∀ x ∈ c, x.toNat < 256) : (scan.read l c).Representable := by
  cases scan with
  | bom0 => exact skip_bom_representable h hc
  | bom1 | bom2 => exact continue_bom_representable h _ _ c
  | whitespace => exact skip_whitespace_representable h hc
  | literal which i => exact scan_literal_representable h which i c
  | string => exact scan_string_representable h hc
  | escape => exact scan_escape_representable h c
  | codepoint high digits => exact get_codepoint_representable h high digits c
  | surrogate high backslash => exact scan_surrogate_representable h high backslash c
  | tail state => exact next_byte_representable h state hc
  | number state type => exact scan_number_representable h state type hc

end Bytes

section Values

theorem itemsRepresentable_iff {items : List Json} :
    ItemsRepresentable items ↔ ∀ item ∈ items, Representable item := by
  induction items with
  | nil => simp [ItemsRepresentable]
  | cons item items ih => rw [ItemsRepresentable, ih, List.forall_mem_cons]

theorem entriesRepresentable_iff {entries : List (Str × Json)} :
    EntriesRepresentable entries ↔ ∀ e ∈ entries, IsBytes e.1 ∧ Representable e.2 := by
  induction entries with
  | nil => simp [EntriesRepresentable]
  | cons e entries ih =>
    obtain ⟨key, v⟩ := e
    rw [EntriesRepresentable, ih, List.forall_mem_cons, and_assoc, IsBytes]

theorem upsertIn_representable {entries : List (Str × Json)} {key : Str} {v : Json}
    (h : Representable (.object entries)) (hkey : IsBytes key) (hv : Representable v) :
    Representable (.object (OrderedMap.upsertIn key (fun _ ↦ v) entries)) := by
  refine ⟨OrderedMap.upsertIn_sorted key _ h.1, entriesRepresentable_iff.mpr ?_⟩
  intro e he
  rcases OrderedMap.mem_upsertIn he with ⟨_, rfl⟩ | he
  · exact ⟨hkey, hv⟩
  · exact entriesRepresentable_iff.mp h.2 e he

theorem object_nil_representable : Representable (.object []) := ⟨List.Pairwise.nil, trivial⟩

theorem ofEntries_representable {entries : List (Str × Json)}
    (h : ∀ e ∈ entries, IsBytes e.1 ∧ Representable e.2) :
    Representable (Json.ofEntries entries) :=
  List.foldlRecOn (motive := fun es : List (Str × Json) ↦ Representable (.object es)) entries _
    object_nil_representable fun _ hes e he ↦ upsertIn_representable hes (h e he).1 (h e he).2

def Frame.Representable : Frame → Prop
  | .array items => ItemsRepresentable items
  | .object entries key => Nlohmann.Representable (.object entries) ∧ IsBytes key

def Expecting.Representable : Expecting → Prop
  | .value | .firstKey | .firstItem => True
  | .separator entries key => Nlohmann.Representable (.object entries) ∧ IsBytes key
  | .endArray items => ItemsRepresentable items
  | .endObject entries | .nextKey entries => Nlohmann.Representable (.object entries)
  | .endOfInput result => Nlohmann.Representable result

def Result.Representable (result : Except Str Json) : Prop :=
  ∀ j, result = .ok j → Nlohmann.Representable j

def Turn.Representable : Turn → Prop
  | .expects expecting stack => expecting.Representable ∧ ∀ frame ∈ stack, frame.Representable
  | .stopped result => Result.Representable result

def Progress.Representable : Progress → Prop
  | .running p => (p.expecting.Representable ∧ ∀ frame ∈ p.stack, frame.Representable) ∧
      IsBytes p.lexer.token_buffer
  | .stopped result => Result.Representable result

variable {stack : List Frame} {l : Lexer} {t : Token}

theorem unexpected_representable (l : Lexer) (t : Token) (expected : TokenType) (context : Str) :
    (l.unexpected t expected context).Representable := by
  intro _ h
  cases h

theorem complete_representable {v : Json} (hv : Representable v)
    (hstack : ∀ frame ∈ stack, frame.Representable) : (complete v stack).Representable := by
  cases stack with
  | nil => exact ⟨hv, hstack⟩
  | cons frame stack =>
    obtain ⟨hframe, hrest⟩ := List.forall_mem_cons.mp hstack
    cases frame with
    | array items =>
      refine ⟨itemsRepresentable_iff.mpr (List.forall_mem_append.mpr ⟨?_, ?_⟩), hrest⟩
      · exact itemsRepresentable_iff.mp hframe
      · simpa using hv
    | object entries key => exact ⟨upsertIn_representable hframe.1 hframe.2 hv, hrest⟩

theorem parse_value_representable (ht : t.Representable)
    (hstack : ∀ frame ∈ stack, frame.Representable) :
    (parse_value stack t l).Representable := by
  cases t with
  | begin_object | begin_array => exact ⟨trivial, hstack⟩
  | value_float q =>
    cases q with
    | none =>
      intro _ h
      cases h
    | some q => exact complete_representable (v := .number_float q) ht hstack
  | literal_false => exact complete_representable (v := .boolean false) trivial hstack
  | literal_null => exact complete_representable (v := .null) trivial hstack
  | literal_true => exact complete_representable (v := .boolean true) trivial hstack
  | value_integer n => exact complete_representable (v := .number_integer n) ht hstack
  | value_unsigned n => exact complete_representable (v := .number_unsigned n) ht hstack
  | value_string s => exact complete_representable (v := .string s) ht hstack
  | parse_error | end_array | end_object | name_separator | value_separator =>
    exact unexpected_representable l _ _ _
  | end_of_input =>
    rw [parse_value]
    split
    · intro _ h
      cases h
    · exact unexpected_representable l _ _ _

theorem turn_representable {expecting : Expecting} (hexpecting : expecting.Representable)
    (ht : t.Representable) (hstack : ∀ frame ∈ stack, frame.Representable) :
    (expecting.turn stack t l).Representable := by
  have hvalue : ∀ frame : Frame, frame.Representable →
      ∀ f ∈ frame :: stack, f.Representable := by
    intro frame hframe
    exact List.forall_mem_cons.mpr ⟨hframe, hstack⟩
  unfold Expecting.turn
  split
  · exact parse_value_representable ht hstack
  · exact complete_representable object_nil_representable hstack
  · exact ⟨⟨object_nil_representable, ht⟩, hstack⟩
  · exact unexpected_representable l _ _ _
  · exact ⟨trivial, hvalue _ hexpecting⟩
  · exact unexpected_representable l _ _ _
  · exact complete_representable (v := .array []) trivial hstack
  · exact parse_value_representable ht (hvalue (.array []) trivial)
  · exact ⟨trivial, hvalue _ hexpecting⟩
  · exact complete_representable (v := .array _) hexpecting hstack
  · exact unexpected_representable l _ _ _
  · exact ⟨hexpecting, hstack⟩
  · exact complete_representable hexpecting hstack
  · exact unexpected_representable l _ _ _
  · exact ⟨⟨hexpecting, ht⟩, hstack⟩
  · exact unexpected_representable l _ _ _
  · rintro _ ⟨⟩
    exact hexpecting
  · exact unexpected_representable l _ _ _

theorem resume_representable {turn : Turn} (h : turn.Representable)
    (hl : IsBytes l.token_buffer) : (turn.resume l).Representable := by
  cases turn with
  | expects => exact ⟨h, hl⟩
  | stopped => exact h

theorem reread_representable {turn : Turn} (h : turn.Representable)
    (hl : IsBytes l.token_buffer) {c : Option Char} (hc : ∀ x ∈ c, x.toNat < 256) :
    (turn.reread l c).Representable := by
  cases turn with
  | stopped => exact h
  | expects expecting stack =>
    have hbuffer : IsBytes (l.get c).token_buffer := by
      rw [get_token_buffer]
      exact hl
    have hread := skip_whitespace_representable hbuffer hc
    rw [Turn.reread]
    split
    · rename_i hresult
      rw [hresult] at hread
      exact ⟨h, hread⟩
    · rename_i hresult
      rw [hresult] at hread
      exact resume_representable (turn_representable h.1 hread.1 h.2) hread.2

theorem feed_representable {p : Parser} (h : (Progress.running p).Representable) {c : Option Char}
    (hc : ∀ x ∈ c, x.toNat < 256) : (p.feed c).Representable := by
  obtain ⟨⟨hexpecting, hstack⟩, hl⟩ := h
  have hbuffer : IsBytes (p.lexer.get c).token_buffer := by
    rw [get_token_buffer]
    exact hl
  have hread := read_representable p.scan hbuffer hc
  unfold Parser.feed
  split
  · rename_i hresult
    rw [hresult] at hread
    exact ⟨⟨hexpecting, hstack⟩, hread⟩
  · rename_i hresult
    rw [hresult] at hread
    exact resume_representable (turn_representable hexpecting hread.1 hstack) hread.2
  · rename_i hresult
    rw [hresult] at hread
    exact reread_representable (turn_representable hexpecting hread.1 hstack) hread.2 hc

theorem run_representable {text : Str} (htext : IsBytes text) :
    (text.foldl Progress.feed (.running .new)).Representable := by
  have hnew : (Progress.running .new).Representable := by
    refine ⟨⟨trivial, ?_⟩, ?_⟩
    · simp [Parser.new]
    · simp [Parser.new, Lexer.new, IsBytes]
  refine List.foldlRecOn (motive := Progress.Representable) text _ hnew ?_
  intro progress h c hc
  cases progress with
  | running p =>
    apply feed_representable h
    intro x hx
    rw [← Option.mem_some.mp hx]
    exact htext c hc
  | stopped result => exact h

theorem parse_representable {text : Str} (htext : IsBytes text) {j : Json}
    (h : parse text = .ok j) : Representable j := by
  have hrun := run_representable htext
  unfold parse at h
  cases hprogress : text.foldl Progress.feed (.running .new) with
  | stopped result =>
    rw [hprogress] at h hrun
    exact hrun j h
  | running p =>
    rw [hprogress] at h hrun
    have hend := feed_representable hrun (c := none) (by simp)
    rw [Progress.result] at h
    split at h
    · cases h
    · rename_i hresult
      rw [hresult] at hend
      exact hend j h

/-- Keys out of order, one of them twice, and blanks. -/
def untidyText : Str := "[-0, \x7b\"b\": 1, \"a\": \"\\n\", \"b\": true\x7d ]".toList

def tidyValue : Json :=
  .array [.number_integer 0,
    .object [("a".toList, .string "\n".toList), ("b".toList, .boolean true)]]

end Values

end ServiceSystem.Nlohmann
