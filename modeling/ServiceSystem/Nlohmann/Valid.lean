import ServiceSystem.Nlohmann.Parser

namespace ServiceSystem.Nlohmann

open Foundations

section Bytes

theorem toNat_ofNat {b : ℕ} (h : b < 0x100) : (Char.ofNat b).toNat = b := by
  have hvalid : b.isValidChar := Or.inl (by omega)
  rw [Char.ofNat, dif_pos hvalid]
  rfl

theorem step_ascii {b : ℕ} (h : b < 0x80) : Utf8.step .accept (Char.ofNat b) = .accept := by
  rw [Utf8.step, if_pos (by rwa [toNat_ofNat (by omega)])]

theorem between_ofNat {lo hi b : ℕ} (hb : b < 0x100) :
    Utf8.between lo hi (Char.ofNat b) = decide (lo ≤ b ∧ b ≤ hi) := by
  rw [Utf8.between, toNat_ofNat hb, Bool.decide_and]

theorem step_lead {b : ℕ} (h : 0x80 ≤ b) (hb : b < 0x100) :
    Utf8.step .accept (Char.ofNat b) =
      if 0xC2 ≤ b ∧ b ≤ 0xDF then .tail1
      else if b = 0xE0 then .afterE0
      else if b = 0xED then .afterED
      else if 0xE1 ≤ b ∧ b ≤ 0xEF then .tail2
      else if b = 0xF0 then .afterF0
      else if 0xF1 ≤ b ∧ b ≤ 0xF3 then .tail3
      else if b = 0xF4 then .afterF4
      else .reject := by
  rw [Utf8.step, if_neg (by rw [toNat_ofNat hb]; omega)]
  simp only [between_ofNat hb, decide_eq_true_eq, le_antisymm_iff (a := b), and_comm]

theorem step_continuation {b : ℕ} (hlo : 0x80 ≤ b) (hhi : b ≤ 0xBF) :
    Utf8.step .tail1 (Char.ofNat b) = .accept ∧ Utf8.step .tail2 (Char.ofNat b) = .tail1 ∧
      Utf8.step .tail3 (Char.ofNat b) = .tail2 := by
  have hb : Utf8.between 0x80 0xBF (Char.ofNat b) = true := by
    rw [between_ofNat (by omega), decide_eq_true_eq]
    exact ⟨hlo, hhi⟩
  simp [Utf8.step, hb]

theorem step_afterE0 {b : ℕ} (hlo : 0xA0 ≤ b) (hhi : b ≤ 0xBF) :
    Utf8.step .afterE0 (Char.ofNat b) = .tail1 := by
  rw [Utf8.step, between_ofNat (by omega), if_pos (decide_eq_true ⟨hlo, hhi⟩)]

theorem step_afterED {b : ℕ} (hlo : 0x80 ≤ b) (hhi : b ≤ 0x9F) :
    Utf8.step .afterED (Char.ofNat b) = .tail1 := by
  rw [Utf8.step, between_ofNat (by omega), if_pos (decide_eq_true ⟨hlo, hhi⟩)]

theorem step_afterF0 {b : ℕ} (hlo : 0x90 ≤ b) (hhi : b ≤ 0xBF) :
    Utf8.step .afterF0 (Char.ofNat b) = .tail2 := by
  rw [Utf8.step, between_ofNat (by omega), if_pos (decide_eq_true ⟨hlo, hhi⟩)]

theorem step_afterF4 {b : ℕ} (hlo : 0x80 ≤ b) (hhi : b ≤ 0x8F) :
    Utf8.step .afterF4 (Char.ofNat b) = .tail2 := by
  rw [Utf8.step, between_ofNat (by omega), if_pos (decide_eq_true ⟨hlo, hhi⟩)]

theorem valid_bytesOf {n : ℕ} (hn : n < 0x110000) (hs : ¬ (0xD800 ≤ n ∧ n ≤ 0xDFFF)) :
    Utf8.Valid (bytesOf n) := by
  have hlast := (step_continuation (b := 0x80 + n % 0x40) (by omega) (by omega)).1
  have hthird := (step_continuation (b := 0x80 + n / 0x40 % 0x40) (by omega) (by omega)).2.1
  rw [bytesOf, Utf8.Valid]
  split_ifs with h₁ h₂ h₃
  · rw [List.foldl_cons, step_ascii h₁, List.foldl_nil]
  · rw [List.foldl_cons, step_lead (by omega) (by omega), if_pos (by omega)]
    simp only [List.foldl_cons, List.foldl_nil, hlast]
  · rw [List.foldl_cons, step_lead (by omega) (by omega), if_neg (by omega)]
    by_cases hE0 : 0xE0 + n / 0x1000 = 0xE0
    · rw [if_pos hE0, List.foldl_cons, step_afterE0 (by omega) (by omega)]
      simp only [List.foldl_cons, List.foldl_nil, hlast]
    · rw [if_neg hE0]
      by_cases hED : 0xE0 + n / 0x1000 = 0xED
      · rw [if_pos hED, List.foldl_cons, step_afterED (by omega) (by omega)]
        simp only [List.foldl_cons, List.foldl_nil, hlast]
      · rw [if_neg hED, if_pos (by omega)]
        simp only [List.foldl_cons, List.foldl_nil, hthird, hlast]
  · have hsecond := (step_continuation (b := 0x80 + n / 0x1000 % 0x40) (by omega) (by omega)).2.2
    rw [List.foldl_cons, step_lead (by omega) (by omega), if_neg (by omega), if_neg (by omega),
      if_neg (by omega), if_neg (by omega)]
    by_cases hF0 : 0xF0 + n / 0x40000 = 0xF0
    · rw [if_pos hF0, List.foldl_cons, step_afterF0 (by omega) (by omega)]
      simp only [List.foldl_cons, List.foldl_nil, hthird, hlast]
    · rw [if_neg hF0]
      by_cases hF4 : 0xF0 + n / 0x40000 = 0xF4
      · rw [if_neg (by omega), if_pos hF4, List.foldl_cons, step_afterF4 (by omega) (by omega)]
        simp only [List.foldl_cons, List.foldl_nil, hthird, hlast]
      · rw [if_pos (by omega)]
        simp only [List.foldl_cons, List.foldl_nil, hsecond, hthird, hlast]

end Bytes

section Strings

/-- Within a string, what the decoder makes of the bytes in the buffer. -/
def Scan.pending : Scan → Option Utf8.State
  | .string | .escape | .codepoint .. | .surrogate .. => some .accept
  | .tail state => some state
  | .bom0 | .bom1 | .bom2 | .whitespace | .literal .. | .number .. => none

/-- The buffer is valid UTF-8 as far as it has been filled. -/
def Buffered (scan : Scan) (l : Lexer) : Prop :=
  ∀ state, scan.pending = some state → l.token_buffer.foldl Utf8.step .accept = state

def Token.Valid (t : Token) : Prop := ∀ s, t = .value_string s → Utf8.Valid s

def Read.Valid : Read → Prop
  | .more scan l => Buffered scan l
  | .token t _ | .ungot t _ => t.Valid

variable {l : Lexer} {c : Option Char}

theorem get_token_buffer (l : Lexer) (c : Option Char) :
    (l.get c).token_buffer = l.token_buffer := by
  cases c <;> rfl

theorem fail_valid (l : Lexer) (error_message : Str) : (l.fail error_message).Valid := nofun

theorem add_buffered {state state' : Utf8.State} {scan : Scan} {x : Char}
    (h : l.token_buffer.foldl Utf8.step .accept = state) (hx : Utf8.step state x = state')
    (hscan : scan.pending = some state') : Buffered scan (l.add x) := by
  rintro _ hpending
  obtain rfl := Option.some.inj (hscan.symm.trans hpending)
  rw [Lexer.add, List.foldl_append, h]
  exact hx

theorem append_buffered {a : Str} (h : Utf8.Valid l.token_buffer) (ha : Utf8.Valid a) :
    Buffered .string { l with token_buffer := l.token_buffer ++ a } := by
  rintro _ ⟨⟩
  exact h.append ha

theorem ofSum_ite_valid {p : Prop} [Decidable p] {r r' : (Scan ⊕ Token) × Lexer}
    (h : (Read.ofSum r).Valid) (h' : (Read.ofSum r').Valid) :
    (Read.ofSum (if p then r else r')).Valid := by
  split
  · exact h
  · exact h'

theorem skip_whitespace_valid (l : Lexer) (c : Option Char) :
    (Read.ofSum (l.skip_whitespace c)).Valid := by
  cases c with
  | none => nofun
  | some c =>
    rw [Lexer.skip_whitespace]
    repeat' apply ofSum_ite_valid
    all_goals rintro _ ⟨⟩ <;> rfl

theorem continue_bom_valid (l : Lexer) (expected : Char) {scan : Scan} (hscan : scan.pending = none)
    (c : Option Char) : (l.continue_bom expected scan c).Valid := by
  unfold Lexer.continue_bom
  split_ifs
  · rintro _ hpending
    cases hscan.symm.trans hpending
  · exact fail_valid l _

theorem skip_bom_valid (l : Lexer) (c : Option Char) : (l.skip_bom c).Valid := by
  unfold Lexer.skip_bom
  split_ifs
  · exact nofun
  · exact skip_whitespace_valid _ c

theorem next_byte_valid {state : Utf8.State}
    (h : l.token_buffer.foldl Utf8.step .accept = state) (c : Option Char) :
    (l.next_byte_in_range state c).Valid := by
  cases c with
  | none => exact fail_valid l illFormed
  | some c =>
    rw [Lexer.next_byte_in_range]
    split
    · exact add_buffered h ‹_› rfl
    · exact fail_valid l illFormed
    · exact add_buffered h rfl rfl

theorem scan_string_valid (h : Utf8.Valid l.token_buffer) (c : Option Char) :
    (l.scan_string c).Valid := by
  cases c with
  | none => exact fail_valid l _
  | some c =>
    rw [Lexer.scan_string]
    split_ifs
    · rintro _ ⟨⟩
      exact h
    · rintro _ ⟨⟩
      exact h
    · exact fail_valid l _
    · split
      · exact add_buffered h ‹_› rfl
      · exact fail_valid l illFormed
      · exact add_buffered h rfl rfl

theorem unescape_ascii {c x : Char} (h : unescape c = some x) : Utf8.step .accept x = .accept := by
  unfold unescape at h
  split_ifs at h with hself <;> cases h
  · rcases hself with rfl | rfl | rfl <;> rfl
  all_goals rfl

theorem scan_escape_valid (h : Utf8.Valid l.token_buffer) (c : Option Char) :
    (l.scan_escape c).Valid := by
  unfold Lexer.scan_escape
  split
  · rintro _ ⟨⟩
    exact h
  · split
    · rename_i hx
      obtain ⟨_, -, hx⟩ := Option.bind_eq_some_iff.mp hx
      exact add_buffered h (unescape_ascii hx) rfl
    · exact fail_valid l _

theorem codepoint_valid (h : Utf8.Valid l.token_buffer) (high : Option HighSurrogate) {n : ℕ}
    (hn : n < 0x10000) : (l.codepoint high n).Valid := by
  unfold Lexer.codepoint
  split
  · rename_i high
    have hhigh := high.2
    split_ifs with hlow
    · exact append_buffered h (valid_bytesOf (by omega) (by omega))
    · exact fail_valid l _
  · split_ifs with hhigh hlow
    · rintro _ ⟨⟩
      exact h
    · exact fail_valid l _
    · exact append_buffered h (valid_bytesOf (by omega) (by omega))

theorem get_codepoint_valid (h : Utf8.Valid l.token_buffer) (high : Option HighSurrogate)
    (digits : List (Fin 16)) (c : Option Char) : (l.get_codepoint high digits c).Valid := by
  unfold Lexer.get_codepoint
  split
  · exact fail_valid l _
  · refine codepoint_valid h high ?_
    unfold codepointOf
    omega
  · rintro _ ⟨⟩
    exact h

theorem scan_surrogate_valid (h : Utf8.Valid l.token_buffer) (high : HighSurrogate)
    (backslash : Bool) (c : Option Char) : (l.scan_surrogate high backslash c).Valid := by
  unfold Lexer.scan_surrogate
  split_ifs
  · rintro _ ⟨⟩
    exact h
  · exact fail_valid l _
  · rintro _ ⟨⟩
    exact h
  · exact fail_valid l _

theorem numberToken_valid (type : NumberType) (text : Str) : (numberToken type text).Valid := by
  unfold numberToken
  cases type <;> dsimp only <;> (try split_ifs) <;> exact nofun

theorem scan_number_valid (l : Lexer) (state : NumberState) (type : NumberType) (c : Option Char) :
    (l.scan_number state type c).Valid := by
  unfold Lexer.scan_number
  split
  · exact nofun
  · exact fail_valid l _
  · exact numberToken_valid type l.token_buffer

theorem scan_literal_valid (l : Lexer) (which : Literal) (i : ℕ) (c : Option Char) :
    (l.scan_literal which i c).Valid := by
  unfold Lexer.scan_literal
  split_ifs
  · cases which <;> exact nofun
  · exact nofun
  · exact fail_valid l _

theorem read_valid {scan : Scan} (h : Buffered scan l) (c : Option Char) :
    (scan.read l c).Valid := by
  cases scan with
  | bom0 => exact skip_bom_valid l c
  | bom1 => exact continue_bom_valid l _ rfl c
  | bom2 => exact continue_bom_valid l _ rfl c
  | whitespace => exact skip_whitespace_valid l c
  | literal which i => exact scan_literal_valid l which i c
  | string => exact scan_string_valid (h _ rfl) c
  | escape => exact scan_escape_valid (h _ rfl) c
  | codepoint high digits => exact get_codepoint_valid (h _ rfl) high digits c
  | surrogate high backslash => exact scan_surrogate_valid (h _ rfl) high backslash c
  | tail state => exact next_byte_valid (h _ rfl) c
  | number state type => exact scan_number_valid l state type c

end Strings

section Values

def Frame.Valid : Frame → Prop
  | .array items => ∀ v ∈ items, v.Valid
  | .object entries key => (∀ e ∈ entries, Utf8.Valid e.1 ∧ e.2.Valid) ∧ Utf8.Valid key

def Expecting.Valid : Expecting → Prop
  | .value | .firstKey | .firstItem => True
  | .separator entries key => (∀ e ∈ entries, Utf8.Valid e.1 ∧ e.2.Valid) ∧ Utf8.Valid key
  | .endArray items => ∀ v ∈ items, v.Valid
  | .endObject entries | .nextKey entries => ∀ e ∈ entries, Utf8.Valid e.1 ∧ e.2.Valid
  | .endOfInput result => result.Valid

def Result.Valid (result : Except Str Json) : Prop := ∀ j, result = .ok j → j.Valid

def Turn.Valid : Turn → Prop
  | .expects expecting stack => expecting.Valid ∧ ∀ frame ∈ stack, frame.Valid
  | .stopped result => Result.Valid result

def Progress.Valid : Progress → Prop
  | .running p => (p.expecting.Valid ∧ ∀ frame ∈ p.stack, frame.Valid) ∧ Buffered p.scan p.lexer
  | .stopped result => Result.Valid result

variable {stack : List Frame} {l : Lexer} {t : Token}

theorem unexpected_valid (l : Lexer) (t : Token) (expected : TokenType) (context : Str) :
    (l.unexpected t expected context).Valid := fun _ h ↦ absurd h (by simp)

theorem valid_upsertIn {entries : List (Str × Json)} {key : Str} {v : Json}
    (h : ∀ e ∈ entries, Utf8.Valid e.1 ∧ e.2.Valid) (hkey : Utf8.Valid key) (hv : v.Valid) :
    ∀ e ∈ OrderedMap.upsertIn key (fun _ ↦ v) entries, Utf8.Valid e.1 ∧ e.2.Valid := by
  intro e he
  rcases OrderedMap.mem_upsertIn he with ⟨_, rfl⟩ | he
  · exact ⟨hkey, hv⟩
  · exact h e he

theorem complete_valid {v : Json} (hv : v.Valid) (hstack : ∀ frame ∈ stack, frame.Valid) :
    (complete v stack).Valid := by
  cases stack with
  | nil => exact ⟨hv, hstack⟩
  | cons frame stack =>
    obtain ⟨hframe, hrest⟩ := List.forall_mem_cons.mp hstack
    cases frame with
    | array items =>
      refine ⟨List.forall_mem_append.mpr ⟨hframe, ?_⟩, hrest⟩
      simpa using hv
    | object entries key => exact ⟨valid_upsertIn hframe.1 hframe.2 hv, hrest⟩

theorem parse_value_valid (ht : t.Valid) (hstack : ∀ frame ∈ stack, frame.Valid) :
    (parse_value stack t l).Valid := by
  have hplain : ∀ v : Json, v.strings = [] → (complete v stack).Valid := fun v hv ↦
    complete_valid (by simp [Json.Valid, hv]) hstack
  cases t with
  | begin_object | begin_array => exact ⟨trivial, hstack⟩
  | value_float q =>
    cases q with
    | none => exact fun _ h ↦ absurd h (by simp)
    | some q => exact hplain (.number_float q) rfl
  | literal_false => exact hplain (.boolean false) rfl
  | literal_null => exact hplain .null rfl
  | literal_true => exact hplain (.boolean true) rfl
  | value_integer n => exact hplain (.number_integer n) rfl
  | value_unsigned n => exact hplain (.number_unsigned n) rfl
  | value_string s => exact complete_valid (Json.Valid.string_iff.mpr (ht s rfl)) hstack
  | parse_error | end_array | end_object | name_separator | value_separator =>
    exact unexpected_valid l _ _ _
  | end_of_input =>
    rw [parse_value]
    split
    · exact fun _ h ↦ absurd h (by simp)
    · exact unexpected_valid l _ _ _

theorem turn_valid {expecting : Expecting} (hexpecting : expecting.Valid) (ht : t.Valid)
    (hstack : ∀ frame ∈ stack, frame.Valid) : (expecting.turn stack t l).Valid := by
  have hvalue : ∀ frame : Frame, frame.Valid → ∀ f ∈ frame :: stack, f.Valid := fun frame hframe ↦
    List.forall_mem_cons.mpr ⟨hframe, hstack⟩
  unfold Expecting.turn
  split
  · exact parse_value_valid ht hstack
  · exact complete_valid (Json.Valid.object_iff.mpr (by simp)) hstack
  · exact ⟨⟨by simp, ht _ rfl⟩, hstack⟩
  · exact unexpected_valid l _ _ _
  · exact ⟨trivial, hvalue _ hexpecting⟩
  · exact unexpected_valid l _ _ _
  · exact complete_valid (Json.Valid.array_iff.mpr (by simp)) hstack
  · exact parse_value_valid ht (hvalue (.array []) (by simp [Frame.Valid]))
  · exact ⟨trivial, hvalue _ hexpecting⟩
  · exact complete_valid (Json.Valid.array_iff.mpr hexpecting) hstack
  · exact unexpected_valid l _ _ _
  · exact ⟨hexpecting, hstack⟩
  · exact complete_valid (Json.Valid.object_iff.mpr hexpecting) hstack
  · exact unexpected_valid l _ _ _
  · exact ⟨⟨hexpecting, ht _ rfl⟩, hstack⟩
  · exact unexpected_valid l _ _ _
  · rintro _ ⟨⟩
    exact hexpecting
  · exact unexpected_valid l _ _ _

theorem resume_valid {turn : Turn} (h : turn.Valid) (l : Lexer) : (turn.resume l).Valid := by
  cases turn with
  | expects => exact ⟨h, nofun⟩
  | stopped => exact h

theorem reread_valid {turn : Turn} (h : turn.Valid) (l : Lexer) (c : Option Char) :
    (turn.reread l c).Valid := by
  cases turn with
  | stopped => exact h
  | expects expecting stack =>
    have hread := skip_whitespace_valid (l.get c) c
    rw [Turn.reread]
    split
    · rename_i hresult
      rw [hresult] at hread
      exact ⟨h, hread⟩
    · rename_i hresult
      rw [hresult] at hread
      exact resume_valid (turn_valid h.1 hread h.2) _

theorem feed_valid {p : Parser} (h : (Progress.running p).Valid) (c : Option Char) :
    (p.feed c).Valid := by
  obtain ⟨⟨hexpecting, hstack⟩, hbuffer⟩ := h
  have hbuffered : Buffered p.scan (p.lexer.get c) := fun state hstate ↦ by
    rw [get_token_buffer]
    exact hbuffer state hstate
  have hread := read_valid hbuffered c
  unfold Parser.feed
  split
  · rename_i hresult
    rw [hresult] at hread
    exact ⟨⟨hexpecting, hstack⟩, hread⟩
  · rename_i hresult
    rw [hresult] at hread
    exact resume_valid (turn_valid hexpecting hread hstack) _
  · rename_i hresult
    rw [hresult] at hread
    exact reread_valid (turn_valid hexpecting hread hstack) _ c

theorem run_valid (text : Str) : (text.foldl Progress.feed (.running .new)).Valid := by
  refine List.foldlRecOn (motive := Progress.Valid) text _ ⟨⟨trivial, by simp [Parser.new]⟩, nofun⟩
    fun progress h c _ ↦ ?_
  cases progress with
  | running p => exact feed_valid h (some c)
  | stopped result => exact h

/-- Every string in a value that `parse` returns is valid UTF-8. -/
theorem parse_valid {text : Str} {j : Json} (h : parse text = .ok j) : j.Valid := by
  have hrun := run_valid text
  unfold parse at h
  cases hprogress : text.foldl Progress.feed (.running .new) with
  | stopped result =>
    rw [hprogress] at h hrun
    exact hrun j h
  | running p =>
    rw [hprogress] at h hrun
    have hend := feed_valid hrun none
    rw [Progress.result] at h
    split at h
    · cases h
    · rename_i hresult
      rw [hresult] at hend
      exact hend j h

end Values

end ServiceSystem.Nlohmann
