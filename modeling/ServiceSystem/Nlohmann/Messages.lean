import ServiceSystem.Nlohmann.Prefix

namespace ServiceSystem.Nlohmann

open Foundations

namespace Parser

/-- What the parser takes of a byte: nothing if it stops at a number that ended before the byte. -/
def takes (p : Parser) (c : Option Char) : Str :=
  match p.scan.read (p.lexer.get c) c with
  | .ungot t l => match p.expecting.turn p.stack t l with
    | .stopped _ => []
    | .expects .. => c.toList
  | _ => c.toList

/-- The bytes that the parser reads before it stops. -/
def reads (p : Parser) : Str → Str
  | [] => []
  | c :: text => p.takes (some c) ++ match p.feed (some c) with
    | .running q => q.reads text
    | .stopped _ => []

end Parser

/-- The part of a text that `json::parse` reads before it has its result. -/
def consumed (text : Str) : Str := Parser.new.reads text

/-- What the decoder makes of the bytes that have been read, all of them. -/
def Scan.decoded : Scan → Utf8.State
  | .bom1 => .tail2
  | .bom2 => .tail1
  | .tail state => state
  | .bom0 | .whitespace | .literal .. | .string | .escape | .codepoint .. | .surrogate ..
  | .number .. => .accept

/-- What has been read ends in the bytes that the lexer would repeat, after some that are valid. -/
def Lexer.Reads (l : Lexer) (text : Str) : Prop :=
  ∃ before, Utf8.Valid before ∧ text = before ++ l.token_string

/-- After a token all that has been read is valid, unless the token is an error. -/
def Token.Fits (text : Str) : Token → Prop
  | .parse_error error_message => ∀ c ∈ error_message, c.toNat < 0x80
  | _ => Utf8.Valid text

def Read.Tracks (text : Str) (c : Option Char) : Read → Prop
  | .more scan l =>
    l.Reads (text ++ c.toList) ∧ (text ++ c.toList).foldl Utf8.step .accept = scan.decoded
  | .token t l => l.Reads (text ++ c.toList) ∧ t.Fits (text ++ c.toList)
  | .ungot t l => l.Reads text ∧ t.Fits text

section Tokens

variable {l : Lexer} {text : Str} {c : Option Char} {x : Char}

theorem Lexer.Reads.valid_iff (h : l.Reads text) :
    Utf8.Valid l.token_string ↔ Utf8.Valid text := by
  obtain ⟨before, hbefore, rfl⟩ := h
  exact hbefore.append_iff.symm

theorem Lexer.Reads.get (h : l.Reads text) (c : Option Char) :
    (l.get c).Reads (text ++ c.toList) := by
  obtain ⟨before, hbefore, rfl⟩ := h
  refine ⟨before, hbefore, ?_⟩
  cases c with
  | none => exact List.append_nil _
  | some c => exact List.append_assoc ..

theorem Lexer.Reads.get_unget (h : l.Reads text) (c : Option Char) :
    ((l.get c).unget c).Reads text := by
  obtain ⟨before, hbefore, rfl⟩ := h
  refine ⟨before, hbefore, congrArg (before ++ ·) ?_⟩
  cases c with
  | none => rfl
  | some c => exact List.dropLast_concat.symm

theorem valid_snoc (h : Utf8.Valid text) (hx : x.toNat < 0x80) : Utf8.Valid (text ++ [x]) :=
  (Utf8.valid_append_of_ascii (by simpa using hx)).mpr h

theorem foldl_snoc {state : Utf8.State} (h : text.foldl Utf8.step .accept = state) (x : Char) :
    (text ++ [x]).foldl Utf8.step .accept = Utf8.step state x := by
  rw [List.foldl_append, h]
  rfl

theorem fail_tracks (h : l.Reads text) {error_message : Str}
    (hascii : ∀ x ∈ error_message, x.toNat < 0x80) :
    ((l.get c).fail error_message).Tracks text c :=
  ⟨h.get c, hascii⟩

theorem more_tracks (h : l.Reads text) (hvalid : Utf8.Valid text) (hx : x.toNat < 0x80)
    {scan : Scan} (hscan : scan.decoded = .accept) {buffer : Str} :
    (Read.more scan { l.get (some x) with token_buffer := buffer }).Tracks text (some x) :=
  ⟨h.get (some x), (valid_snoc hvalid hx).trans hscan.symm⟩

end Tokens

section Scans

variable {l : Lexer} {text : Str}

theorem hexByte_ascii (c : Char) : ∀ x ∈ Json.hexByte c, x.toNat < 0x80 := by
  have hdigit : ∀ n < 16, ∀ x ∈ Nat.toDigits 16 n, x.toUpper.toNat < 0x80 := by decide
  intro x hx
  obtain ⟨y, hy, rfl⟩ := List.mem_map.mp hx
  rw [List.flatten_cons, List.flatten_cons, List.flatten_nil, List.append_nil] at hy
  rcases List.mem_append.mp hy with hy | hy
  · exact hdigit _ (Nat.mod_lt _ (by decide)) y hy
  · exact hdigit _ (Nat.mod_lt _ (by decide)) y hy

theorem controlMessage_ascii (c : Char) : ∀ x ∈ controlMessage c, x.toNat < 0x80 := by
  have hnames : ∀ name ∈ controlNames, ∀ x ∈ name, x.toNat < 0x80 := by decide
  have hname : ∀ x ∈ controlNames.getD c.toNat [], x.toNat < 0x80 := by
    rw [List.getD_eq_getElem?_getD]
    cases h : controlNames[c.toNat]? with
    | none => simp
    | some name => exact hnames name (List.mem_of_getElem? h)
  have hescape : ∀ x ∈ shortEscape c, x.toNat < 0x80 := by
    unfold shortEscape
    split_ifs <;> decide
  unfold controlMessage
  simp only [List.forall_mem_append]
  exact ⟨⟨⟨⟨⟨⟨by decide, hexByte_ascii c⟩, by decide⟩, hname⟩, by decide⟩, hexByte_ascii c⟩,
    hescape⟩

theorem illFormed_ascii : ∀ x ∈ illFormed, x.toNat < 0x80 := by decide

theorem loneHigh_ascii : ∀ x ∈ loneHigh, x.toNat < 0x80 := by decide

theorem scan_string_tracks (h : l.Reads text) (hvalid : Utf8.Valid text) (c : Option Char) :
    ((l.get c).scan_string c).Tracks text c := by
  cases c with
  | none => exact fail_tracks h (by decide)
  | some x =>
    rw [Lexer.scan_string]
    split_ifs with hquote hbackslash hcontrol
    · exact ⟨h.get _, valid_snoc hvalid (by rw [hquote]; decide)⟩
    · exact ⟨h.get _, valid_snoc hvalid (by rw [hbackslash]; decide)⟩
    · exact fail_tracks h (controlMessage_ascii x)
    · split
      · exact ⟨h.get _, (foldl_snoc hvalid x).trans ‹_›⟩
      · exact fail_tracks h illFormed_ascii
      · exact ⟨h.get _, foldl_snoc hvalid x⟩

theorem next_byte_tracks (h : l.Reads text) {state : Utf8.State}
    (hstate : text.foldl Utf8.step .accept = state) (c : Option Char) :
    ((l.get c).next_byte_in_range state c).Tracks text c := by
  cases c with
  | none => exact fail_tracks h illFormed_ascii
  | some x =>
    rw [Lexer.next_byte_in_range]
    split
    · exact ⟨h.get _, (foldl_snoc hstate x).trans ‹_›⟩
    · exact fail_tracks h illFormed_ascii
    · exact ⟨h.get _, foldl_snoc hstate x⟩

theorem unescape_domain {c x : Char} (h : unescape c = some x) : c.toNat < 0x80 := by
  unfold unescape at h
  split_ifs at h with hself hb hf hn hr ht
  · rcases hself with rfl | rfl | rfl <;> decide
  all_goals subst c; decide

theorem le_toNat {c d : Char} (h : c ≤ d) : c.toNat ≤ d.toNat := UInt32.le_iff_toNat_le.mp h

theorem hexDigit_domain {c : Char} {d : Fin 16} (h : hexDigit c = some d) : c.toNat < 0x80 := by
  have hbound : ∀ {hi : Char}, hi.toNat < 0x80 → c ≤ hi → c.toNat < 0x80 :=
    fun hhi hc ↦ (le_toNat hc).trans_lt hhi
  unfold hexDigit at h
  split_ifs at h with hdigit hupper hlower
  · exact hbound (by decide) hdigit.2
  · exact hbound (by decide) hupper.2
  · exact hbound (by decide) hlower.2

theorem next_domain {state state' : NumberState} {c : Char} (h : state.next c = some state') :
    c.toNat < 0x80 := by
  unfold NumberState.next at h
  cases state <;> dsimp only at h <;> split_ifs at h <;> first
    | exact Utf8.ascii_of_isDigit ‹_›
    | (subst c; decide)
    | (rcases ‹_ ∨ _› with rfl | rfl <;> decide)

theorem scan_escape_tracks (h : l.Reads text) (hvalid : Utf8.Valid text) (c : Option Char) :
    ((l.get c).scan_escape c).Tracks text c := by
  unfold Lexer.scan_escape
  split
  · exact more_tracks h hvalid (by decide) rfl
  · split
    · rename_i hx
      obtain ⟨x, rfl, hx⟩ := Option.bind_eq_some_iff.mp hx
      exact more_tracks h hvalid (unescape_domain hx) rfl
    · exact fail_tracks h (by decide)

theorem codepoint_tracks (h : l.Reads text) (hvalid : Utf8.Valid text) {x : Char}
    (hx : x.toNat < 0x80) (high : Option HighSurrogate) (n : ℕ) :
    ((l.get (some x)).codepoint high n).Tracks text (some x) := by
  unfold Lexer.codepoint
  cases high with
  | none =>
    dsimp only
    split_ifs
    · exact more_tracks h hvalid hx rfl
    · exact fail_tracks h (by decide)
    · exact more_tracks h hvalid hx rfl
  | some high =>
    dsimp only
    split_ifs
    · exact more_tracks h hvalid hx rfl
    · exact fail_tracks h loneHigh_ascii

theorem get_codepoint_tracks (h : l.Reads text) (hvalid : Utf8.Valid text)
    (high : Option HighSurrogate) (digits : List (Fin 16)) (c : Option Char) :
    ((l.get c).get_codepoint high digits c).Tracks text c := by
  unfold Lexer.get_codepoint
  split
  · exact fail_tracks h (by decide)
  · rename_i hx
    obtain ⟨x, rfl, hx⟩ := Option.bind_eq_some_iff.mp hx
    exact codepoint_tracks h hvalid (hexDigit_domain hx) high _
  · rename_i hx _
    obtain ⟨x, rfl, hx⟩ := Option.bind_eq_some_iff.mp hx
    exact more_tracks h hvalid (hexDigit_domain hx) rfl

theorem scan_surrogate_tracks (h : l.Reads text) (hvalid : Utf8.Valid text) (high : HighSurrogate)
    (backslash : Bool) (c : Option Char) :
    ((l.get c).scan_surrogate high backslash c).Tracks text c := by
  unfold Lexer.scan_surrogate
  split_ifs with _ hc hc
  · subst hc
    exact more_tracks h hvalid (by decide) rfl
  · exact fail_tracks h loneHigh_ascii
  · subst hc
    exact more_tracks h hvalid (by decide) rfl
  · exact fail_tracks h loneHigh_ascii

theorem numberToken_fits (type : NumberType) (number : Str) (hvalid : Utf8.Valid text) :
    (numberToken type number).Fits text := by
  unfold numberToken
  cases type <;> dsimp only <;> (try split_ifs) <;> exact hvalid

theorem scan_number_tracks (h : l.Reads text) (hvalid : Utf8.Valid text) (state : NumberState)
    (type : NumberType) (c : Option Char) :
    ((l.get c).scan_number state type c).Tracks text c := by
  have herror : ∀ error_message, state.error = some error_message →
      ∀ x ∈ error_message, x.toNat < 0x80 := by
    intro error_message he
    cases state <;> cases he <;> decide
  unfold Lexer.scan_number
  split
  · rename_i hx
    exact more_tracks h hvalid (next_domain hx) rfl
  · exact fail_tracks h (herror _ ‹_›)
  · exact ⟨h.get_unget _, numberToken_fits type _ hvalid⟩

theorem scan_literal_tracks (h : l.Reads text) (hvalid : Utf8.Valid text) (which : Literal) (i : ℕ)
    (c : Option Char) : ((l.get c).scan_literal which i c).Tracks text c := by
  have hletters : ∀ x ∈ which.text, x.toNat < 0x80 := by cases which <;> decide
  unfold Lexer.scan_literal
  split_ifs with hc
  · obtain ⟨x, rfl⟩ := Option.isSome_iff_exists.mp hc.1
    have hx := hletters x (List.mem_of_getElem? hc.2.symm)
    refine ⟨h.get _, ?_⟩
    cases which <;> exact valid_snoc hvalid hx
  · obtain ⟨x, rfl⟩ := Option.isSome_iff_exists.mp hc.1
    exact more_tracks h hvalid (hletters x (List.mem_of_getElem? hc.2.symm)) rfl
  · exact fail_tracks h (by decide)

theorem ofSum_ite_tracks {c : Option Char} {p : Prop} [Decidable p] {q : Prop}
    {r r' : (Scan ⊕ Token) × Lexer} (hp : p → q) (h : q → (Read.ofSum r).Tracks text c)
    (h' : (Read.ofSum r').Tracks text c) : (Read.ofSum (if p then r else r')).Tracks text c := by
  split_ifs with hcond
  · exact h (hp hcond)
  · exact h'

theorem isWhitespace_domain {c : Char} (h : Lexer.isWhitespace c = true) : c.toNat < 0x80 := by
  simp only [Lexer.isWhitespace, Bool.or_eq_true, decide_eq_true_eq] at h
  rcases h with ((rfl | rfl) | rfl) | rfl <;> decide

theorem skip_whitespace_tracks (h : l.Reads text) (hvalid : Utf8.Valid text) (c : Option Char) :
    (Read.ofSum ((l.get c).skip_whitespace c)).Tracks text c := by
  cases c with
  | none => exact ⟨h.get none, (List.append_nil text).symm ▸ hvalid⟩
  | some x =>
    have hreset : ((l.get (some x)).reset x).Reads (text ++ [x]) := ⟨text, hvalid, rfl⟩
    rw [Lexer.skip_whitespace]
    refine ofSum_ite_tracks isWhitespace_domain (fun hx ↦ ⟨h.get _, valid_snoc hvalid hx⟩) ?_
    repeat' apply ofSum_ite_tracks (q := x.toNat < 0x80)
    all_goals first
      | exact Utf8.ascii_of_isDigit
      | exact fun hx ↦ by subst hx; decide
      | exact fun hx ↦ ⟨h.get _, valid_snoc hvalid hx⟩
      | exact fun hx ↦ ⟨hreset, valid_snoc hvalid hx⟩
      | exact fail_tracks h (by decide)

theorem skip_bom_tracks (h : l.Reads text) (hvalid : Utf8.Valid text) (c : Option Char) :
    ((l.get c).skip_bom c).Tracks text c := by
  unfold Lexer.skip_bom
  split_ifs with hc
  · subst hc
    exact ⟨h.get _, (foldl_snoc hvalid _).trans (by decide)⟩
  · exact skip_whitespace_tracks (h.get_unget c) hvalid c

theorem continue_bom_tracks (h : l.Reads text) {state : Utf8.State}
    (hstate : text.foldl Utf8.step .accept = state) {expected : Char} {scan : Scan}
    (hscan : Utf8.step state expected = scan.decoded) (c : Option Char) :
    ((l.get c).continue_bom expected scan c).Tracks text c := by
  unfold Lexer.continue_bom
  split_ifs with hc
  · subst hc
    exact ⟨h.get _, (foldl_snoc hstate expected).trans hscan⟩
  · exact fail_tracks h (by decide)

theorem read_tracks {scan : Scan} (h : l.Reads text)
    (hdecoded : text.foldl Utf8.step .accept = scan.decoded) (c : Option Char) :
    (scan.read (l.get c) c).Tracks text c := by
  cases scan with
  | bom0 => exact skip_bom_tracks h hdecoded c
  | bom1 => exact continue_bom_tracks h hdecoded (by decide) c
  | bom2 => exact continue_bom_tracks h hdecoded (by decide) c
  | whitespace => exact skip_whitespace_tracks h hdecoded c
  | literal which i => exact scan_literal_tracks h hdecoded which i c
  | string => exact scan_string_tracks h hdecoded c
  | escape => exact scan_escape_tracks h hdecoded c
  | codepoint high digits => exact get_codepoint_tracks h hdecoded high digits c
  | surrogate high backslash => exact scan_surrogate_tracks h hdecoded high backslash c
  | tail state => exact next_byte_tracks h hdecoded c
  | number state type => exact scan_number_tracks h hdecoded state type c

end Scans

/-- The result of the parser and the bytes that it has read: an error message is valid just in
case they are. -/
def Agrees (text : Str) : Except Str Json → Prop
  | .ok _ => Utf8.Valid text
  | .error what => Utf8.Valid what ↔ Utf8.Valid text

def Turn.Tracks (text : Str) : Turn → Prop
  | .expects .. => Utf8.Valid text
  | .stopped result => Agrees text result

def Progress.Tracks (text : Str) : Progress → Prop
  | .running p => p.lexer.Reads text ∧ text.foldl Utf8.step .accept = p.scan.decoded
  | .stopped result => Agrees text result

section Texts

variable {l : Lexer} {text : Str} {t : Token}

/-- Control characters are escaped, other bytes stay. -/
theorem get_token_string_valid (l : Lexer) :
    Utf8.Valid l.get_token_string ↔ Utf8.Valid l.token_string := by
  have hstep : ∀ (state : Utf8.State) (c : Char),
      (if c.toNat ≤ 0x1F then "<U+00".toList ++ Json.hexByte c ++ ">".toList else [c]).foldl
        Utf8.step state = Utf8.step state c := by
    intro state c
    split_ifs with hc
    · rw [Utf8.step_of_ascii (by omega), Utf8.foldl_of_ascii _ (by simp)]
      simp only [List.forall_mem_append]
      exact ⟨⟨by decide, hexByte_ascii c⟩, by decide⟩
    · rfl
  rw [Utf8.Valid, Lexer.get_token_string, List.foldl_flatMap]
  simp only [hstep]
  rfl

theorem Lexer.Reads.agrees (h : l.Reads text) {before after : Str}
    (hbefore : ∀ x ∈ before, x.toNat < 0x80) (hafter : ∀ x ∈ after, x.toNat < 0x80) :
    Agrees text (.error (before ++ l.get_token_string ++ after)) := by
  rw [Agrees, Utf8.valid_append_of_ascii hafter, (Utf8.valid_of_ascii hbefore).append_iff,
    get_token_string_valid, h.valid_iff]

theorem agrees_of_ascii {what : Str} (hvalid : Utf8.Valid text)
    (h : ∀ x ∈ what, x.toNat < 0x80) : Agrees text (.error what) :=
  iff_of_true (Utf8.valid_of_ascii h) hvalid

theorem token_type_name_ascii (type : TokenType) : ∀ x ∈ token_type_name type, x.toNat < 0x80 := by
  cases type <;> decide

theorem parse_error_tracks (hvalid : Utf8.Valid text) {what : Str}
    (h : ∀ x ∈ what, x.toNat < 0x80) : (l.parse_error what).Tracks text := by
  refine agrees_of_ascii hvalid ?_
  simp only [List.forall_mem_append]
  exact ⟨⟨⟨by decide, position_string_ascii l⟩, by decide⟩, h⟩

/-- What the message says last is the token that was expected. -/
theorem exception_message_expected (l : Lexer) (t : Token) (expected : TokenType) (context : Str) :
    ∃ after, (∀ x ∈ after, x.toNat < 0x80) ∧ l.exception_message t expected context =
      l.exception_message t .uninitialized context ++ after := by
  have hexpected : ∀ x ∈ "; expected ".toList ++ token_type_name expected, x.toNat < 0x80 :=
    List.forall_mem_append.mpr ⟨by decide, token_type_name_ascii expected⟩
  unfold Lexer.exception_message
  cases expected with
  | uninitialized => exact ⟨[], by simp, (List.append_nil _).symm⟩
  | _ => exact ⟨_, hexpected, congrArg (· ++ _) (List.append_nil _).symm⟩

theorem exception_message_valid (h : l.Reads text) (ht : t.Fits text) {context : Str}
    (hcontext : ∀ x ∈ context, x.toNat < 0x80) :
    Utf8.Valid (l.exception_message t .uninitialized context) ↔ Utf8.Valid text := by
  have hparsing : Utf8.Valid ("syntax error while parsing ".toList ++ context ++ " - ".toList) :=
    ((show Utf8.Valid _ by decide).append (Utf8.valid_of_ascii hcontext)).append (by decide)
  have hname : Utf8.Valid ("unexpected ".toList ++ token_type_name t.type) :=
    (show Utf8.Valid _ by decide).append (Utf8.valid_of_ascii (token_type_name_ascii t.type))
  unfold Lexer.exception_message
  rw [List.append_nil, hparsing.append_iff]
  cases t with
  | parse_error error_message =>
    have hlast : Utf8.Valid (error_message ++ "; last read: '".toList) :=
      (Utf8.valid_of_ascii ht).append (by decide)
    rw [Utf8.valid_append_of_ascii (by decide), hlast.append_iff, get_token_string_valid,
      h.valid_iff]
  | _ => exact iff_of_true hname ht

theorem unexpected_tracks (h : l.Reads text) (ht : t.Fits text) (expected : TokenType)
    {context : Str} (hcontext : ∀ x ∈ context, x.toNat < 0x80) :
    (l.unexpected t expected context).Tracks text := by
  obtain ⟨after, hafter, hwhat⟩ := exception_message_expected l t expected context
  have hposition : Utf8.Valid ("[json.exception.parse_error.101] parse error".toList ++
      l.position_string ++ ": ".toList) :=
    ((show Utf8.Valid _ by decide).append
      (Utf8.valid_of_ascii (position_string_ascii l))).append (by decide)
  rw [Lexer.unexpected, Lexer.parse_error, hwhat, Turn.Tracks, Agrees, hposition.append_iff,
    Utf8.valid_append_of_ascii hafter, exception_message_valid h ht hcontext]

theorem complete_tracks (hvalid : Utf8.Valid text) (v : Json) (stack : List Frame) :
    (complete v stack).Tracks text := by
  cases stack with
  | nil => exact hvalid
  | cons frame stack => cases frame <;> exact hvalid

theorem parse_value_tracks (h : l.Reads text) (ht : t.Fits text) (stack : List Frame) :
    (parse_value stack t l).Tracks text := by
  cases t with
  | begin_object | begin_array => exact ht
  | value_float q =>
    cases q with
    | none => exact h.agrees (by decide) (by decide)
    | some q => exact complete_tracks ht _ stack
  | literal_false | literal_null | literal_true | value_integer | value_unsigned | value_string =>
    exact complete_tracks ht _ stack
  | parse_error | end_array | end_object | name_separator | value_separator =>
    exact unexpected_tracks h ht _ (by decide)
  | end_of_input =>
    rw [parse_value]
    split
    · exact parse_error_tracks ht (by decide)
    · exact unexpected_tracks h ht _ (by decide)

theorem turn_tracks (h : l.Reads text) (ht : t.Fits text) (expecting : Expecting)
    (stack : List Frame) : (expecting.turn stack t l).Tracks text := by
  unfold Expecting.turn
  split
  · exact parse_value_tracks h ht stack
  · exact complete_tracks ht _ stack
  · exact ht
  · exact unexpected_tracks h ht _ (by decide)
  · exact ht
  · exact unexpected_tracks h ht _ (by decide)
  · exact complete_tracks ht _ stack
  · exact parse_value_tracks h ht _
  · exact ht
  · exact complete_tracks ht _ stack
  · exact unexpected_tracks h ht _ (by decide)
  · exact ht
  · exact complete_tracks ht _ stack
  · exact unexpected_tracks h ht _ (by decide)
  · exact ht
  · exact unexpected_tracks h ht _ (by decide)
  · exact ht
  · exact unexpected_tracks h ht _ (by decide)

end Texts

section Runs

variable {l : Lexer} {text : Str} {p : Parser}

theorem resume_tracks {turn : Turn} (h : turn.Tracks text) (hl : l.Reads text) :
    (turn.resume l).Tracks text := by
  cases turn with
  | expects expecting stack => exact ⟨hl, h⟩
  | stopped result => exact h

/-- Past a token that ended before the byte, the byte begins another. -/
theorem reread_tracks {expecting : Expecting} {stack : List Frame} (hl : l.Reads text)
    (hvalid : Utf8.Valid text) (c : Option Char) :
    (Turn.reread l c (.expects expecting stack)).Tracks (text ++ c.toList) := by
  have hread := skip_whitespace_tracks hl hvalid c
  rw [Turn.reread]
  split
  · rename_i hresult
    rw [hresult] at hread
    exact hread
  · rename_i hresult
    rw [hresult] at hread
    exact resume_tracks (turn_tracks hread.1 hread.2 expecting stack) hread.1

theorem feed_tracks (h : (Progress.running p).Tracks text) (c : Option Char) :
    (p.feed c).Tracks (text ++ p.takes c) := by
  have hread := read_tracks h.1 h.2 c
  unfold Parser.feed Parser.takes
  cases hscan : p.scan.read (p.lexer.get c) c with
  | more scan l =>
    rw [hscan] at hread
    exact hread
  | token t l =>
    rw [hscan] at hread
    exact resume_tracks (turn_tracks hread.1 hread.2 p.expecting p.stack) hread.1
  | ungot t l =>
    rw [hscan] at hread
    have hturn := turn_tracks hread.1 hread.2 p.expecting p.stack
    dsimp only
    cases hexpecting : p.expecting.turn p.stack t l with
    | expects expecting stack =>
      rw [hexpecting] at hturn
      exact reread_tracks hread.1 hturn c
    | stopped result =>
      rw [hexpecting] at hturn
      exact (List.append_nil text).symm ▸ hturn

theorem takes_end (p : Parser) : p.takes none = [] := by
  unfold Parser.takes
  repeat' split
  all_goals rfl

theorem takes_of_running {q : Parser} {c : Char} (h : p.feed (some c) = .running q) :
    p.takes (some c) = [c] := by
  unfold Parser.feed at h
  unfold Parser.takes
  cases hscan : p.scan.read (p.lexer.get (some c)) (some c) with
  | more scan l => rfl
  | token t l => rfl
  | ungot t l =>
    rw [hscan] at h
    dsimp only at h ⊢
    cases hturn : p.expecting.turn p.stack t l with
    | expects expecting stack => rfl
    | stopped result =>
      rw [hturn] at h
      cases h

theorem takes_sublist (p : Parser) (c : Char) : p.takes (some c) = [c] ∨ p.takes (some c) = [] := by
  unfold Parser.takes
  repeat' split
  all_goals first
    | exact .inl rfl
    | exact .inr rfl

theorem reads_prefix (p : Parser) (text : Str) : p.reads text <+: text := by
  induction text generalizing p with
  | nil => exact List.nil_prefix
  | cons c text ih =>
    rw [Parser.reads]
    cases hp : p.feed (some c) with
    | running q =>
      rw [takes_of_running hp]
      exact List.cons_prefix_cons.mpr ⟨rfl, ih q⟩
    | stopped result =>
      rcases takes_sublist p c with htakes | htakes
      · rw [htakes]
        exact List.cons_prefix_cons.mpr ⟨rfl, List.nil_prefix⟩
      · rw [htakes]
        exact List.nil_prefix

theorem consumed_prefix (text : Str) : consumed text <+: text := reads_prefix .new text

theorem run_agrees (h : (Progress.running p).Tracks text) (rest : Str) :
    Agrees (text ++ p.reads rest) (rest.foldl Progress.feed (.running p)).result := by
  induction rest generalizing p text with
  | nil =>
    obtain ⟨result, hend⟩ := feed_end p
    have hfeed := feed_tracks h none
    rw [takes_end, hend] at hfeed
    rw [List.foldl_nil, Progress.result, hend]
    exact hfeed
  | cons c rest ih =>
    have hfeed := feed_tracks h (some c)
    rw [List.foldl_cons, Progress.feed, Parser.reads, ← List.append_assoc]
    cases hp : p.feed (some c) with
    | running q =>
      rw [hp] at hfeed
      exact ih hfeed
    | stopped result =>
      rw [hp] at hfeed
      rw [foldl_stopped, List.append_nil]
      exact hfeed

theorem new_tracks : (Progress.running .new).Tracks [] := ⟨⟨[], rfl, rfl⟩, rfl⟩

theorem parse_agrees (text : Str) : Agrees (consumed text) (parse text) :=
  run_agrees new_tracks text

/-- Whatever it makes of a text, the parser has read bytes that are valid UTF-8 just in case its
error message, if there is one, is valid UTF-8. -/
theorem consumed_valid_iff (text : Str) :
    Utf8.Valid (consumed text) ↔ ∀ what, parse text = .error what → Utf8.Valid what := by
  have h := parse_agrees text
  cases hparse : parse text with
  | ok j =>
    rw [hparse] at h
    exact iff_of_true h (by simp)
  | error what =>
    rw [hparse] at h
    simp only [Except.error.injEq, forall_eq']
    exact h.symm

end Runs

end ServiceSystem.Nlohmann
