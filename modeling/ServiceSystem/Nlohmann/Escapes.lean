import ServiceSystem.Foundations.Json
import Mathlib.Data.List.GetD

namespace ServiceSystem.Nlohmann

open Foundations

section Decoder

def UTF8_ACCEPT : ℕ := 0

def UTF8_REJECT : ℕ := 1

/-- The types of the bytes. -/
def byteTypes : List ℕ :=
  [0, 0, 0, 0, 0, 0, 0, 0, 0, 0, 0, 0, 0, 0, 0, 0,
    0, 0, 0, 0, 0, 0, 0, 0, 0, 0, 0, 0, 0, 0, 0, 0,
    0, 0, 0, 0, 0, 0, 0, 0, 0, 0, 0, 0, 0, 0, 0, 0,
    0, 0, 0, 0, 0, 0, 0, 0, 0, 0, 0, 0, 0, 0, 0, 0,
    0, 0, 0, 0, 0, 0, 0, 0, 0, 0, 0, 0, 0, 0, 0, 0,
    0, 0, 0, 0, 0, 0, 0, 0, 0, 0, 0, 0, 0, 0, 0, 0,
    0, 0, 0, 0, 0, 0, 0, 0, 0, 0, 0, 0, 0, 0, 0, 0,
    0, 0, 0, 0, 0, 0, 0, 0, 0, 0, 0, 0, 0, 0, 0, 0,
    1, 1, 1, 1, 1, 1, 1, 1, 1, 1, 1, 1, 1, 1, 1, 1,
    9, 9, 9, 9, 9, 9, 9, 9, 9, 9, 9, 9, 9, 9, 9, 9,
    7, 7, 7, 7, 7, 7, 7, 7, 7, 7, 7, 7, 7, 7, 7, 7,
    7, 7, 7, 7, 7, 7, 7, 7, 7, 7, 7, 7, 7, 7, 7, 7,
    8, 8, 2, 2, 2, 2, 2, 2, 2, 2, 2, 2, 2, 2, 2, 2,
    2, 2, 2, 2, 2, 2, 2, 2, 2, 2, 2, 2, 2, 2, 2, 2,
    0xA, 3, 3, 3, 3, 3, 3, 3, 3, 3, 3, 3, 3, 4, 3, 3,
    0xB, 6, 6, 6, 5, 8, 8, 8, 8, 8, 8, 8, 8, 8, 8, 8]

/-- For each state, by the type of a byte, the next state. -/
def transitions : List ℕ :=
  [0, 1, 2, 3, 5, 8, 7, 1, 1, 1, 4, 6, 1, 1, 1, 1,
    1, 1, 1, 1, 1, 1, 1, 1, 1, 1, 1, 1, 1, 1, 1, 1,
    1, 0, 1, 1, 1, 1, 1, 0, 1, 0, 1, 1, 1, 1, 1, 1,
    1, 2, 1, 1, 1, 1, 1, 2, 1, 2, 1, 1, 1, 1, 1, 1,
    1, 1, 1, 1, 1, 1, 1, 2, 1, 1, 1, 1, 1, 1, 1, 1,
    1, 2, 1, 1, 1, 1, 1, 1, 1, 2, 1, 1, 1, 1, 1, 1,
    1, 1, 1, 1, 1, 1, 1, 3, 1, 3, 1, 1, 1, 1, 1, 1,
    1, 3, 1, 1, 1, 1, 1, 3, 1, 3, 1, 1, 1, 1, 1, 1,
    1, 3, 1, 1, 1, 1, 1, 1, 1, 1, 1, 1, 1, 1, 1, 1]

def utf8d : List ℕ := byteTypes ++ transitions

/-- The new state, and the new code point in 32 bits. -/
def decode (state codep byte : ℕ) : ℕ × ℕ :=
  let type := utf8d.getD byte 0
  let codep :=
    if state ≠ UTF8_ACCEPT then (byte &&& 0x3F) ||| (codep <<< 6 % 2 ^ 32)
    else (0xFF >>> type) &&& byte
  (utf8d.getD (256 + state * 16 + type) 0, codep)

/-- The number that the table has for a state. -/
def stateNumber : Utf8.State → ℕ
  | .accept => 0
  | .reject => 1
  | .tail1 => 2
  | .tail2 => 3
  | .afterE0 => 4
  | .afterED => 5
  | .afterF0 => 6
  | .tail3 => 7
  | .afterF4 => 8

theorem stateNumber_accept {state : Utf8.State} :
    stateNumber state = UTF8_ACCEPT ↔ state = .accept := by
  cases state <;> decide

theorem stateNumber_reject {state : Utf8.State} :
    stateNumber state = UTF8_REJECT ↔ state = .reject := by
  cases state <;> decide

theorem utf8d_type {b : ℕ} (h : b < 256) : utf8d.getD b 0 = byteTypes.getD b 0 := by
  rw [utf8d, List.getD_append _ _ _ _ (h.trans_le (by decide +kernel))]

theorem utf8d_transition (n : ℕ) : utf8d.getD (256 + n) 0 = transitions.getD n 0 := by
  have hlength : byteTypes.length = 256 := by decide +kernel
  rw [utf8d, List.getD_append_right _ _ _ _ (by omega), hlength, Nat.add_sub_cancel_left]

/-- The bytes from `lo` to `hi` are of a type. -/
def OfType (lo hi type : ℕ) (p : ℕ × ℕ) : Prop := (lo ≤ p.2 ∧ p.2 ≤ hi) ∧ p.1 = type

instance (lo hi type : ℕ) (p : ℕ × ℕ) : Decidable (OfType lo hi type p) :=
  inferInstanceAs (Decidable (_ ∧ _))

theorem byte_types : ∀ p ∈ byteTypes.zipIdx, OfType 0x00 0x7F 0 p ∨ OfType 0x80 0x8F 1 p ∨
    OfType 0x90 0x9F 9 p ∨ OfType 0xA0 0xBF 7 p ∨ OfType 0xC0 0xC1 8 p ∨ OfType 0xC2 0xDF 2 p ∨
    OfType 0xE0 0xE0 0xA p ∨ OfType 0xE1 0xEC 3 p ∨ OfType 0xED 0xED 4 p ∨ OfType 0xEE 0xEF 3 p ∨
    OfType 0xF0 0xF0 0xB p ∨ OfType 0xF1 0xF3 6 p ∨ OfType 0xF4 0xF4 5 p ∨ OfType 0xF5 0xFF 8 p := by
  decide +kernel

theorem mem_byteTypes {b : ℕ} (h : b < 256) : (byteTypes.getD b 0, b) ∈ byteTypes.zipIdx := by
  have hlength : b < byteTypes.length := h.trans_le (by decide +kernel)
  rw [List.mem_zipIdx_iff_getElem?, List.getD_eq_getElem _ _ hlength, List.getElem?_eq_getElem hlength]

theorem between_iff {lo hi : ℕ} {c : Char} :
    Utf8.between lo hi c = true ↔ lo ≤ c.toNat ∧ c.toNat ≤ hi := by
  rw [Utf8.between, Bool.and_eq_true, decide_eq_true_eq, decide_eq_true_eq]

/-- The table is the automaton that reads UTF-8. -/
theorem decode_state (state : Utf8.State) (codep : ℕ) {c : Char} (hc : c.toNat < 256) :
    (decode (stateNumber state) codep c.toNat).1 = stateNumber (Utf8.step state c) := by
  show utf8d.getD (256 + stateNumber state * 16 + utf8d.getD c.toNat 0) 0 = _
  rw [utf8d_type hc, Nat.add_assoc, utf8d_transition]
  rcases byte_types _ (mem_byteTypes hc) with ⟨hb, ht⟩ | ⟨hb, ht⟩ | ⟨hb, ht⟩ | ⟨hb, ht⟩ |
    ⟨hb, ht⟩ | ⟨hb, ht⟩ | ⟨hb, ht⟩ | ⟨hb, ht⟩ | ⟨hb, ht⟩ | ⟨hb, ht⟩ | ⟨hb, ht⟩ | ⟨hb, ht⟩ |
    ⟨hb, ht⟩ | ⟨hb, ht⟩
  all_goals
    simp only at hb ht
    rw [ht]
    cases state <;> simp (disch := omega) only [Utf8.step, between_iff, if_pos, if_neg] <;> rfl

/-- How far a code point has been put together. -/
def Partial (state : Utf8.State) (codep : ℕ) : Prop :=
  match state with
  | .accept | .reject => True
  | .tail1 => 2 ≤ codep ∧ codep < 2 ^ 15
  | .tail2 => 1 ≤ codep ∧ codep < 2 ^ 9
  | .tail3 | .afterF4 => 1 ≤ codep ∧ codep < 2 ^ 3
  | .afterE0 | .afterF0 => codep = 0
  | .afterED => 1 ≤ codep ∧ codep < 2 ^ 4

theorem first_codep : ∀ p ∈ byteTypes.zipIdx, let codep := (0xFF >>> p.1) &&& p.2
    (p.2 < 0x80 → codep = p.2) ∧
      (0xC2 ≤ p.2 ∧ p.2 ≤ 0xDF → 2 ≤ codep ∧ codep < 2 ^ 5) ∧
      (p.2 = 0xE0 ∨ p.2 = 0xF0 → codep = 0) ∧
      (0xE1 ≤ p.2 ∧ p.2 ≤ 0xEF → 1 ≤ codep ∧ codep < 2 ^ 4) ∧
      (0xF1 ≤ p.2 ∧ p.2 ≤ 0xF4 → 1 ≤ codep ∧ codep < 2 ^ 3) := by
  decide +kernel

theorem next_codep {codep byte : ℕ} (h : codep < 2 ^ 26) :
    (byte &&& 0x3F) ||| (codep <<< 6 % 2 ^ 32) = 64 * codep + byte % 64 := by
  have hshift : codep <<< 6 = 2 ^ 6 * codep := by rw [Nat.shiftLeft_eq, Nat.mul_comm]
  have hbyte : byte &&& 0x3F = byte % 2 ^ 6 := Nat.and_two_pow_sub_one_eq_mod byte 6
  have hlt : byte % 2 ^ 6 < 2 ^ 6 := Nat.mod_lt _ (by decide)
  have hfits : 2 ^ 6 * codep < 2 ^ 32 := by omega
  rw [hbyte, hshift, Nat.mod_eq_of_lt hfits, Nat.or_comm, ← Nat.two_pow_add_eq_or_of_lt hlt]
  rfl

/-- A code point is the byte itself, or none that is written in another way. -/
theorem decode_codep {state : Utf8.State} {codep : ℕ} (h : Partial state codep) {c : Char}
    (hc : c.toNat < 256) :
    let codep' := (decode (stateNumber state) codep c.toNat).2
    Partial (Utf8.step state c) codep' ∧
      (Utf8.step state c = .accept → codep' = c.toNat ∨ 0x80 ≤ codep' ∧ 0x80 ≤ c.toNat) := by
  by_cases haccept : state = .accept
  · subst haccept
    have hfirst := first_codep _ (mem_byteTypes hc)
    have hx : (decode (stateNumber .accept) codep c.toNat).2 =
        (0xFF >>> byteTypes.getD c.toNat 0) &&& c.toNat := by
      rw [← utf8d_type hc]
      rfl
    dsimp only at hfirst ⊢
    rw [hx]
    generalize (0xFF >>> byteTypes.getD c.toNat 0) &&& c.toNat = x at hfirst ⊢
    simp only [Utf8.step, between_iff]
    split_ifs <;> refine ⟨?_, ?_⟩ <;> first
      | trivial
      | exact fun _ ↦ .inl (hfirst.1 ‹_›)
      | (intro hne; cases hne)
      | (simp only [Partial]; omega)
  · have hx : state ≠ .reject → (decode (stateNumber state) codep c.toNat).2 =
        64 * codep + c.toNat % 64 := by
      intro hreject
      have hlt : codep < 2 ^ 26 := by
        cases state <;> simp only [Partial] at h <;> first | contradiction | omega
      rw [decode, if_pos (stateNumber_accept.not.mpr haccept), next_codep hlt]
    cases state with
    | accept => contradiction
    | reject =>
      refine ⟨trivial, ?_⟩
      intro hne
      cases hne
    | tail1 | tail2 | tail3 | afterE0 | afterED | afterF0 | afterF4 =>
      rw [hx (by decide)]
      simp only [Utf8.step, between_iff, Partial] at h ⊢
      split_ifs <;> refine ⟨?_, ?_⟩ <;> first
        | trivial
        | (intro hne; cases hne; done)
        | (intro _; omega)
        | omega

end Decoder

section Escaped

/-- `%04x` of `snprintf`. -/
def hex4 (n : ℕ) : Str := Str.zeroPad 4 (Nat.toDigits 16 n)

/-- What the serializer writes for a code point, of which `c` is the last byte. -/
def escapeOf (codepoint : ℕ) (c : Char) : Str :=
  if codepoint = 0x08 then "\\b".toList
  else if codepoint = 0x09 then "\\t".toList
  else if codepoint = 0x0A then "\\n".toList
  else if codepoint = 0x0C then "\\f".toList
  else if codepoint = 0x0D then "\\r".toList
  else if codepoint = 0x22 then "\\\"".toList
  else if codepoint = 0x5C then "\\\\".toList
  else if codepoint ≤ 0x1F then "\\u".toList ++ hex4 codepoint
  else [c]

/-- The bytes of `string_buffer`. -/
def bufferSize : ℕ := 512

/-- The local variables of `dump_escaped`: of the buffer the bytes that are in use, and what has
gone to the output. -/
structure Escaping where
  codepoint : ℕ
  state : ℕ
  string_buffer : Str
  written : Str

namespace Escaping

def new : Escaping := ⟨0, UTF8_ACCEPT, [], []⟩

/-- Past the end of the buffer, with the terminator of `snprintf`, there is no saying what the
bytes are written to; no exception has an empty text. -/
def put (e : Escaping) (text : Str) : Except Str Escaping :=
  if e.string_buffer.length + text.length < bufferSize then
    .ok { e with string_buffer := e.string_buffer ++ text }
  else .error []

def flush (e : Escaping) : Escaping :=
  if bufferSize - e.string_buffer.length < 13 then
    { e with written := e.written ++ e.string_buffer, string_buffer := [] }
  else e

/-- After the call of `decode`. -/
def decoded (e : Escaping) (c : Char) : Escaping :=
  { e with
    codepoint := (decode e.state e.codepoint c.toNat).2
    state := (decode e.state e.codepoint c.toNat).1 }

/-- The body of the loop. -/
def read (e : Escaping) (i : ℕ) (c : Char) : Except Str Escaping :=
  let e := e.decoded c
  if e.state = UTF8_ACCEPT then (e.put (escapeOf e.codepoint c)).map flush
  else if e.state = UTF8_REJECT then .error (Json.type_error 316
    ("invalid UTF-8 byte at index ".toList ++ Str.ofNat i ++ ": 0x".toList ++ Json.hexByte c))
  else e.put [c]

def loop (e : Escaping) (i : ℕ) : Str → Except Str Escaping
  | [] => .ok e
  | c :: s => e.read i c >>= fun e ↦ e.loop (i + 1) s

end Escaping

/-- With the error handler `strict`, and without `ensure_ascii`. -/
def dump_escaped (s : Str) : Except Str Str := do
  let e ← Escaping.new.loop 0 s
  if e.state = UTF8_ACCEPT then
    .ok (if 0 < e.string_buffer.length then e.written ++ e.string_buffer else e.written)
  else .error (Json.type_error 316
    ("incomplete UTF-8 string; last byte: 0x".toList ++ Json.hexByte (s.getLastD '\x00')))

/-- What stands in a JSON text for a byte of a string. -/
def escape (c : Char) : Str := escapeOf c.toNat c

theorem escapeOf_high {codepoint : ℕ} (h : 0x80 ≤ codepoint) (c : Char) :
    escapeOf codepoint c = [c] := by
  simp (disch := omega) only [escapeOf, if_neg]

theorem escape_of_decoded {codepoint : ℕ} {c : Char}
    (h : codepoint = c.toNat ∨ 0x80 ≤ codepoint ∧ 0x80 ≤ c.toNat) :
    escapeOf codepoint c = escape c := by
  rcases h with rfl | ⟨hcodepoint, hc⟩
  · rfl
  · rw [escape, escapeOf_high hcodepoint, escapeOf_high hc]

/-- A byte that does not complete a character is not ASCII. -/
theorem high_of_incomplete {state : Utf8.State} {c : Char} (h : Utf8.step state c ≠ .accept) :
    Utf8.step state c = .reject ∨ 0x80 ≤ c.toNat := by
  rcases Nat.lt_or_ge c.toNat 0x80 with hc | hc
  · rw [Utf8.step_of_ascii hc] at h ⊢
    split_ifs at h ⊢ with hstate
    · exact absurd rfl h
    · exact .inl rfl
  · exact .inr hc

theorem escapeOf_length (codepoint : ℕ) (c : Char) : (escapeOf codepoint c).length ≤ 6 := by
  have hcontrol : ∀ n < 32, ("\\u".toList ++ hex4 n).length = 6 := by decide
  unfold escapeOf
  split_ifs with _ _ _ _ _ _ _ h
  all_goals first | exact (hcontrol codepoint (by omega)).le | decide | exact Nat.one_le_ofNat

/-- At most this many bytes of a character have been read. -/
def pending : Utf8.State → ℕ
  | .accept | .reject => 0
  | .tail3 | .afterE0 | .afterED | .afterF0 | .afterF4 => 1
  | .tail2 => 2
  | .tail1 => 3

theorem pending_le (state : Utf8.State) : pending state ≤ 3 := by
  cases state <;> decide

theorem pending_step {state : Utf8.State} {c : Char} (haccept : Utf8.step state c ≠ .accept)
    (hreject : Utf8.step state c ≠ .reject) : pending state + 1 ≤ pending (Utf8.step state c) := by
  revert haccept hreject
  cases state <;> simp only [Utf8.step] <;> (try split_ifs) <;> decide +revert

namespace Escaping

/-- The loop after some bytes: the state of the decoder, what the bytes come to, and the room that
is left in the buffer. -/
structure After (e : Escaping) (state : Utf8.State) (text : Str) : Prop where
  decoder : e.state = stateNumber state
  codepoint : Partial state e.codepoint
  text : e.written ++ e.string_buffer = text
  room : e.string_buffer.length + 13 ≤ bufferSize + pending state

theorem flush_room (e : Escaping) : e.flush.string_buffer.length + 13 ≤ bufferSize := by
  have hsize : bufferSize = 512 := rfl
  rw [flush]
  split_ifs
  · exact Nat.le_of_ble_eq_true rfl
  · omega

theorem put_eq (e : Escaping) {text : Str} (h : e.string_buffer.length + text.length < bufferSize) :
    e.put text = .ok { e with string_buffer := e.string_buffer ++ text } :=
  if_pos h

theorem flush_text (e : Escaping) :
    e.flush.written ++ e.flush.string_buffer = e.written ++ e.string_buffer := by
  rw [flush]
  split_ifs
  · exact List.append_nil _
  · rfl

theorem flush_state (e : Escaping) :
    e.flush.state = e.state ∧ e.flush.codepoint = e.codepoint := by
  rw [flush]
  split_ifs <;> exact ⟨rfl, rfl⟩

theorem After.read {e : Escaping} {state : Utf8.State} {text : Str} (h : e.After state text)
    (i : ℕ) {c : Char} (hc : c.toNat < 256) :
    if Utf8.step state c = .reject then e.read i c = .error (Json.type_error 316
      ("invalid UTF-8 byte at index ".toList ++ Str.ofNat i ++ ": 0x".toList ++ Json.hexByte c))
    else ∃ e', e.read i c = .ok e' ∧ e'.After (Utf8.step state c) (text ++ escape c) := by
  have hstate := decode_state state e.codepoint hc
  have hcodepoint := decode_codep h.codepoint hc
  rw [← h.decoder] at hstate hcodepoint
  obtain ⟨hbegun, hdecoded⟩ := hcodepoint
  have hroom : (e.decoded c).string_buffer.length + 13 ≤ 512 + pending state := h.room
  have hpending := pending_le state
  have hsize : bufferSize = 512 := rfl
  split_ifs with hreject
  · have hne : (e.decoded c).state ≠ UTF8_ACCEPT := by
      rw [show (e.decoded c).state = _ from hstate, hreject]
      decide
    exact (if_neg hne).trans (if_pos (hstate.trans (stateNumber_reject.mpr hreject)))
  · by_cases haccept : Utf8.step state c = .accept
    · have hlength := escapeOf_length (e.decoded c).codepoint c
      have hput := (e.decoded c).put_eq (show (e.decoded c).string_buffer.length +
        (escapeOf (e.decoded c).codepoint c).length < bufferSize by omega)
      refine ⟨_, (if_pos (hstate.trans (stateNumber_accept.mpr haccept))).trans
        (congrArg (Except.map flush) hput), ?_⟩
      constructor
      · rw [(flush_state _).1]
        exact hstate
      · rw [(flush_state _).2]
        exact hbegun
      · rw [flush_text, ← h.text, ← escape_of_decoded (hdecoded haccept)]
        exact (List.append_assoc _ _ _).symm
      · exact (flush_room _).trans (Nat.le_add_right _ _)
    · have hne : (e.decoded c).state ≠ UTF8_ACCEPT := by
        rwa [show (e.decoded c).state = _ from hstate, ne_eq, stateNumber_accept]
      have hne' : (e.decoded c).state ≠ UTF8_REJECT := by
        rwa [show (e.decoded c).state = _ from hstate, ne_eq, stateNumber_reject]
      have hput := (e.decoded c).put_eq (show (e.decoded c).string_buffer.length +
        [c].length < bufferSize by rw [List.length_singleton]; omega)
      refine ⟨_, (if_neg hne).trans ((if_neg hne').trans hput), hstate, hbegun, ?_, ?_⟩
      · have hhigh := (high_of_incomplete haccept).resolve_left hreject
        rw [escape, escapeOf_high hhigh, ← h.text]
        exact (List.append_assoc _ _ _).symm
      · have hstep := pending_step haccept hreject
        rw [List.length_append, List.length_singleton]
        omega

theorem After.loop {e : Escaping} {state : Utf8.State} {text : Str} (h : e.After state text)
    (i : ℕ) {s : Str} (hs : ∀ c ∈ s, c.toNat < 256) :
    match Json.rejected state i s with
    | some (n, c) => e.loop i s = .error (Json.type_error 316
      ("invalid UTF-8 byte at index ".toList ++ Str.ofNat n ++ ": 0x".toList ++ Json.hexByte c))
    | none => ∃ e', e.loop i s = .ok e' ∧
      e'.After (s.foldl Utf8.step state) (text ++ s.flatMap escape) := by
  induction s generalizing e state text i with
  | nil => exact ⟨e, rfl, by simpa using h⟩
  | cons c s ih =>
    obtain ⟨hc, hs⟩ := List.forall_mem_cons.mp hs
    have hread := h.read i hc
    rw [Json.rejected]
    split_ifs at hread ⊢ with hreject
    · simp only [Escaping.loop, hread]
      rfl
    · obtain ⟨e', he', hafter⟩ := hread
      have hrest := ih hafter (i + 1) hs
      simp only [Escaping.loop, he', List.foldl_cons, List.flatMap_cons, ← List.append_assoc]
      exact hrest

end Escaping

theorem foldl_reject (s : Str) : s.foldl Utf8.step .reject = .reject := by
  induction s with
  | nil => rfl
  | cons c s ih => exact ih

theorem rejected_eq_none {state : Utf8.State} {i : ℕ} {s : Str} (h : state ≠ .reject) :
    Json.rejected state i s = none ↔ s.foldl Utf8.step state ≠ .reject := by
  induction s generalizing state i with
  | nil => simp [Json.rejected, h]
  | cons c s ih =>
    rw [Json.rejected, List.foldl_cons]
    split_ifs with hreject
    · simp [hreject, foldl_reject]
    · exact ih hreject

/-- The serializer rejects the strings that are not UTF-8, and the others come out byte by byte. -/
theorem dump_escaped_eq {s : Str} (hs : ∀ c ∈ s, c.toNat < 256) :
    dump_escaped s = (Json.dumpString s).map fun _ ↦ s.flatMap escape := by
  have hnew : Escaping.new.After .accept [] := ⟨rfl, trivial, rfl, by decide⟩
  have hloop := hnew.loop 0 hs
  have hrejected := rejected_eq_none (i := 0) (s := s) (show Utf8.State.accept ≠ .reject by decide)
  rw [Json.dumpString]
  cases hr : Json.rejected .accept 0 s with
  | some x =>
    obtain ⟨n, c⟩ := x
    rw [hr] at hloop hrejected
    have hreject : s.foldl Utf8.step .accept = .reject := by simpa using hrejected
    have hinvalid : ¬ Utf8.Valid s := by
      rw [Utf8.Valid, hreject]
      decide
    rw [if_neg hinvalid, dump_escaped]
    simp only at hloop
    rw [hloop]
    rfl
  | none =>
    rw [hr] at hloop
    obtain ⟨e, he, hstate, -, htext, -⟩ := hloop
    have hbuffer : e.string_buffer.length = 0 → e.string_buffer = [] := List.length_eq_zero_iff.mp
    have hwritten : (if 0 < e.string_buffer.length then e.written ++ e.string_buffer
        else e.written) = s.flatMap escape := by
      rw [List.nil_append] at htext
      split_ifs with hlength
      · exact htext
      · rw [← htext, hbuffer (by omega), List.append_nil]
    have hdump : dump_escaped s = if e.state = UTF8_ACCEPT then .ok (s.flatMap escape)
        else .error (Json.type_error 316
          ("incomplete UTF-8 string; last byte: 0x".toList ++ Json.hexByte (s.getLastD '\x00'))) := by
      rw [dump_escaped, he, ← hwritten]
      rfl
    rw [hdump]
    by_cases hvalid : Utf8.Valid s
    · rw [if_pos hvalid, if_pos (hstate.trans (stateNumber_accept.mpr hvalid))]
      rfl
    · rw [if_neg hvalid, if_neg (fun h ↦ hvalid (stateNumber_accept.mp (hstate ▸ h)))]
      rfl

end Escaped

end ServiceSystem.Nlohmann
