import ServiceSystem.Nlohmann.Parser

namespace ServiceSystem.Nlohmann

open Foundations

def after (text : Str) : Progress := text.foldl Progress.feed (.running .new)

/-- The result is there before the text ends, whatever may follow it. -/
def Settled (text : Str) : Prop := ∃ result, after text = .stopped result

instance (text : Str) : Decidable (Settled text) :=
  match h : after text with
  | .stopped result => .isTrue ⟨result, h⟩
  | .running _ => .isFalse fun ⟨_, hstopped⟩ ↦ Progress.noConfusion (h.symm.trans hstopped)

theorem parse_eq (text : Str) : parse text = (after text).result := rfl

theorem foldl_stopped (result : Except Str Json) (text : Str) :
    text.foldl Progress.feed (.stopped result) = .stopped result := by
  induction text with
  | nil => rfl
  | cons c text ih => exact ih

theorem after_append {text rest : Str} {result : Except Str Json}
    (h : after text = .stopped result) :
    after (text ++ rest) = .stopped result := by
  rw [after, List.foldl_append,
    show text.foldl Progress.feed (.running .new) = .stopped result from h,
    foldl_stopped]

theorem parse_append {text rest : Str} {result : Except Str Json}
    (h : after text = .stopped result) :
    parse (text ++ rest) = result := by
  rw [parse_eq, after_append h]
  rfl

theorem running_append (text : Str) {rest : Str} {p : Parser} {start : Progress}
    (h : (text ++ rest).foldl Progress.feed start = .running p) :
    ∃ q, text.foldl Progress.feed start = .running q ∧
      rest.foldl Progress.feed (.running q) = .running p := by
  rw [List.foldl_append] at h
  cases hq : text.foldl Progress.feed start with
  | running q => exact ⟨q, rfl, hq ▸ h⟩
  | stopped result =>
    rw [hq, foldl_stopped] at h
    cases h

section Turns

variable {expecting : Expecting} {stack : List Frame} {l : Lexer}

theorem turn_parse_error (expecting : Expecting) (stack : List Frame) (error_message : Str)
    (l : Lexer) :
    ∃ result, expecting.turn stack (.parse_error error_message) l = .stopped result := by
  cases expecting <;> exact ⟨_, rfl⟩

theorem turn_end_of_input (expecting : Expecting) (stack : List Frame) (l : Lexer) :
    ∃ result, expecting.turn stack .end_of_input l = .stopped result := by
  have hvalue : ∀ stack, ∃ result, parse_value stack .end_of_input l = .stopped result := by
    intro stack
    rw [parse_value]
    split_ifs <;> exact ⟨_, rfl⟩
  cases expecting with
  | value => exact hvalue stack
  | firstItem => exact hvalue (.array [] :: stack)
  | firstKey | separator | endArray | endObject | nextKey | endOfInput => exact ⟨_, rfl⟩

theorem feed_end (p : Parser) : ∃ result, p.feed none = .stopped result := by
  have herror : ∀ error_message l, ∃ result,
      (p.expecting.turn p.stack (.parse_error error_message) l).resume l = .stopped result := by
    intro error_message l
    obtain ⟨result, h⟩ := turn_parse_error p.expecting p.stack error_message l
    exact ⟨result, by rw [h]; rfl⟩
  have hend : ∀ expecting stack l, ∃ result,
      (Expecting.turn expecting stack .end_of_input l).resume l = .stopped result := by
    intro expecting stack l
    obtain ⟨result, h⟩ := turn_end_of_input expecting stack l
    exact ⟨result, by rw [h]; rfl⟩
  have hreread : ∀ turn l, ∃ result, Turn.reread l none turn = .stopped result := by
    intro turn l
    cases turn with
    | expects expecting stack => exact hend expecting stack _
    | stopped result => exact ⟨result, rfl⟩
  obtain ⟨expecting, stack, scan, l⟩ := p
  cases scan with
  | bom0 | whitespace => exact hend expecting stack _
  | bom1 | bom2 | string | escape | codepoint | tail => exact herror _ _
  | literal which i => exact herror _ _
  | surrogate high backslash => cases backslash <;> exact herror _ _
  | number state type =>
    cases state with
    | minus | decimal1 | exponent | sign => exact herror _ _
    | zero | any1 | decimal2 | any2 => exact hreread _ _

end Turns

section Names

variable {p q : Parser}

theorem resume_running {turn : Turn} {l : Lexer} (h : turn.resume l = .running q) :
    turn = .expects q.expecting q.stack ∧ q.scan = .whitespace := by
  cases turn with
  | expects => cases h; exact ⟨rfl, rfl⟩
  | stopped => cases h

theorem feed_quote (h : p.feed (some '"') = .running q) :
    q.scan = .string ∨ q.scan = .whitespace := by
  have herror : ∀ error_message l,
      (p.expecting.turn p.stack (.parse_error error_message) l).resume l ≠ .running q := by
    intro error_message l hrunning
    obtain ⟨result, hstopped⟩ := turn_parse_error p.expecting p.stack error_message l
    rw [hstopped] at hrunning
    cases hrunning
  obtain ⟨expecting, stack, scan, l⟩ := p
  cases scan with
  | bom0 | whitespace | escape => cases h; exact .inl rfl
  | bom1 | bom2 | codepoint => exact absurd h (herror _ _)
  | string => exact .inr (resume_running h).2
  | surrogate high backslash => cases backslash <;> exact absurd h (herror _ _)
  | literal which i =>
    have hletters : '"' ∉ which.text := by cases which <;> decide
    have hne : ¬ ((some '"').isSome ∧ some '"' = which.text[i]?) := fun ⟨_, hi⟩ ↦
      hletters (List.mem_of_getElem? hi.symm)
    have hfail : (l.get (some '"')).scan_literal which i (some '"') =
        (l.get (some '"')).fail "invalid literal".toList := if_neg hne
    simp only [Parser.feed, Scan.read, hfail] at h
    exact absurd h (herror _ _)
  | tail state =>
    cases state with
    | accept => cases h; exact .inl rfl
    | reject | tail1 | tail2 | tail3 | afterE0 | afterED | afterF0 | afterF4 =>
      exact absurd h (herror _ _)
  | number state type =>
    have hreread : ∀ turn l, Turn.reread l (some '"') turn = .running q → q.scan = .string := by
      intro turn l hrunning
      cases turn with
      | expects => cases hrunning; rfl
      | stopped => cases hrunning
    cases state with
    | minus | decimal1 | exponent | sign => exact absurd h (herror _ _)
    | zero | any1 | decimal2 | any2 => exact .inl (hreread _ _ h)

theorem feed_letter {c : Char} (hc : c = 'p' ∨ c = '\\') (hscan : p.scan = .whitespace) :
    p.feed (some c) ≠ .running q := by
  obtain ⟨expecting, stack, scan, l⟩ := p
  obtain rfl : scan = .whitespace := hscan
  obtain ⟨result, hstopped⟩ :=
    turn_parse_error expecting stack "invalid literal".toList (l.get (some c))
  have hfeed : Parser.feed ⟨expecting, stack, .whitespace, l⟩ (some c) = .stopped result := by
    rcases hc with rfl | rfl <;> exact congrArg (Turn.resume _) hstopped
  rw [hfeed]
  nofun

theorem feed_more {c : Char} {scan : Scan} {l : Lexer}
    (h : p.scan.read (p.lexer.get (some c)) (some c) = .more scan l) :
    (Progress.running p).feed c = .running ⟨p.expecting, p.stack, scan, l⟩ := by
  rw [Progress.feed, Parser.feed, h]

/-- A character that stands for itself in a string. -/
def isPlain (c : Char) : Bool := c ≠ '"' && c ≠ '\\' && 0x20 ≤ c.toNat && c.toNat < 0x80

/-- How a character may be written in a string: as it is, or by its code. -/
inductive Spells (c : Char) : Str → Prop
  | self : Spells c [c]
  | code {h₁ h₂ h₃ h₄ : Char} {a₁ a₂ a₃ a₄ : Fin 16} (h : [h₁, h₂, h₃, h₄].map hexDigit =
      [some a₁, some a₂, some a₃, some a₄]) (hc : codepointOf a₁ a₂ a₃ a₄ = c.toNat) :
      Spells c ['\\', 'u', h₁, h₂, h₃, h₄]

theorem foldl_self {c : Char} (hc : isPlain c = true) (hscan : p.scan = .string) :
    ∃ q, [c].foldl Progress.feed (.running p) = .running q ∧ q.scan = .string := by
  simp only [isPlain, Bool.and_eq_true, decide_eq_true_eq, ne_eq] at hc
  obtain ⟨⟨⟨hquote, hbackslash⟩, hlow⟩, hhigh⟩ := hc
  have hstep : Utf8.step .accept c = .accept := by rw [Utf8.step, if_pos hhigh]
  have hread : p.scan.read (p.lexer.get (some c)) (some c) =
      .more .string ((p.lexer.get (some c)).add c) := by
    rw [hscan, Scan.read, Lexer.scan_string, if_neg hquote, if_neg hbackslash,
      if_neg (by omega), hstep]
  exact ⟨_, feed_more hread, rfl⟩

theorem get_codepoint_digit (l : Lexer) {c : Char} {d : Fin 16} (hc : hexDigit c = some d)
    (digits : List (Fin 16)) (hlength : digits.length < 3) :
    l.get_codepoint none digits (some c) = .more (.codepoint none (digits ++ [d])) l := by
  unfold Lexer.get_codepoint
  rw [Option.bind_some, hc]
  match digits, hlength with
  | [], _ | [_], _ | [_, _], _ => rfl

theorem get_codepoint_last (l : Lexer) {c : Char} {a₁ a₂ a₃ a₄ : Fin 16} (hc : hexDigit c = some a₄)
    (hcode : codepointOf a₁ a₂ a₃ a₄ < 0x80) :
    ∃ l', l.get_codepoint none [a₁, a₂, a₃] (some c) = .more .string l' := by
  unfold Lexer.get_codepoint
  rw [Option.bind_some, hc]
  simp only [Lexer.codepoint]
  rw [dif_neg (by omega), if_neg (by omega)]
  exact ⟨_, rfl⟩

theorem foldl_spelled {c : Char} {text : Str} (hc : isPlain c = true) (h : Spells c text)
    (hscan : p.scan = .string) :
    ∃ q, text.foldl Progress.feed (.running p) = .running q ∧ q.scan = .string := by
  cases h with
  | self => exact foldl_self hc hscan
  | @code h₁ h₂ h₃ h₄ a₁ a₂ a₃ a₄ hdigits hcode =>
    obtain ⟨expecting, stack, scan, l⟩ := p
    obtain rfl : scan = .string := hscan
    simp only [List.map_cons, List.map_nil, List.cons.injEq, and_true] at hdigits
    obtain ⟨ha₁, ha₂, ha₃, ha₄⟩ := hdigits
    simp only [isPlain, Bool.and_eq_true, decide_eq_true_eq] at hc
    have hdigit : ∀ (l : Lexer) {c : Char} {d : Fin 16} (digits : List (Fin 16)),
        hexDigit c = some d → digits.length < 3 →
          (Progress.running ⟨expecting, stack, .codepoint none digits, l⟩).feed c =
            .running ⟨expecting, stack, .codepoint none (digits ++ [d]), l.get (some c)⟩ :=
      fun l _ _ digits hd hlength ↦ feed_more (get_codepoint_digit _ hd digits hlength)
    have hlast : ∀ l : Lexer, ∃ q,
        (Progress.running ⟨expecting, stack, .codepoint none [a₁, a₂, a₃], l⟩).feed h₄ =
          .running q ∧
          q.scan = .string := by
      intro l
      obtain ⟨l', hl'⟩ := get_codepoint_last (l.get (some h₄)) ha₄ (hcode ▸ hc.2)
      exact ⟨_, feed_more hl', rfl⟩
    have hbegin : (Progress.running ⟨expecting, stack, .string, l⟩).feed '\\' =
        .running ⟨expecting, stack, .escape, l.get (some '\\')⟩ := feed_more rfl
    have hcodepoint : ∀ l : Lexer, (Progress.running ⟨expecting, stack, .escape, l⟩).feed 'u' =
        .running ⟨expecting, stack, .codepoint none [], l.get (some 'u')⟩ := fun _ ↦ feed_more rfl
    simp only [List.foldl_cons, List.foldl_nil]
    rw [hbegin, hcodepoint, hdigit _ [] ha₁ (by simp), hdigit _ _ ha₂ (by simp),
      hdigit _ _ ha₃ (by simp)]
    exact hlast _

theorem foldl_name {name : Str} {letters : List Str} (h : List.Forall₂ Spells name letters)
    (hname : ∀ c ∈ name, isPlain c = true) (hscan : p.scan = .string) :
    ∃ q, letters.flatten.foldl Progress.feed (.running p) = .running q ∧ q.scan = .string := by
  induction h generalizing p with
  | nil => exact ⟨p, rfl, hscan⟩
  | cons hletter _ ih =>
    obtain ⟨hc, hname⟩ := List.forall_mem_cons.mp hname
    obtain ⟨q, hq, hscan'⟩ := foldl_spelled hc hletter hscan
    obtain ⟨r, hr, hscan''⟩ := ih hname hscan'
    exact ⟨r, by rw [List.flatten_cons, List.foldl_append, hq, hr], hscan''⟩

theorem foldl_letters {letters : List Str} (h : List.Forall₂ Spells "password".toList letters)
    (hscan : p.scan = .whitespace) :
    letters.flatten.foldl Progress.feed (.running p) ≠ .running q := by
  obtain ⟨c, text, hc, htext⟩ : ∃ c text, (c = 'p' ∨ c = '\\') ∧ letters.flatten = c :: text := by
    cases h with
    | cons hletter _ =>
      cases hletter with
      | self => exact ⟨_, _, .inl rfl, rfl⟩
      | code => exact ⟨_, _, .inr rfl, rfl⟩
  intro hrunning
  rw [htext] at hrunning
  obtain ⟨r, hfeed, -⟩ := running_append [c] hrunning
  exact feed_letter hc hscan hfeed

theorem feed_whitespace {c : Char} (hc : Lexer.isWhitespace c = true)
    (hscan : p.scan = .whitespace) :
    ∃ q, p.feed (some c) = .running q ∧ q.scan = .whitespace ∧ q.expecting = p.expecting := by
  have hread : p.scan.read (p.lexer.get (some c)) (some c) =
      .more .whitespace (p.lexer.get (some c)) := by
    rw [hscan, Scan.read, Lexer.skip_whitespace, if_pos hc]
    rfl
  rw [Parser.feed, hread]
  exact ⟨_, rfl, rfl, rfl⟩

theorem foldl_whitespace {text : Str} (h : ∀ c ∈ text, Lexer.isWhitespace c = true)
    (hscan : p.scan = .whitespace) (hp : text.foldl Progress.feed (.running p) = .running q) :
    q.scan = .whitespace ∧ q.expecting = p.expecting := by
  induction text generalizing p with
  | nil => cases hp; exact ⟨hscan, rfl⟩
  | cons c text ih =>
    obtain ⟨hc, htext⟩ := List.forall_mem_cons.mp h
    obtain ⟨p', hp', hscan', hexpecting⟩ := feed_whitespace hc hscan
    rw [List.foldl_cons, Progress.feed, hp'] at hp
    obtain ⟨hq, hvalue⟩ := ih htext hscan' hp
    exact ⟨hq, hvalue.trans hexpecting⟩

theorem feed_close (hscan : p.scan = .string) (h : p.feed (some '"') = .running q) :
    q.scan = .whitespace := by
  obtain ⟨expecting, stack, scan, l⟩ := p
  obtain rfl : scan = .string := hscan
  exact (resume_running h).2

theorem feed_colon (hscan : p.scan = .whitespace) (h : p.feed (some ':') = .running q) :
    q.scan = .whitespace ∧ q.expecting = .value := by
  obtain ⟨expecting, stack, scan, l⟩ := p
  obtain rfl : scan = .whitespace := hscan
  obtain ⟨hturn, hq⟩ := resume_running h
  obtain ⟨expecting', stack', scan', l'⟩ := q
  refine ⟨hq, ?_⟩
  cases expecting <;> cases hturn
  rfl

/-- A name as it is written, its colon, and the blanks around that. -/
def nameText (letters : List Str) (blanks blanks' : Str) : Str :=
  '"' :: letters.flatten ++ '"' :: blanks ++ ':' :: blanks'

/-- A name and its colon: a parser that is still running after them wants a value. -/
theorem after_name {before blanks blanks' : Str} {letters : List Str}
    (hletters : List.Forall₂ Spells "password".toList letters)
    (hblanks : ∀ c ∈ blanks, Lexer.isWhitespace c = true)
    (hblanks' : ∀ c ∈ blanks', Lexer.isWhitespace c = true)
    (h : after (before ++ nameText letters blanks blanks') = .running q) :
    q.scan = .whitespace ∧ q.expecting = .value := by
  have hsplit : nameText letters blanks blanks' =
      ['"'] ++ (letters.flatten ++ (['"'] ++ (blanks ++ ([':'] ++ blanks')))) := by
    simp [nameText]
  rw [hsplit] at h
  obtain ⟨p₀, -, h⟩ := running_append before h
  obtain ⟨p₁, hquote, h⟩ := running_append ['"'] h
  obtain ⟨p₂, hname, h⟩ := running_append letters.flatten h
  obtain ⟨p₃, hclose, h⟩ := running_append ['"'] h
  obtain ⟨p₄, hblank, h⟩ := running_append blanks h
  obtain ⟨p₅, hcolon, h⟩ := running_append [':'] h
  have hscan₁ : p₁.scan = .string := by
    rcases feed_quote hquote with hscan | hscan
    · exact hscan
    · exact absurd hname (foldl_letters hletters hscan)
  have hplain : ∀ c ∈ "password".toList, isPlain c = true := by decide
  obtain ⟨p₂', hp₂, hscan₂⟩ := foldl_name hletters hplain hscan₁
  obtain rfl : p₂ = p₂' := Progress.running.inj (hname.symm.trans hp₂)
  obtain ⟨hscan₄, -⟩ := foldl_whitespace hblanks (feed_close hscan₂ hclose) hblank
  obtain ⟨hscan₅, hvalue⟩ := feed_colon hscan₄ hcolon
  obtain ⟨hscan, hexpecting⟩ := foldl_whitespace hblanks' hscan₅ h
  exact ⟨hscan, hexpecting.trans hvalue⟩

theorem position_string_ascii (l : Lexer) : ∀ x ∈ l.position_string, x.toNat < 0x80 := by
  have hnumber : ∀ n, ∀ x ∈ Str.ofNat n, x.toNat < 0x80 :=
    fun n x hx ↦ Utf8.ascii_of_isDigit (Str.isDigit_ofNat hx)
  unfold Lexer.position_string
  simp only [List.forall_mem_append]
  exact ⟨⟨⟨by decide, hnumber _⟩, by decide⟩, hnumber _⟩

/-- What the parser says of a newline after one character of a string. -/
def newlineError (l : Lexer) (c : Char) : Str :=
  "[json.exception.parse_error.101] parse error".toList ++ l.position_string ++ ": ".toList ++
    ("syntax error while parsing ".toList ++ "value".toList ++ " - ".toList ++
      (controlMessage '\n' ++ "; last read: '".toList ++
        ['"', c, '<', 'U', '+', '0', '0', '0', 'A', '>'] ++ "'".toList) ++ [])

theorem newlineError_ascii (l : Lexer) {c : Char} (hc : c.toNat < 0x80) :
    ∀ x ∈ newlineError l c, x.toNat < 0x80 := by
  have hstring : ∀ x ∈ ['"', c, '<', 'U', '+', '0', '0', '0', 'A', '>'], x.toNat < 0x80 := by
    simp only [List.forall_mem_cons]
    exact ⟨by decide, hc, by decide⟩
  unfold newlineError
  simp only [List.forall_mem_append]
  exact ⟨⟨⟨by decide, position_string_ascii l⟩, by decide⟩, ⟨⟨⟨by decide, by decide⟩, by decide⟩,
    ⟨⟨by decide, by decide⟩, hstring⟩, by decide⟩, by decide⟩

theorem newlineError_injective (l : Lexer) : Function.Injective (newlineError l) := by
  intro c c' h
  have hwhat := List.append_cancel_right (List.append_cancel_left h)
  have hstring := List.append_cancel_left (List.append_cancel_right (List.append_cancel_left hwhat))
  exact (List.cons.inj (List.cons.inj hstring).2).1

theorem feed_newline (hscan : p.scan = .whitespace) (hvalue : p.expecting = .value) :
    ∃ l, ∀ c, c = 'a' ∨ c = 'b' → ['"', c, '\n'].foldl Progress.feed (.running p) =
      .stopped (.error (newlineError l c)) := by
  obtain ⟨expecting, stack, scan, l⟩ := p
  obtain rfl : scan = .whitespace := hscan
  obtain rfl : expecting = .value := hvalue
  refine ⟨⟨⟨l.position.chars_read_total + 3, 0, l.position.lines_read + 1⟩, [], []⟩, ?_⟩
  rintro c (rfl | rfl)
  · exact rfl
  · exact rfl

end Names

end ServiceSystem.Nlohmann
