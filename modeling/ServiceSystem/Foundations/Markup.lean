import ServiceSystem.Foundations.Text

namespace ServiceSystem.Foundations.Markup

inductive Node
  | text (data : Str)
  | comment (data : Str)
  | element (name : Str) (attributes : List (Str × Str)) (children : List Node)

/-- How many characters of a text could begin something other than themselves. -/
def special (s : Str) : ℕ := s.countP fun c ↦ c = '<' ∨ c = '&'

mutual

def Node.special : Node → ℕ
  | .text data => Markup.special data
  | .comment _ => 0
  | .element _ _ children => specialIn children

def specialIn : List Node → ℕ
  | [] => 0
  | node :: nodes => node.special + specialIn nodes

end

mutual

/-- There is an element other than a cell of a table. -/
def Node.hasOther : Node → Bool
  | .text _ | .comment _ => false
  | .element name _ children => name ≠ "td".toList || hasOtherIn children

def hasOtherIn : List Node → Bool
  | [] => false
  | node :: nodes => node.hasOther || hasOtherIn nodes

end

def Node.isElement : Node → Bool
  | .element .. => true
  | .text _ | .comment _ => false

def elements (nodes : List Node) : List Node := nodes.filter Node.isElement

/-- A cell that holds nothing but a text. -/
def cell (data : Str) : Node := .element "td".toList [] (if data = [] then [] else [.text data])

def normalizeNewlines : Str → Str
  | [] => []
  | '\r' :: '\n' :: s => '\n' :: normalizeNewlines s
  | '\r' :: s => '\n' :: normalizeNewlines s
  | c :: s => c :: normalizeNewlines s

def isSpace (c : Char) : Bool := c = '\t' ∨ c = '\n' ∨ c = '\x0c' ∨ c = ' '

/-- What stands after a `<` makes it the start of a tag, a comment or the like. -/
def Opens (rest : Str) : Bool :=
  rest.head?.any fun c ↦ c.isAlpha ∨ c = '/' ∨ c = '!' ∨ c = '?'

/-- The characters that a machine reads until it is done. -/
def scan {α : Type} (next : α → Char → Option α) : α → Str → ℕ
  | _, [] => 0
  | state, c :: rest =>
    match next state c with
    | none => 1
    | some state => 1 + scan next state rest

inductive TagState
  | name
  | beforeAttributeName
  | attributeName
  | afterAttributeName
  | beforeAttributeValue
  | doubleQuoted
  | singleQuoted
  | unquoted
  | afterQuoted
  | selfClosing
  deriving DecidableEq

namespace TagState

def beforeName (c : Char) : Option TagState :=
  if isSpace c then some beforeAttributeName
  else if c = '/' then some selfClosing
  else if c = '>' then none
  else some attributeName

def next : TagState → Char → Option TagState
  | name, c =>
    if isSpace c then some beforeAttributeName
    else if c = '/' then some selfClosing
    else if c = '>' then none
    else some name
  | beforeAttributeName, c => beforeName c
  | attributeName, c =>
    if isSpace c then some afterAttributeName
    else if c = '/' then some selfClosing
    else if c = '>' then none
    else if c = '=' then some beforeAttributeValue
    else some attributeName
  | afterAttributeName, c =>
    if isSpace c then some afterAttributeName
    else if c = '/' then some selfClosing
    else if c = '=' then some beforeAttributeValue
    else if c = '>' then none
    else some attributeName
  | beforeAttributeValue, c =>
    if isSpace c then some beforeAttributeValue
    else if c = '"' then some doubleQuoted
    else if c = '\'' then some singleQuoted
    else if c = '>' then none
    else some unquoted
  | doubleQuoted, c => some (if c = '"' then afterQuoted else doubleQuoted)
  | singleQuoted, c => some (if c = '\'' then afterQuoted else singleQuoted)
  | unquoted, c =>
    if isSpace c then some beforeAttributeName
    else if c = '>' then none
    else some unquoted
  | afterQuoted, c => beforeName c
  | selfClosing, c => if c = '>' then none else beforeName c

end TagState

inductive CommentState
  | start
  | startDash
  | data
  | endDash
  | ending
  | endBang
  deriving DecidableEq

def CommentState.next : CommentState → Char → Option CommentState
  | start, c => if c = '-' then some startDash else if c = '>' then none else some data
  | startDash, c => if c = '-' then some ending else if c = '>' then none else some data
  | data, c => some (if c = '-' then endDash else data)
  | endDash, c => some (if c = '-' then ending else data)
  | ending, c =>
    if c = '>' then none
    else if c = '!' then some endBang
    else if c = '-' then some ending
    else some data
  | endBang, c => if c = '-' then some endDash else if c = '>' then none else some data

def tagLength : Str → ℕ := scan TagState.next .name

def commentLength : Str → ℕ := scan CommentState.next .start

/-- A declaration, a processing instruction or the like ends at the next `>`. -/
def bogusLength : Str → ℕ := scan (fun (_ : Unit) c ↦ if c = '>' then none else some ()) ()

/-- How far that reaches which a `<` opens before `rest`. -/
def markupLength (rest : Str) : ℕ :=
  match rest with
  | '!' :: '-' :: '-' :: rest => 3 + commentLength rest
  | '!' :: rest | '?' :: rest => 1 + bogusLength rest
  | '/' :: c :: rest => 1 + if c.isAlpha then tagLength (c :: rest) else bogusLength (c :: rest)
  | rest => tagLength rest

/-- The characters that references to the controls from 0x80 to 0x9F stand for. -/
def controls : List (ℕ × ℕ) :=
  [(0x80, 0x20AC), (0x82, 0x201A), (0x83, 0x0192), (0x84, 0x201E), (0x85, 0x2026), (0x86, 0x2020),
    (0x87, 0x2021), (0x88, 0x02C6), (0x89, 0x2030), (0x8A, 0x0160), (0x8B, 0x2039), (0x8C, 0x0152),
    (0x8E, 0x017D), (0x91, 0x2018), (0x92, 0x2019), (0x93, 0x201C), (0x94, 0x201D), (0x95, 0x2022),
    (0x96, 0x2013), (0x97, 0x2014), (0x98, 0x02DC), (0x99, 0x2122), (0x9A, 0x0161), (0x9B, 0x203A),
    (0x9C, 0x0153), (0x9E, 0x017E), (0x9F, 0x0178)]

/-- The character with a number, U+FFFD where there is none. -/
def ofCode (n : ℕ) : Char :=
  if n = 0 ∨ ¬ n.isValidChar then Char.ofNat 0xFFFD
  else Char.ofNat ((controls.lookup n).getD n)

def isHexDigit (c : Char) : Bool := c.isDigit ∨ 'a' ≤ c ∧ c ≤ 'f' ∨ 'A' ≤ c ∧ c ≤ 'F'

def hexDigit (c : Char) : ℕ := if c.isDigit then c.toNat - 48 else (c.toLower.toNat - 97) + 10

/-- A number in the given digits, of which there is one at least, and a semicolon if there
is one. -/
def numeric (isDigit : Char → Bool) (base before : ℕ) (rest : Str) : Option (ℕ × Str) :=
  let digits := rest.takeWhile isDigit
  if digits = [] then none
  else some (before + digits.length + (if (rest.drop digits.length).head? = some ';' then 1 else 0),
    [ofCode (digits.foldl (fun n c ↦ base * n + hexDigit c) 0)])

def longest (rest : Str) : List (Str × Str) → Option (Str × Str)
  | [] => none
  | (name, value) :: entries =>
    match longest rest entries with
    | none => if name <+: rest then some (name, value) else none
    | some best =>
      if name <+: rest ∧ best.1.length < name.length then some (name, value) else some best

/-- The reference that a `&` before `rest` begins: how far it reaches, and its characters. -/
def reference (names : List (Str × Str)) (rest : Str) : Option (ℕ × Str) :=
  match rest with
  | '#' :: 'x' :: rest | '#' :: 'X' :: rest => numeric isHexDigit 16 2 rest
  | '#' :: rest => numeric Char.isDigit 10 1 rest
  | rest => (longest rest names).map fun entry ↦ (entry.1.length, entry.2)

/-- What the tokenizer hands on: a character, or the source of a tag, a comment or the like. -/
inductive Token
  | char (c : Char)
  | markup (source : Str)

def Token.special : Token → ℕ
  | .char c => Markup.special [c]
  | .markup _ => 0

/-- How a browser parses what is assigned to the `innerHTML` of a table row. The part that a
row of plain cells exercises is given below. The rest is left open: the table of the named
references, and the construction of a tree from any other markup, of which it is known that
in a tree without other elements `<` and `&` have come into the texts by character tokens, and
that the tokenizer reads in another way only once an element that is not a cell is there. -/
structure Browser where
  names : List (Str × Str)
  names_ok : ∀ e ∈ names, 2 ≤ e.1.length ∧ '<' ∉ e.1 ∧ e.2.length ≤ 2 ∧ special e.2 ≤ 1
  State : Type
  enter : List Node → Option Str → Str → State
  step : State → Token → State
  finish : State → List Node
  switched : State → Bool
  switchedFinish : State → Str → List Node
  load : State → ℕ
  load_enter : ∀ nodes data source,
    load (enter nodes data source) ≤ specialIn nodes + special (data.getD [])
  load_step : ∀ state token, load (step state token) ≤ load state + token.special
  load_finish : ∀ state, hasOtherIn (finish state) = true ∨ specialIn (finish state) ≤ load state
  switched_other :
    ∀ state rest, switched state = true → hasOtherIn (switchedFinish state rest) = true

/-- A character joins the text at the end, or begins one. -/
def addChar (nodes : List Node) (c : Char) : List Node :=
  match nodes.getLast? with
  | some (.text data) => nodes.dropLast ++ [.text (data ++ [c])]
  | _ => nodes ++ [.text [c]]

/-- Between the cells of the row, in a cell that holds a text so far, or after other markup. -/
inductive Mode (α : Type)
  | inRow (nodes : List Node)
  | inCell (nodes : List Node) (data : Str)
  | other (state : α)

namespace Browser

variable (b : Browser)

def next : Mode b.State → Token → Mode b.State
  | .inRow nodes, .char c => if c = '\x00' then .inRow nodes else .inRow (addChar nodes c)
  | .inRow nodes, .markup source =>
    if source = "<td>".toList then .inCell nodes [] else .other (b.enter nodes none source)
  | .inCell nodes data, .char c =>
    if c = '\x00' then .inCell nodes data else .inCell nodes (data ++ [c])
  | .inCell nodes data, .markup source =>
    if source = "</td>".toList then .inRow (nodes ++ [cell data])
    else .other (b.enter nodes (some data) source)
  | .other state, token => .other (b.step state token)

def result : Mode b.State → List Node
  | .inRow nodes => nodes
  | .inCell nodes data => nodes ++ [cell data]
  | .other state => b.finish state

/-- What the tokenizer reads at a character in the data state: how many characters more, and
the tokens. -/
def read (c : Char) (rest : Str) : ℕ × List Token :=
  if c = '<' ∧ Opens rest ∧ rest ≠ ['/'] then
    (markupLength rest, [.markup (c :: rest.take (markupLength rest))])
  else if c = '&' then
    match reference b.names rest with
    | some (n, value) => (n, value.map .char)
    | none => (0, [.char c])
  else (0, [.char c])

def switchedResult (rest : Str) : Mode b.State → Option (List Node)
  | .other state => if b.switched state then some (b.switchedFinish state rest) else none
  | .inRow _ | .inCell .. => none

/-- The parse from here, with the characters still to skip that the last tokens took. -/
def run : Mode b.State → ℕ → Str → List Node
  | mode, _, [] => b.result mode
  | mode, n + 1, _ :: rest => run mode n rest
  | mode, 0, c :: rest =>
    match b.switchedResult (c :: rest) mode with
    | some nodes => nodes
    | none => run ((b.read c rest).2.foldl b.next mode) (b.read c rest).1 rest

def parse (source : Str) : List Node := b.run (.inRow []) 0 (normalizeNewlines source)

/-- A text that stands for itself: no character of it is dropped or replaced, and none begins
markup or a reference. -/
structure Plain (s : Str) : Prop where
  newlines : '\r' ∉ s
  controls : '\x00' ∉ s
  markup : ∀ rest, '<' :: rest <:+ s → Opens rest = false
  references : ∀ rest, '&' :: rest <:+ s → reference b.names rest = none

end Browser

section Reading

variable {rest more : Str}

theorem opens_append (rest more : Str) : Opens (rest ++ '<' :: more) = Opens rest := by
  cases rest with
  | nil => rfl
  | cons c rest => rfl

theorem takeWhile_append_stop {p : Char → Bool} {d : Char} (hd : p d = false) (s more : Str) :
    (s ++ d :: more).takeWhile p = s.takeWhile p := by
  induction s with
  | nil => simp [hd]
  | cons c s ih =>
    rw [List.cons_append, List.takeWhile_cons, List.takeWhile_cons, ih]

theorem head_drop_append {n : ℕ} (hn : n ≤ rest.length) :
    ((rest ++ '<' :: more).drop n).head? = some ';' ↔ (rest.drop n).head? = some ';' := by
  rw [List.drop_append_of_le_length hn]
  cases rest.drop n <;> simp

theorem numeric_append {p : Char → Bool} (hp : p '<' = false) (base before : ℕ) (rest more : Str) :
    numeric p base before (rest ++ '<' :: more) = numeric p base before rest := by
  have hn : (rest.takeWhile p).length ≤ rest.length := (List.takeWhile_prefix p).length_le
  simp only [numeric, takeWhile_append_stop hp, head_drop_append hn]

theorem prefix_append_stop {name : Str} (h : '<' ∉ name) (rest more : Str) :
    name <+: rest ++ '<' :: more ↔ name <+: rest := by
  induction name generalizing rest with
  | nil => simp
  | cons c name ih =>
    obtain ⟨hc, hname⟩ := not_or.mp (mt List.mem_cons.mpr h)
    cases rest with
    | nil => simp [List.cons_prefix_cons, Ne.symm hc]
    | cons d rest =>
      rw [List.cons_append, List.cons_prefix_cons, List.cons_prefix_cons, ih hname]

theorem longest_append {names : List (Str × Str)} (h : ∀ e ∈ names, '<' ∉ e.1) (rest more : Str) :
    longest (rest ++ '<' :: more) names = longest rest names := by
  induction names with
  | nil => rfl
  | cons e names ih =>
    obtain ⟨he, hnames⟩ := List.forall_mem_cons.mp h
    simp only [longest, ih hnames, prefix_append_stop he]

theorem longest_mem {names : List (Str × Str)} {e : Str × Str} (h : longest rest names = some e) :
    e ∈ names ∧ e.1 <+: rest := by
  induction names generalizing e with
  | nil => cases h
  | cons entry names ih =>
    obtain ⟨name, value⟩ := entry
    rw [longest] at h
    split at h
    · split_ifs at h with hp
      cases h
      exact ⟨List.mem_cons_self, hp⟩
    · rename_i best hbest
      split_ifs at h with hp
      · cases h
        exact ⟨List.mem_cons_self, hp.1⟩
      · cases h
        exact (ih hbest).imp_left (List.mem_cons_of_mem _)

theorem numeric_some {p : Char → Bool} {base before n : ℕ} {value : Str}
    (h : numeric p base before rest = some (n, value)) :
    before + 1 ≤ n ∧ n ≤ before + rest.length ∧ value.length = 1 := by
  unfold numeric at h
  have hle : (rest.takeWhile p).length ≤ rest.length := (List.takeWhile_prefix p).length_le
  dsimp only at h
  generalize rest.takeWhile p = digits at h hle
  split_ifs at h with hnil hsemicolon
  · cases h
    have hpos := List.length_pos_iff.mpr hnil
    have hlt : digits.length < rest.length := by
      by_contra hge
      rw [List.drop_eq_nil_of_le (Nat.le_of_not_lt hge)] at hsemicolon
      cases hsemicolon
    exact ⟨by omega, by omega, rfl⟩
  · cases h
    have hpos := List.length_pos_iff.mpr hnil
    exact ⟨by omega, by omega, rfl⟩

theorem special_le_length (s : Str) : special s ≤ s.length := List.countP_le_length

variable {b : Browser}

theorem head_of_append {c : Char} {s : Str} (hc : c ≠ '<') (h : rest ++ '<' :: more = c :: s) :
    ∃ rest', rest = c :: rest' := by
  cases rest with
  | nil => exact absurd (List.cons.inj h).1.symm hc
  | cons d rest => exact ⟨rest, by rw [(List.cons.inj h).1]⟩

theorem reference_append (rest more : Str) :
    reference b.names (rest ++ '<' :: more) = reference b.names rest := by
  have hnames : ∀ e ∈ b.names, '<' ∉ e.1 := fun e he ↦ (b.names_ok e he).2.1
  have hhex : isHexDigit '<' = false := by decide
  have hdigit : Char.isDigit '<' = false := by decide
  have hlongest (rest : Str) : longest (rest ++ '<' :: more) b.names = longest rest b.names :=
    longest_append hnames rest more
  fun_cases reference b.names rest with
  | case1 rest => exact numeric_append hhex 16 2 rest more
  | case2 rest => exact numeric_append hhex 16 2 rest more
  | case3 rest hx hX =>
    rw [List.cons_append, reference.eq_3]
    · exact numeric_append hdigit 10 1 rest more
    · exact fun s h ↦ (head_of_append (by decide) h).elim hx
    · exact fun s h ↦ (head_of_append (by decide) h).elim hX
  | case4 rest hx hX hn =>
    have hhash (s : Str) : rest ++ '<' :: more ≠ '#' :: s :=
      fun h ↦ (head_of_append (by decide) h).elim hn
    rw [reference.eq_4 _ _ (fun s ↦ hhash _) (fun s ↦ hhash _) hhash, hlongest]

theorem reference_some {n : ℕ} {value : Str} (h : reference b.names rest = some (n, value)) :
    2 ≤ n ∧ n ≤ rest.length ∧ value.length ≤ 2 ∧ special value ≤ 1 := by
  unfold reference at h
  split at h
  case h_1 | h_2 | h_3 =>
    obtain ⟨hn, hle, hvalue⟩ := numeric_some h
    have hspecial := special_le_length value
    simp only [List.length_cons]
    omega
  case h_4 =>
    obtain ⟨entry, hentry, heq⟩ := Option.map_eq_some_iff.mp h
    cases heq
    obtain ⟨hmem, hpre⟩ := longest_mem hentry
    obtain ⟨hname, -, hvalue, hspecial⟩ := b.names_ok entry hmem
    exact ⟨hname, hpre.length_le, hvalue, hspecial⟩

end Reading

end ServiceSystem.Foundations.Markup
