import Mathlib.Data.Int.Log
import ServiceSystem.Foundations.Json

namespace ServiceSystem.Nlohmann

open Foundations

inductive TokenType
  | uninitialized
  | literal_true
  | literal_false
  | literal_null
  | value_string
  | value_unsigned
  | value_integer
  | value_float
  | begin_array
  | begin_object
  | end_array
  | end_object
  | name_separator
  | value_separator
  | parse_error
  | end_of_input
  | literal_or_value

def token_type_name : TokenType → Str
  | .uninitialized => "<uninitialized>".toList
  | .literal_true => "true literal".toList
  | .literal_false => "false literal".toList
  | .literal_null => "null literal".toList
  | .value_string => "string literal".toList
  | .value_unsigned | .value_integer | .value_float => "number literal".toList
  | .begin_array => "'['".toList
  | .begin_object => "'\x7b'".toList
  | .end_array => "']'".toList
  | .end_object => "'\x7d'".toList
  | .name_separator => "':'".toList
  | .value_separator => "','".toList
  | .parse_error => "<parse error>".toList
  | .end_of_input => "end of input".toList
  | .literal_or_value => "'[', '\x7b', or a literal".toList

/-- A token with its value, or with the error message. A float that is too great has none. -/
inductive Token
  | literal_true
  | literal_false
  | literal_null
  | value_string (s : Str)
  | value_unsigned (n : ℕ)
  | value_integer (n : ℤ)
  | value_float (q : Option ℚ)
  | begin_array
  | begin_object
  | end_array
  | end_object
  | name_separator
  | value_separator
  | parse_error (error_message : Str)
  | end_of_input

def Token.type : Token → TokenType
  | literal_true => .literal_true
  | literal_false => .literal_false
  | literal_null => .literal_null
  | value_string _ => .value_string
  | value_unsigned _ => .value_unsigned
  | value_integer _ => .value_integer
  | value_float _ => .value_float
  | begin_array => .begin_array
  | begin_object => .begin_object
  | end_array => .end_array
  | end_object => .end_object
  | name_separator => .name_separator
  | value_separator => .value_separator
  | parse_error _ => .parse_error
  | end_of_input => .end_of_input

structure Position where
  chars_read_total : ℕ
  chars_read_current_line : ℕ
  lines_read : ℕ

structure Lexer where
  position : Position
  token_string : Str
  token_buffer : Str

namespace Lexer

def new : Lexer := ⟨⟨0, 0, 0⟩, [], []⟩

def reset (l : Lexer) (current : Char) : Lexer :=
  { l with token_string := [current], token_buffer := [] }

def get (l : Lexer) : Option Char → Lexer
  | none => { l with
      position := ⟨l.position.chars_read_total + 1, l.position.chars_read_current_line + 1,
        l.position.lines_read⟩ }
  | some current => { l with
      token_string := l.token_string ++ [current]
      position :=
        if current = '\n' then ⟨l.position.chars_read_total + 1, 0, l.position.lines_read + 1⟩
        else ⟨l.position.chars_read_total + 1, l.position.chars_read_current_line + 1,
          l.position.lines_read⟩ }

def unget (l : Lexer) (current : Option Char) : Lexer :=
  { l with
    token_string := if current.isSome then l.token_string.dropLast else l.token_string
    position :=
      if l.position.chars_read_current_line = 0 then
        ⟨l.position.chars_read_total - 1, 0, l.position.lines_read - 1⟩
      else ⟨l.position.chars_read_total - 1, l.position.chars_read_current_line - 1,
        l.position.lines_read⟩ }

def add (l : Lexer) (c : Char) : Lexer := { l with token_buffer := l.token_buffer ++ [c] }

def get_token_string (l : Lexer) : Str :=
  l.token_string.flatMap fun c ↦
    if c.toNat ≤ 0x1F then "<U+00".toList ++ Json.hexByte c ++ ">".toList else [c]

end Lexer

/-- The labels of `scan_number`. -/
inductive NumberState
  | minus
  | zero
  | any1
  | decimal1
  | decimal2
  | exponent
  | sign
  | any2

inductive NumberType
  | value_unsigned
  | value_integer
  | value_float

inductive Literal
  | true_literal
  | false_literal
  | null_literal

def Literal.text : Literal → Str
  | true_literal => "true".toList
  | false_literal => "false".toList
  | null_literal => "null".toList

def Literal.token : Literal → Token
  | true_literal => .literal_true
  | false_literal => .literal_false
  | null_literal => .literal_null

/-- A first code unit that asks for a second one. -/
abbrev HighSurrogate : Type := { n : ℕ // 0xD800 ≤ n ∧ n ≤ 0xDBFF }

/-- The calls of `get` in the lexer, each with what it has found before: in `skip_bom` the first,
second and third; in `skip_whitespace`; in `scan_literal` after `i` characters; in `scan_string`
between characters, after a backslash, in `get_codepoint` after some digits, before the backslash
and the `u` of a second code unit, and in `next_byte_in_range`; in `scan_number`. -/
inductive Scan
  | bom0
  | bom1
  | bom2
  | whitespace
  | literal (which : Literal) (i : ℕ)
  | string
  | escape
  | codepoint (high : Option HighSurrogate) (digits : List (Fin 16))
  | surrogate (high : HighSurrogate) (backslash : Bool)
  | tail (state : Utf8.State)
  | number (state : NumberState) (type : NumberType)

/-- What the lexer does next: it reads on, it returns a token, or it returns one and will read the
last byte again. -/
inductive Read
  | more (scan : Scan) (l : Lexer)
  | token (t : Token) (l : Lexer)
  | ungot (t : Token) (l : Lexer)

def Lexer.fail (l : Lexer) (error_message : Str) : Read := .token (.parse_error error_message) l

section Strings

def controlNames : List Str :=
  ["NUL".toList, "SOH".toList, "STX".toList, "ETX".toList, "EOT".toList, "ENQ".toList, "ACK".toList,
    "BEL".toList, "BS".toList, "HT".toList, "LF".toList, "VT".toList, "FF".toList, "CR".toList,
    "SO".toList, "SI".toList, "DLE".toList, "DC1".toList, "DC2".toList, "DC3".toList, "DC4".toList,
    "NAK".toList, "SYN".toList, "ETB".toList, "CAN".toList, "EM".toList, "SUB".toList, "ESC".toList,
    "FS".toList, "GS".toList, "RS".toList, "US".toList]

def shortEscape (c : Char) : Str :=
  if c = '\x08' then " or \\b".toList
  else if c = '\t' then " or \\t".toList
  else if c = '\n' then " or \\n".toList
  else if c = '\x0c' then " or \\f".toList
  else if c = '\r' then " or \\r".toList
  else []

def controlMessage (c : Char) : Str :=
  "invalid string: control character U+00".toList ++ Json.hexByte c ++ " (".toList ++
    controlNames.getD c.toNat [] ++ ") must be escaped to \\u00".toList ++ Json.hexByte c ++
    shortEscape c

def illFormed : Str := "invalid string: ill-formed UTF-8 byte".toList

def loneHigh : Str :=
  "invalid string: surrogate U+D800..U+DBFF must be followed by U+DC00..U+DFFF".toList

def loneLow : Str :=
  "invalid string: surrogate U+DC00..U+DFFF must follow U+D800..U+DBFF".toList

def unescape (c : Char) : Option Char :=
  if c = '"' ∨ c = '\\' ∨ c = '/' then some c
  else if c = 'b' then some '\x08'
  else if c = 'f' then some '\x0c'
  else if c = 'n' then some '\n'
  else if c = 'r' then some '\r'
  else if c = 't' then some '\t'
  else none

def hexDigit (c : Char) : Option (Fin 16) :=
  if '0' ≤ c ∧ c ≤ '9' then some (Fin.ofNat 16 (c.toNat - 0x30))
  else if 'A' ≤ c ∧ c ≤ 'F' then some (Fin.ofNat 16 (c.toNat - 0x37))
  else if 'a' ≤ c ∧ c ≤ 'f' then some (Fin.ofNat 16 (c.toNat - 0x57))
  else none

def codepointOf (a b c d : Fin 16) : ℕ := a * 0x1000 + b * 0x100 + c * 0x10 + d

def bytesOf (codepoint : ℕ) : Str :=
  if codepoint < 0x80 then [Char.ofNat codepoint]
  else if codepoint ≤ 0x7FF then
    [Char.ofNat (0xC0 + codepoint / 0x40), Char.ofNat (0x80 + codepoint % 0x40)]
  else if codepoint ≤ 0xFFFF then
    [Char.ofNat (0xE0 + codepoint / 0x1000), Char.ofNat (0x80 + codepoint / 0x40 % 0x40),
      Char.ofNat (0x80 + codepoint % 0x40)]
  else
    [Char.ofNat (0xF0 + codepoint / 0x40000), Char.ofNat (0x80 + codepoint / 0x1000 % 0x40),
      Char.ofNat (0x80 + codepoint / 0x40 % 0x40), Char.ofNat (0x80 + codepoint % 0x40)]

namespace Lexer

def scan_string (l : Lexer) : Option Char → Read
  | none => l.fail "invalid string: missing closing quote".toList
  | some c =>
    if c = '"' then .token (.value_string l.token_buffer) l
    else if c = '\\' then .more .escape l
    else if c.toNat < 0x20 then l.fail (controlMessage c)
    else match Utf8.step .accept c with
      | .accept => .more .string (l.add c)
      | .reject => l.fail illFormed
      | state => .more (.tail state) (l.add c)

def scan_escape (l : Lexer) : Option Char → Read
  | some 'u' => .more (.codepoint none []) l
  | c => match c.bind unescape with
    | some c => .more .string (l.add c)
    | none => l.fail "invalid string: forbidden character after backslash".toList

/-- What `scan_string` does with the result of `get_codepoint`. -/
def codepoint (l : Lexer) (high : Option HighSurrogate) (n : ℕ) : Read :=
  match high with
  | some high =>
    if 0xDC00 ≤ n ∧ n ≤ 0xDFFF then
      .more .string { l with
        token_buffer := l.token_buffer ++ bytesOf (high.1 * 0x400 + n - 0x35FDC00) }
    else l.fail loneHigh
  | none =>
    if h : 0xD800 ≤ n ∧ n ≤ 0xDBFF then .more (.surrogate ⟨n, h⟩ false) l
    else if 0xDC00 ≤ n ∧ n ≤ 0xDFFF then l.fail loneLow
    else .more .string { l with token_buffer := l.token_buffer ++ bytesOf n }

def get_codepoint (l : Lexer) (high : Option HighSurrogate) (digits : List (Fin 16))
    (c : Option Char) : Read :=
  match c.bind hexDigit, digits with
  | none, _ => l.fail "invalid string: '\\u' must be followed by 4 hex digits".toList
  | some d, [a, b, c] => l.codepoint high (codepointOf a b c d)
  | some d, digits => .more (.codepoint high (digits ++ [d])) l

def scan_surrogate (l : Lexer) (high : HighSurrogate) (backslash : Bool) (c : Option Char) : Read :=
  if backslash then
    if c = some 'u' then .more (.codepoint (some high) []) l else l.fail loneHigh
  else if c = some '\\' then .more (.surrogate high true) l
  else l.fail loneHigh

/-- The ranges that are still to be met are the state of the decoder. -/
def next_byte_in_range (l : Lexer) (state : Utf8.State) : Option Char → Read
  | none => l.fail illFormed
  | some c => match Utf8.step state c with
    | .accept => .more .string (l.add c)
    | .reject => l.fail illFormed
    | state => .more (.tail state) (l.add c)

end Lexer

end Strings

section Numbers

def natOf (digits : Str) : ℕ := Nat.ofDigitChars 10 digits 0

def valueOf (text : Str) : ℚ :=
  let unsigned := text.dropWhile (· = '-')
  let whole := unsigned.takeWhile Char.isDigit
  let rest := unsigned.dropWhile Char.isDigit
  let fraction := (rest.drop 1).takeWhile Char.isDigit
  let (fraction, rest) :=
    if rest.head? = some '.' then (fraction, (rest.drop 1).dropWhile Char.isDigit) else ([], rest)
  let exponent : ℤ := match rest with
    | _ :: '-' :: digits => -natOf digits
    | _ :: '+' :: digits => natOf digits
    | _ :: digits => natOf digits
    | [] => 0
  let q : ℚ := natOf (whole ++ fraction) * 10 ^ (exponent - fraction.length)
  if text.head? = some '-' then -q else q

/-- The double nearest to a number, ties to the even one, unless it is out of range. -/
def toDouble (q : ℚ) : Option ℚ :=
  if q = 0 then some 0
  else
    let exponent := max (Int.log 2 |q| - 52) (-1074)
    let nearest : ℚ := Str.roundHalfEven (q / 2 ^ exponent) * 2 ^ exponent
    if 2 ^ 1024 ≤ |nearest| then none else some nearest

def strtod (text : Str) : Option ℚ := toDouble (valueOf text)

/-- The token for a number literal; an integer that does not fit is read as a float. -/
def numberToken (type : NumberType) (text : Str) : Token :=
  match type with
  | .value_unsigned =>
    if natOf text < 2 ^ 64 then .value_unsigned (natOf text) else .value_float (strtod text)
  | .value_integer =>
    if natOf text.tail ≤ 2 ^ 63 then .value_integer (-natOf text.tail)
    else .value_float (strtod text)
  | .value_float => .value_float (strtod text)

namespace NumberState

def next (state : NumberState) (c : Char) : Option NumberState :=
  match state with
  | minus => if c = '0' then some zero else if c.isDigit then some any1 else none
  | zero => if c = '.' then some decimal1 else if c = 'e' ∨ c = 'E' then some exponent else none
  | any1 =>
    if c.isDigit then some any1
    else if c = '.' then some decimal1
    else if c = 'e' ∨ c = 'E' then some exponent
    else none
  | decimal1 => if c.isDigit then some decimal2 else none
  | decimal2 =>
    if c.isDigit then some decimal2 else if c = 'e' ∨ c = 'E' then some exponent else none
  | exponent => if c = '+' ∨ c = '-' then some sign else if c.isDigit then some any2 else none
  | sign => if c.isDigit then some any2 else none
  | any2 => if c.isDigit then some any2 else none

def error : NumberState → Option Str
  | minus => some "invalid number; expected digit after '-'".toList
  | decimal1 => some "invalid number; expected digit after '.'".toList
  | exponent => some "invalid number; expected '+', '-', or digit after exponent".toList
  | sign => some "invalid number; expected digit after exponent sign".toList
  | zero | any1 | decimal2 | any2 => none

def type (state : NumberState) (type : NumberType) : NumberType :=
  match state with
  | minus => .value_integer
  | decimal1 | exponent => .value_float
  | zero | any1 | decimal2 | sign | any2 => type

end NumberState

namespace Lexer

def scan_number (l : Lexer) (state : NumberState) (type : NumberType) (c : Option Char) : Read :=
  match c, c.bind state.next, state.error with
  | some c, some state', _ => .more (.number state' (state'.type type)) (l.add c)
  | _, _, some error_message => l.fail error_message
  | c, _, none => .ungot (numberToken type l.token_buffer) (l.unget c)

end Lexer

end Numbers

namespace Lexer

def scan_literal (l : Lexer) (literal : Literal) (i : ℕ) (c : Option Char) : Read :=
  if c.isSome ∧ c = literal.text[i]? then
    if i + 1 = literal.text.length then .token literal.token l
    else .more (.literal literal (i + 1)) l
  else l.fail "invalid literal".toList

def isWhitespace (c : Char) : Bool := c = ' ' || c = '\t' || c = '\n' || c = '\r'

/-- `skip_whitespace`, and then the cases of `scan`. -/
def skip_whitespace (l : Lexer) : Option Char → (Scan ⊕ Token) × Lexer
  | none => (.inr .end_of_input, l)
  | some c =>
    if isWhitespace c then (.inl .whitespace, l)
    else if c = '[' then (.inr .begin_array, l)
    else if c = ']' then (.inr .end_array, l)
    else if c = '\x7b' then (.inr .begin_object, l)
    else if c = '\x7d' then (.inr .end_object, l)
    else if c = ':' then (.inr .name_separator, l)
    else if c = ',' then (.inr .value_separator, l)
    else if c = 't' then (.inl (.literal .true_literal 1), l)
    else if c = 'f' then (.inl (.literal .false_literal 1), l)
    else if c = 'n' then (.inl (.literal .null_literal 1), l)
    else if c = '"' then (.inl .string, l.reset c)
    else if c = '-' then (.inl (.number .minus .value_integer), (l.reset c).add c)
    else if c = '0' then (.inl (.number .zero .value_unsigned), (l.reset c).add c)
    else if c.isDigit then (.inl (.number .any1 .value_unsigned), (l.reset c).add c)
    else if c = '\x00' then (.inr .end_of_input, l)
    else (.inr (.parse_error "invalid literal".toList), l)

end Lexer

def Read.ofSum : (Scan ⊕ Token) × Lexer → Read
  | (.inl scan, l) => .more scan l
  | (.inr t, l) => .token t l

namespace Lexer

def skip_bom (l : Lexer) (c : Option Char) : Read :=
  if c = some '\xef' then .more .bom1 l else .ofSum (((l.unget c).get c).skip_whitespace c)

def continue_bom (l : Lexer) (expected : Char) (scan : Scan) (c : Option Char) : Read :=
  if c = some expected then .more scan l
  else l.fail "invalid BOM; must be 0xEF 0xBB 0xBF if given".toList

end Lexer

/-- What the lexer does with the byte that a call of `get` has returned, or with the end. -/
def Scan.read (scan : Scan) (l : Lexer) (c : Option Char) : Read :=
  match scan with
  | .bom0 => l.skip_bom c
  | .bom1 => l.continue_bom '\xbb' .bom2 c
  | .bom2 => l.continue_bom '\xbf' .whitespace c
  | .whitespace => .ofSum (l.skip_whitespace c)
  | .literal which i => l.scan_literal which i c
  | .string => l.scan_string c
  | .escape => l.scan_escape c
  | .codepoint high digits => l.get_codepoint high digits c
  | .surrogate high backslash => l.scan_surrogate high backslash c
  | .tail state => l.next_byte_in_range state c
  | .number state type => l.scan_number state type c

end ServiceSystem.Nlohmann
