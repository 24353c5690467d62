import ServiceSystem.Nlohmann.Lexer

namespace ServiceSystem.Nlohmann

open Foundations

/-- An array or object that is not complete, up to the value that is being read. -/
inductive Frame
  | array (items : List Json)
  | object (entries : List (Str × Json)) (key : Str)

/-- The calls of `get_token` in `sax_parse_internal`, in its order, and the one in `parse` after it.
What has been read of the innermost array or object goes with them. -/
inductive Expecting
  | value
  | firstKey
  | separator (entries : List (Str × Json)) (key : Str)
  | firstItem
  | endArray (items : List Json)
  | endObject (entries : List (Str × Json))
  | nextKey (entries : List (Str × Json))
  | endOfInput (result : Json)

inductive Turn
  | expects (expecting : Expecting) (stack : List Frame)
  | stopped (result : Except Str Json)

namespace Lexer

def position_string (l : Lexer) : Str :=
  " at line ".toList ++ Str.ofNat (l.position.lines_read + 1) ++ ", column ".toList ++
    Str.ofNat l.position.chars_read_current_line

/-- What a `parse_error` with the id 101 says. -/
def parse_error (l : Lexer) (what : Str) : Turn :=
  .stopped (.error ("[json.exception.parse_error.101] parse error".toList ++ l.position_string ++
    ": ".toList ++ what))

def exception_message (l : Lexer) (last_token : Token) (expected : TokenType)
    (context : Str) : Str :=
  "syntax error while parsing ".toList ++ context ++ " - ".toList ++
    (match last_token with
      | .parse_error error_message =>
        error_message ++ "; last read: '".toList ++ l.get_token_string ++ "'".toList
      | t => "unexpected ".toList ++ token_type_name t.type) ++
    match expected with
      | .uninitialized => []
      | expected => "; expected ".toList ++ token_type_name expected

def unexpected (l : Lexer) (last_token : Token) (expected : TokenType) (context : Str) : Turn :=
  l.parse_error (l.exception_message last_token expected context)

end Lexer

/-- After a value: on to what holds it, or to the end. -/
def complete (v : Json) : List Frame → Turn
  | [] => .expects (.endOfInput v) []
  | .array items :: stack => .expects (.endArray (items ++ [v])) stack
  | .object entries key :: stack =>
    .expects (.endObject (OrderedMap.upsertIn key (fun _ ↦ v) entries)) stack

/-- The switch on `last_token`. -/
def parse_value (stack : List Frame) (last_token : Token) (l : Lexer) : Turn :=
  match last_token with
  | .begin_object => .expects .firstKey stack
  | .begin_array => .expects .firstItem stack
  | .value_float (some q) => complete (.number_float q) stack
  | .value_float none => .stopped (.error
      ("[json.exception.out_of_range.406] number overflow parsing '".toList ++ l.get_token_string ++
        "'".toList))
  | .literal_false => complete (.boolean false) stack
  | .literal_null => complete .null stack
  | .literal_true => complete (.boolean true) stack
  | .value_integer n => complete (.number_integer n) stack
  | .value_string s => complete (.string s) stack
  | .value_unsigned n => complete (.number_unsigned n) stack
  | .parse_error _ => l.unexpected last_token .uninitialized "value".toList
  | .end_of_input =>
    if l.position.chars_read_total = 1 then
      l.parse_error ("attempting to parse an empty input; check that your input string or stream ".toList ++
        "contains the expected JSON".toList)
    else l.unexpected last_token .literal_or_value "value".toList
  | .end_array | .end_object | .name_separator | .value_separator =>
    l.unexpected last_token .literal_or_value "value".toList

def Expecting.turn (expecting : Expecting) (stack : List Frame) (last_token : Token)
    (l : Lexer) : Turn :=
  match expecting, last_token with
  | .value, _ => parse_value stack last_token l
  | .firstKey, .end_object => complete (.object []) stack
  | .firstKey, .value_string key => .expects (.separator [] key) stack
  | .firstKey, _ => l.unexpected last_token .value_string "object key".toList
  | .separator entries key, .name_separator => .expects .value (.object entries key :: stack)
  | .separator .., _ => l.unexpected last_token .name_separator "object separator".toList
  | .firstItem, .end_array => complete (.array []) stack
  | .firstItem, _ => parse_value (.array [] :: stack) last_token l
  | .endArray items, .value_separator => .expects .value (.array items :: stack)
  | .endArray items, .end_array => complete (.array items) stack
  | .endArray _, _ => l.unexpected last_token .end_array "array".toList
  | .endObject entries, .value_separator => .expects (.nextKey entries) stack
  | .endObject entries, .end_object => complete (.object entries) stack
  | .endObject _, _ => l.unexpected last_token .end_object "object".toList
  | .nextKey entries, .value_string key => .expects (.separator entries key) stack
  | .nextKey _, _ => l.unexpected last_token .value_string "object key".toList
  | .endOfInput result, .end_of_input => .stopped (.ok result)
  | .endOfInput _, _ => l.unexpected last_token .end_of_input "value".toList

/-- The parser between two bytes. -/
structure Parser where
  expecting : Expecting
  stack : List Frame
  scan : Scan
  lexer : Lexer

inductive Progress
  | running (p : Parser)
  | stopped (result : Except Str Json)

namespace Turn

/-- After a token, the lexer is asked for the next one. -/
def resume (l : Lexer) : Turn → Progress
  | expects expecting stack => .running ⟨expecting, stack, .whitespace, l⟩
  | stopped result => .stopped result

/-- After a token that ended before the last byte, that byte is read again. -/
def reread (l : Lexer) (c : Option Char) : Turn → Progress
  | expects expecting stack =>
    match (l.get c).skip_whitespace c with
    | (.inl scan, l) => .running ⟨expecting, stack, scan, l⟩
    | (.inr t, l) => (expecting.turn stack t l).resume l
  | stopped result => .stopped result

end Turn

namespace Parser

def new : Parser := ⟨.value, [], .bom0, .new⟩

/-- The parser reads a byte, or the end of the input. -/
def feed (p : Parser) (c : Option Char) : Progress :=
  match p.scan.read (p.lexer.get c) c with
  | .more scan l => .running ⟨p.expecting, p.stack, scan, l⟩
  | .token t l => (p.expecting.turn p.stack t l).resume l
  | .ungot t l => (p.expecting.turn p.stack t l).reread l c

end Parser

namespace Progress

def feed : Progress → Char → Progress
  | running p, c => p.feed (some c)
  | stopped result, _ => stopped result

/-- The result at the end of the input, where no parser reads on. -/
def result : Progress → Except Str Json
  | running p => match p.feed none with
    | running _ => .error []
    | stopped result => result
  | stopped result => result

end Progress

/-- `json::parse`, of a `std::string` and with the default arguments. -/
def parse (text : Str) : Except Str Json := (text.foldl Progress.feed (.running .new)).result

end ServiceSystem.Nlohmann
