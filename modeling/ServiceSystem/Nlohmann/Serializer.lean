import ServiceSystem.Nlohmann.Escapes
import ServiceSystem.Nlohmann.Formatting
import ServiceSystem.Nlohmann.Integers

namespace ServiceSystem.Nlohmann

open Foundations

section Texts

/-- `number_buffer` as the serializer starts with it. What later numbers find in it does not
matter to them. -/
def numberBuffer : Str := List.replicate numberBufferSize '\x00'

def quoted (s : Str) : Except Str Str := do
  let s ← dump_escaped s
  .ok ('"' :: s ++ ['"'])

mutual

/-- `serializer::dump` without `pretty_print`. An exception leaves no text behind. -/
def dump : Json → Except Str Str
  | .object [] => .ok "\x7b\x7d".toList
  | .object (e :: entries) => do
    let text ← dumpEntries (e :: entries)
    .ok ('\x7b' :: text ++ ['\x7d'])
  | .array [] => .ok "[]".toList
  | .array (item :: items) => do
    let text ← dumpItems (item :: items)
    .ok ('[' :: text ++ [']'])
  | .string s => quoted s
  | .boolean b => .ok (if b then "true".toList else "false".toList)
  | .number_integer n => .ok (dump_integer numberBuffer n)
  | .number_unsigned n => .ok (dump_integer numberBuffer n)
  | .number_float q => .ok (dump_float q)
  | .null => .ok "null".toList

def dumpItems : List Json → Except Str Str
  | [] => .ok []
  | item :: items => do
    let text ← dump item
    let rest ← dumpItems items
    .ok (text ++ (if items.isEmpty then [] else [',']) ++ rest)

def dumpEntries : List (Str × Json) → Except Str Str
  | [] => .ok []
  | (key, v) :: entries => do
    let name ← quoted key
    let text ← dump v
    let rest ← dumpEntries entries
    .ok (name ++ ':' :: text ++ (if entries.isEmpty then [] else [',']) ++ rest)

end

end Texts

section Printing

mutual

/-- The text of a value whose strings are UTF-8. -/
def print : Json → Str
  | .object entries => '\x7b' :: printEntries entries ++ ['\x7d']
  | .array items => '[' :: printItems items ++ [']']
  | .string s => '"' :: s.flatMap escape ++ ['"']
  | .boolean b => if b then "true".toList else "false".toList
  | .number_integer n => Str.ofInt n
  | .number_unsigned n => Str.ofInt n
  | .number_float q => dump_float q
  | .null => "null".toList

def printItems : List Json → Str
  | [] => []
  | item :: items => print item ++ (if items.isEmpty then [] else [',']) ++ printItems items

def printEntries : List (Str × Json) → Str
  | [] => []
  | (key, v) :: entries =>
    '"' :: key.flatMap escape ++ ['"'] ++ ':' :: print v ++
      (if entries.isEmpty then [] else [',']) ++ printEntries entries

end

mutual

/-- What a `basic_json` can hold: bytes, 64-bit integers, doubles, and keys in their order. -/
def Representable : Json → Prop
  | .object entries => entries.Pairwise (fun a b ↦ a.1 < b.1) ∧ EntriesRepresentable entries
  | .array items => ItemsRepresentable items
  | .string s => ∀ c ∈ s, c.toNat < 256
  | .number_integer n => -2 ^ 63 ≤ n ∧ n < 2 ^ 63
  | .number_unsigned n => n < 2 ^ 64
  | .number_float q => toDouble q = some q
  | .boolean _ | .null => True

def ItemsRepresentable : List Json → Prop
  | [] => True
  | item :: items => Representable item ∧ ItemsRepresentable items

def EntriesRepresentable : List (Str × Json) → Prop
  | [] => True
  | (key, v) :: entries =>
    (∀ c ∈ key, c.toNat < 256) ∧ Representable v ∧ EntriesRepresentable entries

end

theorem numberBuffer_length : numberBuffer.length = numberBufferSize := List.length_replicate

theorem dumpStrings_cons (s : Str) (ss : List Str) :
    Json.dumpStrings (s :: ss) = Json.dumpString s >>= fun _ ↦ Json.dumpStrings ss := rfl

theorem dumpStrings_append (ss ss' : List Str) :
    Json.dumpStrings (ss ++ ss') = Json.dumpStrings ss >>= fun _ ↦ Json.dumpStrings ss' := by
  induction ss with
  | nil => rfl
  | cons s ss ih =>
    rw [List.cons_append, dumpStrings_cons, dumpStrings_cons, ih]
    cases Json.dumpString s <;> rfl

theorem quoted_eq {s : Str} (hs : ∀ c ∈ s, c.toNat < 256) :
    quoted s = (Json.dumpString s).map fun _ ↦ '"' :: s.flatMap escape ++ ['"'] := by
  rw [quoted, dump_escaped_eq hs]
  cases Json.dumpString s <;> rfl

mutual

/-- The serializer throws what the first string that is not UTF-8 makes it throw, and writes the
text otherwise. -/
theorem dump_eq : ∀ {j : Json}, Representable j → dump j = j.dump.map fun _ ↦ print j
  | .object [], _ => rfl
  | .object (e :: entries), h => by
    have hentries := dumpEntries_eq h.2
    rw [dump, hentries, Json.dump, Json.strings, print]
    cases Json.dumpStrings (Json.entryStrings (e :: entries)) <;> rfl
  | .array [], _ => rfl
  | .array (item :: items), h => by
    have hitems := dumpItems_eq h
    rw [dump, hitems, Json.dump, Json.strings, print]
    cases Json.dumpStrings (Json.itemStrings (item :: items)) <;> rfl
  | .string s, h => by
    rw [dump, quoted_eq h, Json.dump, Json.strings, dumpStrings_cons, print]
    cases Json.dumpString s <;> rfl
  | .boolean _, _ => rfl
  | .number_integer n, h => by
    obtain ⟨hlow, hhigh⟩ : -2 ^ 63 ≤ n ∧ n < 2 ^ 63 := h
    rw [dump, dump_integer_eq numberBuffer_length (by omega), print]
    rfl
  | .number_unsigned n, h => by
    have hsize : n < 2 ^ 64 := h
    rw [dump, dump_integer_eq numberBuffer_length (by omega), print]
    rfl
  | .number_float _, _ => rfl
  | .null, _ => rfl

theorem dumpItems_eq : ∀ {items : List Json}, ItemsRepresentable items →
    dumpItems items = (Json.dumpStrings (Json.itemStrings items)).map fun _ ↦ printItems items
  | [], _ => rfl
  | item :: items, h => by
    rw [dumpItems, dump_eq h.1, dumpItems_eq h.2, Json.itemStrings, dumpStrings_append, printItems,
      Json.dump]
    cases Json.dumpStrings item.strings with
    | error => rfl
    | ok => cases Json.dumpStrings (Json.itemStrings items) <;> rfl

theorem dumpEntries_eq : ∀ {entries : List (Str × Json)}, EntriesRepresentable entries →
    dumpEntries entries =
      (Json.dumpStrings (Json.entryStrings entries)).map fun _ ↦ printEntries entries
  | [], _ => rfl
  | (key, v) :: entries, h => by
    rw [dumpEntries, quoted_eq h.1, dump_eq h.2.1, dumpEntries_eq h.2.2, Json.entryStrings,
      dumpStrings_append, dumpStrings_cons, printEntries, Json.dump]
    cases Json.dumpString key with
    | error => rfl
    | ok =>
      cases Json.dumpStrings v.strings with
      | error => rfl
      | ok => cases Json.dumpStrings (Json.entryStrings entries) <;> rfl

end

end Printing

end ServiceSystem.Nlohmann
