import ServiceSystem.Foundations.OrderedMap
import ServiceSystem.Foundations.Utf8
import Mathlib.Data.Char
import Mathlib.Data.List.Lex

namespace ServiceSystem.Foundations

/-- A JSON value as nlohmann::json keeps it, the entries of an object in the order of its
`std::map`. -/
inductive Json
  | null
  | boolean (b : Bool)
  | number_integer (n : ℤ)
  | number_unsigned (n : ℕ)
  | number_float (q : ℚ)
  | string (s : Str)
  | array (items : List Json)
  | object (entries : List (Str × Json))

namespace Json

def type_name : Json → Str
  | null => "null".toList
  | object _ => "object".toList
  | array _ => "array".toList
  | string _ => "string".toList
  | boolean _ => "boolean".toList
  | number_integer _ | number_unsigned _ | number_float _ => "number".toList

def type_error (id : ℕ) (what : Str) : Str :=
  "[json.exception.type_error.".toList ++ Str.ofNat id ++ "] ".toList ++ what

/-- `operator[]` of a value that may be changed: a null one becomes an object, a missing
entry becomes null. -/
def get (j : Json) (key : Str) : Except Str Json :=
  match j with
  | object entries => .ok ((OrderedMap.lookupIn key entries).getD null)
  | null => .ok null
  | j => .error (type_error 305
      ("cannot use operator[] with a string argument with ".toList ++ j.type_name))

def get_string : Json → Except Str Str
  | string s => .ok s
  | j => .error (type_error 302 ("type must be string, but is ".toList ++ j.type_name))

def wrap (n : ℤ) : ℤ := (n + 2 ^ 31) % 2 ^ 32 - 2 ^ 31

/-- `static_cast<int>` of a double. Out of range, where C++ leaves it undefined, it gives
the least int, as on x86. -/
def truncate (q : ℚ) : ℤ :=
  let n := if q < 0 then ⌈q⌉ else ⌊q⌋
  if -2 ^ 31 ≤ n ∧ n < 2 ^ 31 then n else -2 ^ 31

def get_int : Json → Except Str ℤ
  | number_unsigned n => .ok (wrap n)
  | number_integer n => .ok (wrap n)
  | number_float q => .ok (truncate q)
  | boolean b => .ok (if b then 1 else 0)
  | j => .error (type_error 302 ("type must be number, but is ".toList ++ j.type_name))

def get_double : Json → Except Str ℚ
  | number_unsigned n => .ok n
  | number_integer n => .ok n
  | number_float q => .ok q
  | j => .error (type_error 302 ("type must be number, but is ".toList ++ j.type_name))

def HasField {α : Type} (j : Json) (as : Json → Except Str α) (key : Str) (a : α) : Prop :=
  ∃ entries v, j = object entries ∧ OrderedMap.lookupIn key entries = some v ∧ as v = .ok a

def ofEntries (entries : List (Str × Json)) : Json :=
  object (entries.foldl (fun es e ↦ OrderedMap.upsertIn e.1 (fun _ ↦ e.2) es) [])

mutual

/-- The strings that a value is made of, in the order in which `dump` writes them. -/
def strings : Json → List Str
  | string s => [s]
  | array items => itemStrings items
  | object entries => entryStrings entries
  | _ => []

def itemStrings : List Json → List Str
  | [] => []
  | j :: js => j.strings ++ itemStrings js

def entryStrings : List (Str × Json) → List Str
  | [] => []
  | (key, j) :: es => key :: j.strings ++ entryStrings es

end

def Valid (j : Json) : Prop := ∀ s ∈ j.strings, Utf8.Valid s

instance (j : Json) : Decidable j.Valid := inferInstanceAs (Decidable (∀ s ∈ j.strings, _))

def hexByte (c : Char) : Str :=
  [Nat.toDigits 16 (c.toNat / 16 % 16), Nat.toDigits 16 (c.toNat % 16)].flatten.map Char.toUpper

def rejected (state : Utf8.State) (i : ℕ) : Str → Option (ℕ × Char)
  | [] => none
  | c :: s =>
    if Utf8.step state c = .reject then some (i, c) else rejected (Utf8.step state c) (i + 1) s

def dumpString (s : Str) : Except Str Unit :=
  if Utf8.Valid s then .ok ()
  else match rejected .accept 0 s with
    | some (i, c) => .error (type_error 316
        ("invalid UTF-8 byte at index ".toList ++ Str.ofNat i ++ ": 0x".toList ++ hexByte c))
    | none => .error (type_error 316
        ("incomplete UTF-8 string; last byte: 0x".toList ++ hexByte (s.getLastD '\x00')))

def dumpStrings : List Str → Except Str Unit
  | [] => .ok ()
  | s :: ss => dumpString s >>= fun _ ↦ dumpStrings ss

/-- Whether `dump` gives a text for the value, or which exception it throws. -/
def dump (j : Json) : Except Str Unit := dumpStrings j.strings

theorem dumpStrings_eq_ok {ss : List Str} :
    dumpStrings ss = .ok () ↔ ∀ s ∈ ss, Utf8.Valid s := by
  induction ss with
  | nil => simp [dumpStrings]
  | cons s ss ih =>
    rw [dumpStrings, dumpString, List.forall_mem_cons]
    by_cases hs : Utf8.Valid s
    · simpa [hs, bind, Except.bind] using ih
    · rw [if_neg hs]
      cases rejected .accept 0 s <;> simp [hs, bind, Except.bind]

theorem dump_eq_ok {j : Json} : j.dump = .ok () ↔ j.Valid := dumpStrings_eq_ok

theorem Valid.array_iff {items : List Json} : (array items).Valid ↔ ∀ j ∈ items, j.Valid := by
  rw [Valid, strings]
  induction items with
  | nil => simp [itemStrings]
  | cons j js ih => simp only [itemStrings, List.forall_mem_append, List.forall_mem_cons, ih, Valid]

theorem Valid.object_iff {entries : List (Str × Json)} :
    (object entries).Valid ↔ ∀ e ∈ entries, Utf8.Valid e.1 ∧ e.2.Valid := by
  rw [Valid, strings]
  induction entries with
  | nil => simp [entryStrings]
  | cons e es ih =>
    simp only [entryStrings, List.forall_mem_append, List.forall_mem_cons, ih, Valid, and_assoc]

theorem Valid.string_iff {s : Str} : (string s).Valid ↔ Utf8.Valid s := by
  simp [Valid, strings]

@[simp] theorem Valid.number_integer (n : ℤ) : (number_integer n).Valid := by simp [Valid, strings]

@[simp] theorem Valid.number_float (q : ℚ) : (number_float q).Valid := by simp [Valid, strings]

@[simp] theorem Valid.boolean (b : Bool) : (boolean b).Valid := by simp [Valid, strings]

theorem Valid.ofEntries {entries : List (Str × Json)}
    (h : ∀ e ∈ entries, Utf8.Valid e.1 ∧ e.2.Valid) : (ofEntries entries).Valid := by
  refine Valid.object_iff.mpr ?_
  refine List.foldlRecOn (motive := fun es : List (Str × Json) ↦
    ∀ e ∈ es, Utf8.Valid e.1 ∧ e.2.Valid) entries _ (by simp) (fun es hes e he x hx ↦ ?_)
  rcases OrderedMap.mem_upsertIn hx with ⟨_, rfl⟩ | hx
  · exact h e he
  · exact hes x hx

theorem get_bind_eq_ok {α : Type} {as : Json → Except Str α} {j : Json} {key : Str} {a : α}
    (hnull : ∀ a, as null ≠ .ok a) : (j.get key >>= as) = .ok a ↔ j.HasField as key a := by
  rw [except_bind_eq_ok]
  constructor
  · rintro ⟨v, hv, ha⟩
    cases j with
    | object entries =>
      obtain ⟨rfl⟩ := hv
      cases hl : OrderedMap.lookupIn key entries with
      | none =>
        rw [hl] at ha
        exact absurd ha (hnull a)
      | some v => exact ⟨entries, v, rfl, hl, by rwa [hl] at ha⟩
    | null =>
      obtain ⟨rfl⟩ := hv
      exact absurd ha (hnull a)
    | boolean | number_integer | number_unsigned | number_float | string | array => cases hv
  · rintro ⟨entries, v, rfl, hl, ha⟩
    exact ⟨v, by simp [get, hl], ha⟩

theorem Valid.get {j i : Json} {key : Str} (hj : j.Valid) (h : j.get key = .ok i) : i.Valid := by
  unfold Json.get at h
  split at h
  · rename_i entries
    obtain ⟨rfl⟩ := h
    cases hl : OrderedMap.lookupIn key entries with
    | none => simp [Valid, strings]
    | some i => exact (Valid.object_iff.mp hj _ (OrderedMap.mem_of_lookupIn hl)).2
  · obtain ⟨rfl⟩ := h
    exact hj
  · cases h

theorem Valid.get_string {j : Json} {s : Str} (hj : j.Valid) (h : j.get_string = .ok s) :
    Utf8.Valid s := by
  cases j <;> simp [Json.get_string] at h
  subst h
  exact Valid.string_iff.mp hj

theorem HasField.valid {j : Json} {key s : Str} (h : j.HasField get_string key s) (hj : j.Valid) :
    Utf8.Valid s := by
  obtain ⟨entries, v, rfl, hl, hv⟩ := h
  exact (Valid.object_iff.mp hj _ (OrderedMap.mem_of_lookupIn hl)).2.get_string hv

end Json

end ServiceSystem.Foundations
