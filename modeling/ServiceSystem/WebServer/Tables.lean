import ServiceSystem.Database.Methods
import ServiceSystem.Foundations.Cells

namespace ServiceSystem.WebServer

open Foundations Markup

/-- The engine that runs the scripts of the page: how it writes numbers from 10^21 on. -/
structure Script where
  large : ℚ → Str
  large_chars : ∀ q, ∀ c ∈ large q, c.isDigit ∨ c = '.' ∨ c = 'e' ∨ c = '+' ∨ c = '-'

/-- `toFixed`, which takes the larger of two numbers that are equally close. -/
def toFixed (script : Script) (digits : ℕ) (q : ℚ) : Str :=
  if 10 ^ 21 ≤ |q| then script.large q
  else
    let n := ⌊|q| * 10 ^ digits + 1 / 2⌋.toNat
    (if q < 0 then ['-'] else []) ++ Str.ofNat (n / 10 ^ digits) ++
      '.' :: Str.zeroPad digits (Str.ofNat (n % 10 ^ digits))

/-- `s || ''`. -/
def orEmpty (s : Str) : Str := if s = [] then [] else s

/-- A template literal with a cell for each field, on a line of its own. -/
def rowHtml (fields : List Str) : Str :=
  rowSource ('\n' :: List.replicate 20 ' ') ('\n' :: List.replicate 16 ' ') fields

def deviceFields (device : Database.Device) : List Str :=
  [Str.ofInt device.id, device.name, orEmpty device.model, orEmpty device.purchase_date,
    device.status]

def serviceTypeFields (script : Script) (type : Database.ServiceType) : List Str :=
  [Str.ofInt type.id, type.name, Str.ofInt type.recommended_interval_months,
    toFixed script 2 type.standard_cost]

/-- `cost ? cost.toFixed(2) : '0.00'`. -/
def costText (script : Script) (cost : ℚ) : Str :=
  if cost = 0 then "0.00".toList else toFixed script 2 cost

def serviceHistoryFields (script : Script) (record : Database.DetailedRecord) : List Str :=
  [Str.ofInt record.record_id, record.device_name, orEmpty record.model, record.service_name,
    record.service_date, costText script record.cost, orEmpty record.next_due_date,
    orEmpty record.notes]

/-- What a browser makes of the rows that are inserted one by one into the emptied table. -/
def insertRows (b : Browser) (rows : List (List Str)) : List (List Node) :=
  rows.map fun fields ↦ b.parse (rowHtml fields)

def loadDevices (b : Browser) (devices : List Database.Device) : List (List Node) :=
  insertRows b (devices.map deviceFields)

def loadServiceTypes (b : Browser) (script : Script) (types : List Database.ServiceType) :
    List (List Node) :=
  insertRows b (types.map (serviceTypeFields script))

def loadServiceHistory (b : Browser) (script : Script) (history : List Database.DetailedRecord) :
    List (List Node) :=
  insertRows b (history.map (serviceHistoryFields script))

/-- There is a row for each record, and in it a cell for each field, with nothing in it but
the field's text. -/
def ShownAsText (rows : List (List Node)) (records : List (List Str)) : Prop :=
  rows.map elements = records.map (·.map cell)

variable {b : Browser} {script : Script}

theorem insertRows_iff (rows : List (List Str)) :
    ShownAsText (insertRows b rows) rows ↔ ∀ fields ∈ rows, ∀ s ∈ fields, b.Plain s := by
  have hsep : Blank ('\n' :: List.replicate 20 ' ') := by
    unfold Blank
    decide
  have htail : Blank ('\n' :: List.replicate 16 ' ') := by
    unfold Blank
    decide
  rw [ShownAsText, insertRows, List.map_map, List.map_inj_left]
  exact forall₂_congr fun fields _ ↦ parse_rowSource_iff hsep htail fields

/-- The characters of a number stand for themselves. -/
theorem plain_of_chars {s : Str}
    (h : ∀ c ∈ s, c.isDigit ∨ c = '.' ∨ c = 'e' ∨ c = '+' ∨ c = '-') : b.Plain s := by
  have hnot {c : Char} (hdigit : c.isDigit = false) (hc : c ∉ ['.', 'e', '+', '-']) : c ∉ s := by
    intro hmem
    rcases h c hmem with hd | hd
    · rw [hdigit] at hd
      cases hd
    · exact hc (by simpa using hd)
  have hhead {c : Char} {rest : Str} (hrest : c :: rest <:+ s) : c ∈ s :=
    hrest.mem List.mem_cons_self
  exact ⟨hnot (by decide) (by decide), hnot (by decide) (by decide),
    fun rest hrest ↦ absurd (hhead hrest) (hnot (by decide) (by decide)),
    fun rest hrest ↦ absurd (hhead hrest) (hnot (by decide) (by decide))⟩

theorem plain_ofInt (n : ℤ) : b.Plain (Str.ofInt n) :=
  plain_of_chars fun c hc ↦ (Str.mem_ofInt hc).imp_right fun h ↦ by simp [h]

theorem plain_toFixed (q : ℚ) : b.Plain (toFixed script 2 q) := by
  refine plain_of_chars fun c hc ↦ ?_
  by_cases hlarge : 10 ^ 21 ≤ |q|
  · rw [toFixed, if_pos hlarge] at hc
    exact script.large_chars q c hc
  · rw [toFixed, if_neg hlarge, List.append_assoc, List.mem_append, List.mem_append,
      List.mem_cons] at hc
    rcases hc with hc | hc | rfl | hc
    · split_ifs at hc
      · simp [List.mem_singleton.mp hc]
      · cases hc
    · exact .inl (Str.isDigit_ofNat hc)
    · simp
    · exact .inl (Str.isDigit_zeroPad hc)

theorem plain_costText (cost : ℚ) : b.Plain (costText script cost) := by
  unfold costText
  split_ifs
  · exact plain_of_chars (by decide)
  · exact plain_toFixed cost

theorem orEmpty_eq (s : Str) : orEmpty s = s := by
  unfold orEmpty
  split_ifs with h
  · exact h.symm
  · rfl

theorem tables_shownAsText_iff (b : Browser) (script : Script) (devices : List Database.Device)
    (types : List Database.ServiceType) (history : List Database.DetailedRecord) :
    (ShownAsText (loadDevices b devices) (devices.map deviceFields) ↔ ∀ device ∈ devices,
      ∀ s ∈ [device.name, device.model, device.purchase_date, device.status], b.Plain s) ∧
    (ShownAsText (loadServiceTypes b script types) (types.map (serviceTypeFields script)) ↔
      ∀ type ∈ types, b.Plain type.name) ∧
    (ShownAsText (loadServiceHistory b script history)
        (history.map (serviceHistoryFields script)) ↔ ∀ record ∈ history,
      ∀ s ∈ [record.device_name, record.model, record.service_name, record.service_date,
        record.next_due_date, record.notes], b.Plain s) := by
  refine ⟨?_, ?_, ?_⟩
  · rw [loadDevices, insertRows_iff, List.forall_mem_map]
    refine forall₂_congr fun device _ ↦ ?_
    simp [deviceFields, orEmpty_eq, plain_ofInt]
  · rw [loadServiceTypes, insertRows_iff, List.forall_mem_map]
    refine forall₂_congr fun type _ ↦ ?_
    simp [serviceTypeFields, plain_ofInt, plain_toFixed]
  · rw [loadServiceHistory, insertRows_iff, List.forall_mem_map]
    refine forall₂_congr fun record _ ↦ ?_
    simp [serviceHistoryFields, orEmpty_eq, plain_ofInt, plain_costText]

/-- The nodes of the row so far, and those of its open cell. -/
structure Growing where
  nodes : List Node
  children : Option (List Node)

namespace Growing

def load (g : Growing) : ℕ := specialIn g.nodes + specialIn (g.children.getD [])

def finish (g : Growing) : List Node :=
  g.nodes ++ (g.children.elim [] fun children ↦ [.element "td".toList [] children])

def modify (f : List Node → List Node) (g : Growing) : Growing :=
  match g.children with
  | none => ⟨f g.nodes, none⟩
  | some children => ⟨g.nodes, some (f children)⟩

/-- The cells of the row, with empty elements in and between them. -/
def step (g : Growing) : Token → Growing
  | .char c => g.modify (addChar · c)
  | .markup source =>
    let name := (source.drop 1).takeWhile Char.isAlpha
    if source = "</td>".toList then ⟨g.finish, none⟩
    else if name = "td".toList then ⟨g.finish, some []⟩
    else if name = [] then g
    else g.modify (· ++ [.element name [] []])

theorem load_modify {f : List Node → List Node} {n : ℕ}
    (hf : ∀ nodes, specialIn (f nodes) = specialIn nodes + n) (g : Growing) :
    (g.modify f).load = g.load + n := by
  obtain ⟨nodes, children⟩ := g
  cases children with
  | none =>
    simp only [modify, load, hf, Option.getD_none, specialIn]
    omega
  | some children =>
    simp only [modify, load, hf, Option.getD_some]
    omega

theorem load_finish (g : Growing) : specialIn g.finish = g.load := by
  obtain ⟨nodes, children⟩ := g
  cases children with
  | none => simp [finish, load, specialIn]
  | some children => simp [finish, load, specialIn_append, specialIn, Node.special]

theorem load_step (g : Growing) (token : Token) : (g.step token).load ≤ g.load + token.special := by
  cases token with
  | char c => exact (load_modify (fun nodes ↦ specialIn_addChar nodes c) g).le
  | markup source =>
    simp only [step, Token.special, Nat.add_zero]
    split_ifs
    · exact (load_finish g).le
    · exact (load_finish g).le
    · exact le_rfl
    · refine (load_modify (n := 0) (fun nodes ↦ ?_) g).le
      simp [specialIn_append, specialIn, Node.special]

end Growing

/-- A browser that knows a few references, and no elements that hold others but cells. -/
def plainBrowser : Browser where
  names := [("amp;".toList, ['&']), ("gt;".toList, ['>']), ("lt;".toList, ['<']),
    ("quot;".toList, ['"'])]
  names_ok := by decide
  State := Growing
  enter nodes data source :=
    Growing.step ⟨nodes, data.map fun data ↦ if data = [] then [] else [.text data]⟩
      (.markup source)
  step := Growing.step
  finish := Growing.finish
  switched _ := false
  switchedFinish _ _ := []
  load := Growing.load
  load_enter nodes data source := by
    refine (Growing.load_step _ _).trans ?_
    cases data with
    | none => exact le_rfl
    | some data =>
      simp only [Growing.load, Option.map_some, Option.getD_some, Token.special]
      split_ifs with h
      · simp [specialIn]
      · simp [specialIn, Node.special]
  load_step := Growing.load_step
  load_finish g := .inr (Growing.load_finish g).le
  switched_other _ _ h := by cases h

/-- A line break in the notes of a service. -/
def brokenNotes : Database.DetailedRecord where
  record_id := 1
  device_name := "Printer".toList
  model := []
  service_name := "Cleaning".toList
  service_date := "2024-01-15".toList
  cost := 50
  notes := "first<br>second".toList
  next_due_date := []

theorem brokenNotes_not_shownAsText : ¬ ∀ (b : Browser) (script : Script)
    (history : List Database.DetailedRecord),
    ShownAsText (loadServiceHistory b script history)
      (history.map (serviceHistoryFields script)) := by
  intro h
  have hrow := h plainBrowser ⟨fun _ ↦ [], fun _ _ hc ↦ by cases hc⟩ [brokenNotes]
  have hother := congrArg (List.map hasOtherIn) hrow
  revert hother
  decide +kernel

end ServiceSystem.WebServer
