import ServiceSystem.WebServer.Effects
import ServiceSystem.WebServer.Footprint

namespace ServiceSystem.WebServer

open Foundations Database Handler

/-- The integer that a JSON value is; a number with a fraction or an exponent is none. -/
def integerOf : Json → Option ℤ
  | .number_integer n => some n
  | .number_unsigned n => some n
  | _ => none

def InRange (n : ℤ) : Prop := -2 ^ 31 ≤ n ∧ n < 2 ^ 31

instance (n : ℤ) : Decidable (InRange n) := inferInstanceAs (Decidable (_ ∧ _))

def IntegerAt (j : Json) (key : Str) (id : ℤ) : Prop :=
  ∃ entries v, j = .object entries ∧ OrderedMap.lookupIn key entries = some v ∧
    integerOf v = some id

def ExactBody (j : Json) : Prop :=
  (∃ id, InRange id ∧ IntegerAt j "device_id".toList id) ∧
    ∃ id, InRange id ∧ IntegerAt j "service_id".toList id

theorem wrap_of_inRange {n : ℤ} (h : InRange n) : Json.wrap n = n := by
  obtain ⟨hlo, hhi⟩ := h
  rw [Json.wrap, Int.emod_eq_of_lt (by omega) (by omega)]
  omega

theorem inRange_wrap (n : ℤ) : InRange (Json.wrap n) := by
  have hlo := Int.emod_nonneg (n + 2 ^ 31) (show (2 ^ 32 : ℤ) ≠ 0 by decide)
  have hhi := Int.emod_lt_of_pos (n + 2 ^ 31) (show (0 : ℤ) < 2 ^ 32 by decide)
  rw [InRange, Json.wrap]
  omega

theorem get_int_of_integerOf {v : Json} {n : ℤ} (h : integerOf v = some n) :
    v.get_int = .ok (Json.wrap n) := by
  cases v <;> cases h <;> rfl

theorem integerAt_iff {j : Json} {key : Str} {id : ℤ} (h : j.HasField Json.get_int key id) :
    IntegerAt j key id ↔ ∃ n, InRange n ∧ IntegerAt j key n := by
  obtain ⟨entries, v, rfl, hv, hget⟩ := h
  constructor
  · rintro ⟨entries', v', ⟨⟩, hv', hid⟩
    obtain rfl := Option.some.inj (hv.symm.trans hv')
    have hwrap := Except.ok.inj ((get_int_of_integerOf hid).symm.trans hget)
    exact ⟨id, hwrap ▸ inRange_wrap id, entries, v, rfl, hv, hid⟩
  · rintro ⟨n, hn, entries', v', ⟨⟩, hv', hid⟩
    obtain rfl := Option.some.inj (hv.symm.trans hv')
    have hwrap := Except.ok.inj ((get_int_of_integerOf hid).symm.trans hget)
    rw [wrap_of_inRange hn] at hwrap
    exact ⟨entries, v, rfl, hv, hwrap ▸ hid⟩

section Errors

variable {α β : Type}

def AsciiErrors (x : Except Str α) : Prop := ∀ what, x = .error what → ∀ c ∈ what, c.toNat < 0x80

theorem AsciiErrors.bind {x : Except Str α} {f : α → Except Str β} (hx : AsciiErrors x)
    (hf : ∀ a, AsciiErrors (f a)) : AsciiErrors (x >>= f) := by
  intro what h
  cases hr : x with
  | error e =>
    rw [hr] at h
    cases h
    exact hx what hr
  | ok a =>
    rw [hr] at h
    exact hf a what h

theorem type_error_ascii (id : ℕ) {what : Str} (h : ∀ c ∈ what, c.toNat < 0x80) (j : Json) :
    ∀ c ∈ Json.type_error id (what ++ j.type_name), c.toNat < 0x80 := by
  have hname : ∀ c ∈ j.type_name, c.toNat < 0x80 := by
    unfold Json.type_name
    split <;> decide
  have hid : ∀ c ∈ Str.ofNat id, c.toNat < 0x80 :=
    fun c hc ↦ Utf8.ascii_of_isDigit (Str.isDigit_ofNat hc)
  unfold Json.type_error
  simp only [List.forall_mem_append]
  exact ⟨⟨⟨by decide, hid⟩, by decide⟩, h, hname⟩

theorem get_asciiErrors (j : Json) (key : Str) : AsciiErrors (j.get key) := by
  intro what h
  cases j <;> cases h <;> exact type_error_ascii 305 (by decide) _

theorem get_int_asciiErrors (j : Json) : AsciiErrors j.get_int := by
  intro what h
  cases j <;> cases h <;> exact type_error_ascii 302 (by decide) _

theorem get_string_asciiErrors (j : Json) : AsciiErrors j.get_string := by
  intro what h
  cases j <;> cases h <;> exact type_error_ascii 302 (by decide) _

theorem get_double_asciiErrors (j : Json) : AsciiErrors j.get_double := by
  intro what h
  cases j <;> cases h <;> exact type_error_ascii 302 (by decide) _

theorem readRecord_asciiErrors (j : Json) : AsciiErrors (readRecord j) := by
  have hint : ∀ key, AsciiErrors (j.get key >>= Json.get_int) := fun key ↦
    (get_asciiErrors j key).bind get_int_asciiErrors
  have hstring : ∀ key, AsciiErrors (j.get key >>= Json.get_string) := fun key ↦
    (get_asciiErrors j key).bind get_string_asciiErrors
  have hdouble : ∀ key, AsciiErrors (j.get key >>= Json.get_double) := fun key ↦
    (get_asciiErrors j key).bind get_double_asciiErrors
  exact (hint _).bind fun _ ↦ (hint _).bind fun _ ↦ (hstring _).bind fun _ ↦
    (hdouble _).bind fun _ ↦ (hstring _).bind fun _ ↦ (hstring _).bind fun _ ↦ nofun

end Errors

theorem failureJson_eq (what : Str) : failureJson what =
    .object [("error".toList, .string what), ("success".toList, .boolean false)] := rfl

theorem failureJson_valid {what : Str} (h : Utf8.Valid what) : (failureJson what).Valid := by
  refine Json.Valid.ofEntries ?_
  simp only [List.forall_mem_cons, Json.Valid.boolean, Json.Valid.string_iff]
  exact ⟨⟨by decide, trivial⟩, ⟨by decide, h⟩, by simp⟩

/-- A database that only writes down the records it is asked to add. -/
instance : DatabaseApi (List ServiceRecord) where
  testConnection d := (.ok true, d)
  getAllDevices d := (.ok [], d)
  getAllServiceTypes d := (.ok [], d)
  getDetailedServiceHistory d := (.ok (.array []), d)
  addServiceRecord record d := (.ok true, d ++ [record])
  getAllServiceRecords d := (.ok [], d)

variable [Platform]

/-- The records that the handler passes to `addServiceRecord`. -/
def passed (clock : Clock) (req : Request) : List ServiceRecord :=
  (createServiceRecord clock req (⟨[], .empty, []⟩ : World (List ServiceRecord))).2.db

variable {δ : Type} [DatabaseApi δ]

/-- The request was answered with status 400, and the database was left alone. -/
def TurnedDown (clock : Clock) (req : Request) (w : World δ) : Prop :=
  passed clock req = [] ∧ (createServiceRecord clock req w).2.db = w.db ∧
    ∃ res, (createServiceRecord clock req w).1 = .ok res ∧ res.code = 400

/-- The identifiers of a JSON body are passed on as they are, and a body without such
identifiers is turned down. -/
def ExactIds (clock : Clock) (req : Request) (w : World δ) : Prop :=
  ∀ j, Platform.parse req.body = .ok j →
    (∀ record ∈ passed clock req, IntegerAt j "device_id".toList record.device_id ∧
      IntegerAt j "service_id".toList record.service_id) ∧
    (¬ ExactBody j → TurnedDown clock req w)

theorem passed_of_read {clock : Clock} {req : Request} {record : ServiceRecord}
    (h : (Platform.parse req.body >>= readRecord) = .ok record) : passed clock req = [record] := by
  have hadd : (DatabaseApi.addServiceRecord record ([] : List ServiceRecord)).1 = .ok true := rfl
  rw [passed, createServiceRecord_ok h hadd, respond_snd]
  rfl

theorem passed_of_unread {clock : Clock} {req : Request} {what : Str}
    (h : (Platform.parse req.body >>= readRecord) = .error what) : passed clock req = [] := by
  rw [passed, createServiceRecord_unread h, respond_snd]
  rfl

variable {clock : Clock} {req : Request} {w : World δ}

theorem turnedDown_of_unread {what : Str} (hvalid : Utf8.Valid what)
    (h : (Platform.parse req.body >>= readRecord) = .error what) : TurnedDown clock req w := by
  refine ⟨passed_of_unread h, ?_, .json 400 (failureJson what), ?_, rfl⟩
  · rw [createServiceRecord_unread h, respond_snd, World.after_db]
  · rw [createServiceRecord_unread h, respond_valid (failureJson_valid hvalid)]

theorem readRecord_of_parsed {j : Json} (h : Platform.parse req.body = .ok j) :
    (Platform.parse req.body >>= readRecord) = readRecord j := by
  rw [h]
  rfl

theorem exactBody_of_exactIds {j : Json} {record : ServiceRecord} (h : ExactIds clock req w)
    (hj : Platform.parse req.body = .ok j) (hrecord : readRecord j = .ok record) : ExactBody j := by
  by_contra hinexact
  have hpassed : passed clock req = [record] :=
    passed_of_read ((readRecord_of_parsed hj).trans hrecord)
  exact absurd (hpassed.symm.trans ((h j hj).2 hinexact).1) nofun

/-- The identifiers go through unchanged just in case no body is read as a record with an
identifier that is a fraction, a truth value or out of the range of `int`. -/
theorem exactIds_iff : ExactIds clock req w ↔ ∀ j, Platform.parse req.body = .ok j →
    ∀ record, readRecord j = .ok record → ExactBody j := by
  refine ⟨fun h j hj record hrecord ↦ exactBody_of_exactIds h hj hrecord, fun h j hj ↦ ?_⟩
  cases hrecord : readRecord j with
  | error what =>
    have hunread := (readRecord_of_parsed hj).trans hrecord
    have hvalid := Utf8.valid_of_ascii (readRecord_asciiErrors j what hrecord)
    refine ⟨?_, fun _ ↦ turnedDown_of_unread hvalid hunread⟩
    rw [passed_of_unread hunread]
    exact fun _ h ↦ absurd h List.not_mem_nil
  | ok record =>
    have hread := (readRecord_of_parsed hj).trans hrecord
    obtain ⟨j', hj', -, hdevice, hservice, -⟩ := submits_iff.mpr hread
    obtain rfl := Except.ok.inj (hj.symm.trans hj')
    have hbody := h j hj record hrecord
    rw [passed_of_read hread]
    refine ⟨?_, fun hinexact ↦ absurd hbody hinexact⟩
    simpa using And.intro ((integerAt_iff hdevice).mpr hbody.1)
      ((integerAt_iff hservice).mpr hbody.2)

def wrappedDevice : Request where
  remote_ip_address := "10.0.0.5".toList
  body := "\x7b\"device_id\":4294967297,\"service_id\":1,\"service_date\":\"2024-01-15\",".toList ++
    "\"cost\":10,\"notes\":\"\",\"next_due_date\":\"\"\x7d".toList

def wrappedDeviceJson : Json :=
  .ofEntries [("device_id".toList, .number_unsigned 4294967297),
    ("service_id".toList, .number_unsigned 1), ("service_date".toList, .string "2024-01-15".toList),
    ("cost".toList, .number_unsigned 10), ("notes".toList, .string []),
    ("next_due_date".toList, .string [])]

omit [Platform] in
theorem wrappedDevice_parse : Nlohmann.parse wrappedDevice.body = .ok wrappedDeviceJson := by
  exact rfl

omit [Platform] in
theorem wrappedDevice_not_exactIds : ¬ ∀ (_ : Platform) (δ : Type) (_ : DatabaseApi δ)
    (clock : Clock) (req : Request) (w : World δ), ExactIds clock req w := by
  intro h
  let _ := Platform.nlohmann .sorted fun _ ↦ none
  have hexact := exactBody_of_exactIds
    (h _ (List ServiceRecord) inferInstance ⟨0, 0⟩ wrappedDevice ⟨[], .empty, []⟩)
    wrappedDevice_parse rfl
  obtain ⟨⟨id, hid, entries, v, hobject, hv, hint⟩, -⟩ := hexact
  cases hobject
  cases hv
  cases hint
  exact absurd hid (by decide)

end ServiceSystem.WebServer
