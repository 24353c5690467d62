import ServiceSystem.Nlohmann.Messages
import ServiceSystem.WebServer.Ids

namespace ServiceSystem.WebServer

open Foundations Handler

theorem readCredentials_asciiErrors (j : Json) : AsciiErrors (readCredentials j) := by
  have hstring : ∀ key, AsciiErrors (j.get key >>= Json.get_string) := fun key ↦
    (get_asciiErrors j key).bind get_string_asciiErrors
  exact (hstring _).bind fun _ ↦ (hstring _).bind fun _ ↦ nofun

theorem failureJson_valid_iff {what : Str} : (failureJson what).Valid ↔ Utf8.Valid what := by
  refine ⟨fun h ↦ h what ?_, failureJson_valid⟩
  simp [failureJson_eq, Json.strings, Json.entryStrings]

section

variable [Platform] {δ : Type}

/-- There is a response, and to a body that is no JSON it is 400 without success. -/
def Exchange.Answers (x : Exchange δ) : Prop :=
  ∃ res, x.reply = .ok res ∧ ∀ what, Platform.parse x.arrival.request.body = .error what →
    res.code = 400 ∧ res.success = some false

/-- A handler that reads the body in its `try` block and puts what is caught into its response. -/
structure ReadsBody {α : Type} (x : Exchange δ) (read : Json → Except Str α) : Prop where
  ascii : ∀ j, AsciiErrors (read j)
  done : ∀ a, (Platform.parse x.arrival.request.body >>= read) = .ok a → ∃ res, x.reply = .ok res
  caught : ∀ what, (Platform.parse x.arrival.request.body >>= read) = .error what →
    x.reply = (failureJson what).dump.map fun _ ↦ .json 400 (failureJson what)

namespace ReadsBody

variable {α : Type} {x : Exchange δ} {read : Json → Except Str α}

theorem reply_caught (h : ReadsBody x read) {what : Str} (hvalid : Utf8.Valid what)
    (hwhat : (Platform.parse x.arrival.request.body >>= read) = .error what) :
    x.reply = .ok (.json 400 (failureJson what)) := by
  rw [h.caught what hwhat, Json.dump_eq_ok.mpr (failureJson_valid hvalid)]
  rfl

theorem answers_parsed (h : ReadsBody x read) {j : Json}
    (hparse : Platform.parse x.arrival.request.body = .ok j) : x.Answers := by
  have hread : (Platform.parse x.arrival.request.body >>= read) = read j := by
    rw [hparse]
    rfl
  have hreply : ∃ res, x.reply = .ok res := by
    cases hj : read j with
    | error what =>
      have hvalid := Utf8.valid_of_ascii (h.ascii j what hj)
      exact ⟨_, h.reply_caught hvalid (hread.trans hj)⟩
    | ok a => exact h.done a (hread.trans hj)
  obtain ⟨res, hres⟩ := hreply
  refine ⟨res, hres, fun what hwhat ↦ ?_⟩
  cases hparse.symm.trans hwhat

theorem answers_unparsed (h : ReadsBody x read) {what : Str}
    (hparse : Platform.parse x.arrival.request.body = .error what) :
    x.Answers ↔ Utf8.Valid what := by
  have hwhat : (Platform.parse x.arrival.request.body >>= read) = .error what := by
    rw [hparse]
    rfl
  constructor
  · rintro ⟨res, hres, -⟩
    rw [h.caught what hwhat] at hres
    cases hdump : (failureJson what).dump with
    | error e =>
      rw [hdump] at hres
      cases hres
    | ok => exact failureJson_valid_iff.mp (Json.dump_eq_ok.mp hdump)
  · intro hvalid
    exact ⟨_, h.reply_caught hvalid hwhat, fun _ _ ↦ ⟨rfl, rfl⟩⟩

theorem answers_iff_what (h : ReadsBody x read) : x.Answers ↔
    ∀ what, Platform.parse x.arrival.request.body = .error what → Utf8.Valid what := by
  cases hparse : Platform.parse x.arrival.request.body with
  | error what =>
    rw [h.answers_unparsed hparse]
    simp
  | ok j => exact iff_of_true (h.answers_parsed hparse) (by simp)

end ReadsBody

variable [DatabaseApi δ] (w : World δ) (req : Request) (clock : Clock)

theorem login_readsBody : ReadsBody (exchange w ⟨.api .login, req, clock⟩) readCredentials where
  ascii := readCredentials_asciiErrors
  done := by
    rintro ⟨username, password⟩ hread
    have hcarries := carries_iff.mpr hread
    by_cases ha : Accepted username password
    · obtain ⟨info, message, hlogin⟩ := login_accepted hcarries ha { w with events := [] }
      exact ⟨_, congrArg Prod.fst hlogin⟩
    · exact ⟨_, congrArg Prod.fst (login_rejected hcarries ha { w with events := [] })⟩
  caught what hwhat :=
    (congrArg Prod.fst (login_error hwhat { w with events := [] })).trans
      (congrArg Prod.fst (respond_apply ..))

end

section Server

variable [Database.Postgres]

theorem createServiceRecord_readsBody [Platform] (w : World Backend) (req : Request)
    (clock : Clock) :
    ReadsBody (exchange w ⟨.api .createServiceRecord, req, clock⟩) readRecord where
  ascii := readRecord_asciiErrors
  done := by
    intro record hread
    obtain ⟨success, hsuccess⟩ :
        ∃ success, (DatabaseApi.addServiceRecord record w.db).1 = .ok success := ⟨_, rfl⟩
    have hvalid : (Json.ofEntries [("success".toList, .boolean success)]).Valid := by
      cases success <;> decide
    exact ⟨_, (congrArg Prod.fst (createServiceRecord_ok (w := { w with events := [] }) hread
      hsuccess)).trans (congrArg Prod.fst (respond_valid hvalid _))⟩
  caught what hwhat :=
    (congrArg Prod.fst (createServiceRecord_unread hwhat)).trans
      (congrArg Prod.fst (respond_apply ..))

/-- The two handlers answer just in case the part of the body that the parser reads is valid
UTF-8. -/
theorem answers_iff (order : Metrics.IterationOrder) (readFile : Str → Option Str)
    (w : World Backend) (req : Request) (clock : Clock) :
    letI := Platform.nlohmann order readFile
    ((exchange w ⟨.api .login, req, clock⟩).Answers ↔ Utf8.Valid (Nlohmann.consumed req.body)) ∧
      ((exchange w ⟨.api .createServiceRecord, req, clock⟩).Answers ↔
        Utf8.Valid (Nlohmann.consumed req.body)) := by
  let _ := Platform.nlohmann order readFile
  rw [Nlohmann.consumed_valid_iff]
  exact ⟨(login_readsBody w req clock).answers_iff_what,
    (createServiceRecord_readsBody w req clock).answers_iff_what⟩

end Server

/-- The UTF-8 for `é`, outside of any string. -/
def strayLetter : Request := ⟨[], ['\xc3', '\xa9']⟩

/-- The message repeats the first of the two bytes, and `dump` throws on that. -/
theorem strayLetter_not_answers : ¬ ∀ (order : Metrics.IterationOrder)
    (readFile : Str → Option Str) (_ : Database.Postgres) (w : World Backend) (req : Request)
    (clock : Clock), letI := Platform.nlohmann order readFile
    (exchange w ⟨.api .login, req, clock⟩).Answers ∧
      (exchange w ⟨.api .createServiceRecord, req, clock⟩).Answers := by
  intro h
  let _ := Platform.nlohmann .sorted fun _ ↦ none
  let _ := Database.isoDates
  let b : Backend := ⟨Database.onePrinter, [], []⟩
  have hlogin := (h .sorted (fun _ ↦ none) _ ⟨b, .empty, []⟩ strayLetter ⟨0, 0⟩).1
  have hwhat := (login_readsBody _ strayLetter _).answers_iff_what.mp hlogin
  exact absurd ((Nlohmann.consumed_valid_iff strayLetter.body).mpr hwhat) (by decide)

end ServiceSystem.WebServer
