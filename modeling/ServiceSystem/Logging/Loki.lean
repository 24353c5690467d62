import ServiceSystem.Foundations.JsonText
import ServiceSystem.Logging.Framing

namespace ServiceSystem.Logging

open Foundations JsonText

/-- The loop of `sendToLoki` over the message, which it edits in place. -/
def escapeLoop (escapedMessage : Str) (i : ℕ) : Str :=
  if h : i < escapedMessage.length then
    if escapedMessage[i] = '"' then escapeLoop (escapedMessage.set i '\\') (i + 1)
    else if escapedMessage[i] = '\\' then escapeLoop (escapedMessage.insertIdx i '\\') (i + 2)
    else if escapedMessage[i] = '\n' then escapeLoop (escapedMessage.set i '\\') (i + 1)
    else if escapedMessage[i] = '\r' then escapeLoop (escapedMessage.set i '\\') (i + 1)
    else escapeLoop escapedMessage (i + 1)
  else escapedMessage
termination_by escapedMessage.length - i
decreasing_by
  · rw [List.length_set]
    omega
  · rw [List.length_insertIdx, if_pos (Nat.le_of_lt h)]
    omega
  · rw [List.length_set]
    omega
  · rw [List.length_set]
    omega
  · omega

/-- The body that `sendToLoki` posts, the labels in the order in which their map is traversed. -/
def Logger.jsonPayload (l : Logger) (t : Tm) (p : LokiPush) : Str :=
  "\x7b\"streams\":[\x7b\"stream\":\x7b\"app\":\"".toList ++ l.serviceName ++ "\",\"".toList ++
    "\"level\":\"".toList ++ p.level ++ "\",".toList ++
    p.labels.flatMap (fun kv ↦ "\"".toList ++ kv.1 ++ "\":\"".toList ++ kv.2 ++ "\",".toList) ++
    "\"job\":\"service_system\"\x7d,\"values\":[\x7b\"ts\":\"".toList ++ getCurrentTimestamp t ++
    "\", \"line\":\"".toList ++ escapeLoop p.message 0 ++ "\"\x7d]\x7d]\x7d".toList

theorem quoted_twice (rest : Str) : "\",\"".toList ++ ("\"level\":\"".toList ++ rest) =
    '"' :: ',' :: '"' :: '"' :: 'l' :: ("evel\":\"".toList ++ rest) := rfl

theorem jsonPayload_eq (l : Logger) (t : Tm) (p : LokiPush) : ∃ before rest,
    l.jsonPayload t p = before ++ '"' :: ',' :: '"' :: '"' :: 'l' :: rest := by
  unfold Logger.jsonPayload
  simp only [List.append_assoc]
  rw [quoted_twice]
  exact ⟨_, _, (List.append_assoc _ _ _).symm⟩

theorem not_denotes_jsonPayload (l : Logger) (t : Tm) (p : LokiPush) (d : Doc) :
    ¬ Denotes (l.jsonPayload t p) d := by
  have hword : stepOutside 'l' = some ([], .word ['l']) := by decide
  obtain ⟨before, rest, hpayload⟩ := jsonPayload_eq l t p
  rw [hpayload]
  exact not_denotes_of_stuck (fun m ↦ stuck_doubled hword m rest) d

/-- The log line in a document: `streams[0].values[0].line`. -/
def pushedLine (d : Doc) : Option Str := do
  let stream ← d.member "streams".toList >>= Doc.item 0
  let value ← stream.member "values".toList >>= Doc.item 0
  match ← value.member "line".toList with
  | .string s => some s
  | _ => none

def LineRoundTrips (l : Logger) (t : Tm) (p : LokiPush) : Prop :=
  ∃ d, Denotes (l.jsonPayload t p) d ∧ pushedLine d = some p.message

/-- Whatever is pushed, and under whatever names, no line ever makes the round trip. -/
theorem not_lineRoundTrips (l : Logger) (t : Tm) (p : LokiPush) : ¬ LineRoundTrips l t p :=
  fun ⟨d, hd, _⟩ ↦ not_denotes_jsonPayload l t p d hd

def lokiLogger : Logger :=
  Logger.new.initWithLoki ⟨newYear, true⟩ "logs/webserver.log".toList .DEBUG "loki".toList 3100

theorem started_not_lineRoundTrips :
    ¬ LineRoundTrips lokiLogger newYear ⟨"info".toList, "Lifecycle event: started".toList,
      [("component".toList, "lifecycle".toList), ("event".toList, "started".toList)]⟩ :=
  fun ⟨d, hd, _⟩ ↦ not_denotes_jsonPayload _ _ _ d hd

def streamLabels (l : Logger) (p : LokiPush) : List (Str × Str) :=
  [("app".toList, l.serviceName), ("level".toList, p.level),
    ("job".toList, "service_system".toList)] ++ p.labels

/-- The document that a push stands for, its labels in some order. -/
def streamDoc (labels : List (Str × Str)) (timestamp message : Str) : Doc :=
  .object [("streams".toList, .array [.object
    [("stream".toList, .object (labels.map (fun kv ↦ (kv.1, .string kv.2)))),
      ("values".toList, .array [.object
        [("ts".toList, .string timestamp), ("line".toList, .string message)]])]])]

def StreamFaithful (l : Logger) (t : Tm) (p : LokiPush) : Prop :=
  ∃ labels, labels.Perm (streamLabels l p) ∧
    Denotes (l.jsonPayload t p) (streamDoc labels (getCurrentTimestamp t) p.message)

/-- What a call pushes says what the caller passed, be it in one order of its labels only. -/
def PushFaithful (l : Logger) (t : Tm) (call : LogCall) : Prop :=
  ∀ level labels, call.push = some (level, labels) → ∃ labels' : List (Str × Str),
    labels'.Perm labels ∧ StreamFaithful l t ⟨level, call.message, labels'⟩

/-- No call that pushes anything pushes what it was given. -/
theorem not_pushFaithful (l : Logger) (t : Tm) {call : LogCall} (h : call.push.isSome) :
    ¬ PushFaithful l t call := by
  obtain ⟨⟨level, labels⟩, hpush⟩ := Option.isSome_iff_exists.mp h
  intro hfaithful
  obtain ⟨_, -, _, -, hd⟩ := hfaithful level labels hpush
  exact not_denotes_jsonPayload _ _ _ _ hd

def rejectedAdmin : LogCall := .logAuth "admin".toList false "unknown".toList []

theorem not_pushFaithful_rejectedAdmin : ¬ PushFaithful lokiLogger newYear rejectedAdmin :=
  not_pushFaithful lokiLogger newYear rfl

theorem rejectedAdmin_not_streamFaithful :
    ¬ ∀ (l : Logger) (t : Tm) (call : LogCall), PushFaithful l t call := by
  intro h
  obtain ⟨_, -, _, -, hd⟩ := h lokiLogger newYear rejectedAdmin _ _ rfl
  exact not_denotes_jsonPayload _ _ _ _ hd

end ServiceSystem.Logging
