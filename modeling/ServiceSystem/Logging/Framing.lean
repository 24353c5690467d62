import ServiceSystem.Foundations.Regex
import ServiceSystem.Logging.Logger

namespace ServiceSystem.Logging

open Foundations Regex

def digits (n : ℕ) : Regex := .exactly n isDigit

def part (separator : Char) (n : ℕ) : Regex := .seq (.lit [separator]) (digits n)

/-- `\d{4}-\d{2}-\d{2}T\d{2}:\d{2}:\d{2}\.\d{3}Z` -/
def timestampExpression : Regex :=
  .seq (.seq (.seq (.seq (.seq (.seq (.seq (digits 4) (part '-' 2)) (part '-' 2)) (part 'T' 2))
    (part ':' 2)) (part ':' 2)) (part '.' 3)) (.lit ['Z'])

/-- The expression of the job `service_system_logs` in promtail-local-config.yaml:
`\[(?P<timestamp>...)\] \[(?P<level>\w+)\] (?P<message>.*)` -/
def serviceSystemLogs : Regex :=
  .seq (.lit ['[']) (.seq (.group "timestamp".toList timestampExpression)
    (.seq (.lit [']', ' ', '[']) (.seq (.group "level".toList (.atLeast 1 isWord))
      (.seq (.lit [']', ' ']) (.group "message".toList (.atLeast 0 isAny))))))

structure Record where
  timestamp : Str
  level : Str
  message : Str
  deriving DecidableEq

def decodeLine (line : Str) : Option Record := do
  let m ← serviceSystemLogs.search line
  let timestamp ← capture m "timestamp".toList
  let level ← capture m "level".toList
  let message ← capture m "message".toList
  return ⟨timestamp, level, message⟩

/-- The records a log file decodes to, when every line of it is one. -/
def decode (text : Str) : Option (List Record) :=
  match Str.splitLines text with
  | (lines, []) => lines.mapM decodeLine
  | _ => none

theorem takes_digits {width n : ℕ} (hw : 0 < width) (h : n < 10 ^ width) :
    (digits width).Takes (Str.zeroPad width (Str.ofNat n)) :=
  takes_exactly (Str.zeroPad_length hw h) (fun _ ↦ Str.isDigit_zeroPad)

theorem takes_part (separator : Char) {width n : ℕ} (hw : 0 < width) (h : n < 10 ^ width) :
    (part separator width).Takes (separator :: Str.zeroPad width (Str.ofNat n)) :=
  (takes_lit [separator]).seq (takes_digits hw h)

theorem takes_year {n : ℕ} (h : 1000 ≤ n ∧ n ≤ 9999) : (digits 4).Takes (Str.ofNat n) := by
  refine takes_exactly ?_ (fun _ ↦ Str.isDigit_ofNat)
  have hle : (Str.ofNat n).length ≤ 4 :=
    (Nat.length_toDigits_le_iff (by decide) (by decide)).mpr (by omega)
  have hlt : ¬ (Str.ofNat n).length ≤ 3 := fun h3 ↦ by
    have := (Nat.length_toDigits_le_iff (by decide) (by decide)).mp h3
    omega
  omega

theorem takes_timestamp (t : Tm) : timestampExpression.Takes (getCurrentTimestamp t) := by
  have h2 : 0 < 2 := by decide
  have hmonth := takes_part '-' h2 (n := t.month) (by have := t.month_le; omega)
  have hday := takes_part '-' h2 (n := t.day) (by have := t.day_le; omega)
  have hhour := takes_part 'T' h2 (n := t.hour) (by have := t.hour_le; omega)
  have hminute := takes_part ':' h2 (n := t.minute) (by have := t.minute_le; omega)
  have hsecond := takes_part ':' h2 (n := t.second) (by have := t.second_le; omega)
  have hms := takes_part '.' (show 0 < 3 by decide) (n := t.ms) (by have := t.ms_le; omega)
  exact (((((((takes_year t.year_digits).seq hmonth).seq hday).seq hhour).seq hminute).seq
    hsecond).seq hms).seq (takes_lit ['Z'])

theorem isWord_level (level : LogLevel) : ∀ c ∈ levelToString level, isWord c = true := by
  cases level <;> decide

theorem decodeLine_entry (m : Moment) (level : LogLevel) {message : Str} (h : '\n' ∉ message) :
    decodeLine (Logger.entry m level message) =
      some ⟨getCurrentTimestamp m.clock, levelToString level, message⟩ := by
  have hmessage : (Regex.atLeast 0 isAny).first message = some ⟨message, [], []⟩ := by
    have hany : ∀ c ∈ message, isAny c = true := by
      intro c hc
      have hne : c ≠ '\n' := fun he ↦ h (he ▸ hc)
      simpa [isAny] using hne
    simpa using first_atLeast (n := 0) (s := []) hany (Nat.zero_le _) (by simp)
  have hlevel : (Regex.atLeast 1 isWord).first (levelToString level ++ ([']', ' '] ++ message)) =
      some ⟨levelToString level, [], [']', ' '] ++ message⟩ :=
    first_atLeast (isWord_level level) (by cases level <;> decide) (by simp; decide)
  have hfirst : serviceSystemLogs.first (Logger.entry m level message) = some
      ⟨Logger.entry m level message, [("timestamp".toList, getCurrentTimestamp m.clock),
        ("level".toList, levelToString level), ("message".toList, message)], []⟩ := by
    have h := first_seq (first_lit ['['] _) (first_seq (first_group "timestamp".toList
      (takes_timestamp m.clock _)) (first_seq (first_lit [']', ' ', '['] _)
        (first_seq (first_group "level".toList hlevel) (first_seq (first_lit [']', ' '] message)
          (first_group "message".toList hmessage)))))
    simpa [Logger.entry, serviceSystemLogs] using h
  rw [decodeLine, search_of_first hfirst]
  rfl

/-- A record that `write` hands to its log file, and whether the stream has failed. -/
structure Handed where
  moment : Moment
  level : LogLevel
  message : Str
  failed : Bool

def Handed.record (h : Handed) : Record :=
  ⟨getCurrentTimestamp h.moment.clock, levelToString h.level, h.message⟩

def Handed.line (h : Handed) : Str := Logger.entry h.moment h.level h.message

def handed (l : Logger) (m : Moment) : Call → List Handed
  | .log call =>
    if call.level.toNat < l.minLevel.toNat then []
    else if l.fileEnabled && l.logFile.is_open then
      [⟨m, call.level, call.message, l.logFile.failbit⟩]
    else []
  | _ => []

def handedAll : List (Moment × Call) → Logger × Sinks → List Handed
  | [], _ => []
  | mc :: calls, st => handed st.1 mc.1 mc.2 ++ handedAll calls (perform mc.1 mc.2 st)

def logText (st : Logger × Sinks) : Str := st.1.logFile.path.elim [] st.2.files

/-- Nothing is in any file before the log file has been opened. -/
def Fresh (st : Logger × Sinks) : Prop := st.1.logFile.path = none → ∀ p, st.2.files p = []

def delivered (hs : List Handed) : Str :=
  (hs.filter (!·.failed)).flatMap (fun h ↦ h.line ++ ['\n'])

theorem delivered_append (hs hs' : List Handed) :
    delivered (hs ++ hs') = delivered hs ++ delivered hs' := by
  rw [delivered, List.filter_append, List.flatMap_append]
  rfl

theorem openFile_text (f : OFStream) (filepath : Str) (opens : Bool) {files : Str → Str}
    (h : f.path = none → ∀ p, files p = []) :
    (f.openFile filepath opens).path.elim [] files = f.path.elim [] files ∧
      ((f.openFile filepath opens).path = none → ∀ p, files p = []) := by
  obtain ⟨path, failbit⟩ := f
  cases path with
  | some p => exact ⟨rfl, nofun⟩
  | none => cases opens <;> simp [OFStream.openFile, h rfl]

theorem write_files (l : Logger) (m : Moment) (call : LogCall) (s : Sinks) :
    (perform m (.log call) (l, s)).2.files = match l.logFile.path with
      | some p => Function.update s.files p (s.files p ++ delivered (handed l m (.log call)))
      | none => s.files := by
  have hloki : (perform m (.log call) (l, s)).2.files =
      (l.write m call.level call.message s).files := by
    simp only [perform]
    cases call.push with
    | none => rfl
    | some p =>
      simp only [Logger.sendToLoki]
      split_ifs <;> rfl
  rw [hloki]
  obtain ⟨⟨path, failbit⟩, minLevel, fileEnabled, consoleEnabled, _, _, _, _, _⟩ := l
  simp only [Logger.write, handed, OFStream.is_open]
  cases path with
  | none =>
    simp only
    split_ifs <;> rfl
  | some p =>
    by_cases hlevel : call.level.toNat < minLevel.toNat
    · simp [hlevel, delivered]
    · cases fileEnabled <;> cases failbit <;>
        simp [hlevel, delivered, Handed.line, Sinks.append] <;> split_ifs <;> rfl

theorem perform_text (m : Moment) (c : Call) {st : Logger × Sinks} (h : Fresh st) :
    logText (perform m c st) = logText st ++ delivered (handed st.1 m c) ∧
      Fresh (perform m c st) := by
  obtain ⟨l, s⟩ := st
  cases c with
  | init filepath level | initWithLoki filepath level host port =>
    obtain ⟨ht, hf⟩ := openFile_text l.logFile filepath m.opens h
    exact ⟨ht.trans (List.append_nil _).symm, hf⟩
  | setLevel level | enableConsole enabled | setServiceName name =>
    exact ⟨by simp [logText, handed, delivered, perform, Logger.setLevel, Logger.enableConsole,
      Logger.setServiceName], h⟩
  | enableFile enabled =>
    obtain ⟨ht, hf⟩ := openFile_text l.logFile l.logFilePath m.opens h
    simp only [perform, Logger.enableFile]
    split_ifs
    · exact ⟨ht.trans (List.append_nil _).symm, hf⟩
    · exact ⟨by simp [logText, handed, delivered], h⟩
  | log call =>
    have hw := write_files l m call s
    have hl : (perform m (.log call) (l, s)).1 = l := rfl
    refine ⟨?_, fun hp p ↦ ?_⟩
    · simp only [logText, hl, hw]
      cases hp : l.logFile.path with
      | none => simp [handed, OFStream.is_open, hp, delivered]
      | some p => simp
    · rw [hl] at hp
      simp only [hw, hp]
      exact h hp p

theorem performAll_text (calls : List (Moment × Call)) {st : Logger × Sinks} (h : Fresh st) :
    logText (performAll calls st) = logText st ++ delivered (handedAll calls st) := by
  induction calls generalizing st with
  | nil => simp [performAll, handedAll, delivered]
  | cons mc calls ih =>
    obtain ⟨ht, hf⟩ := perform_text mc.1 mc.2 h
    have hrest := ih hf
    rw [handedAll, delivered_append, ← List.append_assoc, ← ht, ← hrest]
    rfl

theorem newline_notMem_line {h : Handed} (hm : '\n' ∉ h.message) : '\n' ∉ h.line := by
  have htimestamp : '\n' ∉ getCurrentTimestamp h.moment.clock := by
    have hd : ∀ {n : ℕ}, '\n' ∉ Str.ofNat n := fun hn ↦ absurd (Str.isDigit_ofNat hn) (by decide)
    have hz : ∀ {w n : ℕ}, '\n' ∉ Str.zeroPad w (Str.ofNat n) :=
      fun hn ↦ absurd (Str.isDigit_zeroPad hn) (by decide)
    simp [getCurrentTimestamp, hd, hz]
  have hlevel : '\n' ∉ levelToString h.level := by cases h.level <;> decide
  simp [Handed.line, Logger.entry, htimestamp, hlevel, hm]

theorem decodeLine_message {line : Str} {r : Record} (h : decodeLine line = some r)
    (hline : '\n' ∉ line) : '\n' ∉ r.message := by
  simp only [decodeLine, Option.bind_eq_bind, Option.bind_eq_some_iff] at h
  obtain ⟨m, hm, timestamp, -, level, -, message, hmessage, h⟩ := h
  cases h
  exact fun hc ↦ hline (mem_of_capture hm hmessage _ hc)

theorem decode_records {text : Str} {rs : List Record} (h : decode text = some rs) :
    (∀ r ∈ rs, '\n' ∉ r.message) ∧ rs.length = (Str.splitLines text).1.length := by
  have hlines := Str.newline_notMem_splitLines text
  unfold decode at h
  split at h
  · rename_i lines hs
    rw [hs] at hlines ⊢
    refine ⟨fun r hr ↦ ?_, (mapM_eq_some_iff.mp h).length_eq.symm⟩
    obtain ⟨line, hl, hd⟩ := exists_of_mem_mapM h hr
    exact decodeLine_message hd (hlines line hl)
  · cases h

theorem decode_delivered {hs : List Handed} (h : ∀ x ∈ hs, x.failed = false ∧ '\n' ∉ x.message) :
    decode (delivered hs) = some (hs.map Handed.record) := by
  have hall : hs.filter (!·.failed) = hs := List.filter_eq_self.mpr (fun x hx ↦ by simp [h x hx])
  rw [decode, delivered, hall,
    Str.splitLines_flatMap Handed.line hs (fun x hx ↦ newline_notMem_line (h x hx).2)]
  refine mapM_eq_some_iff.mpr (List.forall₂_map_left_iff.mpr (List.forall₂_map_right_iff.mpr ?_))
  exact List.forall₂_same.mpr (fun x hx ↦ decodeLine_entry x.moment x.level (h x hx).2)

theorem delivered_lines {hs : List Handed} (h : ∀ x ∈ hs, '\n' ∉ x.message) :
    (Str.splitLines (delivered hs)).1.length = (hs.filter (!·.failed)).length := by
  rw [delivered, Str.splitLines_flatMap Handed.line _
    (fun x hx ↦ newline_notMem_line (h x (List.mem_of_mem_filter hx))), List.length_map]

/-- A program starts with no log file and, as far as it will write there, empty files. -/
def start : Logger × Sinks := (Logger.new, ⟨[], [], fun _ ↦ [], []⟩)

/-- The log file decodes to the records handed to it exactly when no message has a newline
and the stream has failed under none of them. -/
theorem decode_logText_iff (calls : List (Moment × Call)) :
    decode (logText (performAll calls start)) = some ((handedAll calls start).map Handed.record) ↔
      ∀ h ∈ handedAll calls start, h.failed = false ∧ '\n' ∉ h.message := by
  have hfresh : Fresh start := fun _ _ ↦ rfl
  have htext : logText (performAll calls start) = delivered (handedAll calls start) :=
    (performAll_text calls hfresh).trans (List.nil_append _)
  rw [htext]
  refine ⟨fun h ↦ ?_, decode_delivered⟩
  obtain ⟨hmessage, hlength⟩ := decode_records h
  have hnewline : ∀ x ∈ handedAll calls start, '\n' ∉ x.message :=
    fun x hx ↦ hmessage x.record (List.mem_map_of_mem hx)
  rw [delivered_lines hnewline, List.length_map] at hlength
  have hfilter := List.length_filter_eq_length_iff.mp hlength.symm
  exact fun x hx ↦ ⟨by simpa using hfilter x hx, hnewline x hx⟩

def newYear : Tm where
  year := 2024
  month := 1
  day := 1
  hour := 0
  minute := 0
  second := 0
  ms := 0
  year_digits := by decide
  month_le := by decide
  day_le := by decide
  hour_le := by decide
  minute_le := by decide
  second_le := by decide
  ms_le := by decide

def forgery : List (Moment × Call) :=
  [(⟨newYear, true⟩, .init "logs/webserver.log".toList .DEBUG),
    (⟨newYear, true⟩, .log (.logAuth "a\n[2024-01-01T00:00:00.000Z] [ERROR] b".toList false
      "unknown".toList "Invalid username or password".toList))]

theorem forgery_decodes :
    decode (logText (performAll forgery start)) =
      some [⟨"2024-01-01T00:00:00.000Z".toList, "WARNING".toList, "Auth attempt: user='a".toList⟩,
        ⟨"2024-01-01T00:00:00.000Z".toList, "ERROR".toList,
          "b' success=false ip=unknown details=Invalid username or password".toList⟩] := by
  decide +kernel

theorem not_framed : ¬ ∀ calls : List (Moment × Call),
    decode (logText (performAll calls start)) =
      some ((handedAll calls start).map Handed.record) := by
  intro h
  have hf := h forgery
  rw [forgery_decodes] at hf
  exact absurd (congrArg (Option.map List.length) hf) (by decide)

end ServiceSystem.Logging
