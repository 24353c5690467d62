import ServiceSystem.Logging.Framing

namespace ServiceSystem.Logging

open Foundations Regex

def successGroup : Regex :=
  .group "success".toList (.alt (.lit "true".toList) (.lit "false".toList))

def isField (c : Char) : Bool := c ≠ '|'

def isUnquoted (c : Char) : Bool := c ≠ '\x27' && c ≠ '\x22'

def isSpace (c : Char) : Bool := c = '\t' || c = '\n' || c = '\x0c' || c = '\r' || c = ' '

/-- The expression of the job `http_requests`: `HTTP Request: (?P<method>\w+) (?P<path>[^|]+) \|
IP: (?P<ip>[^|]+) \| Status: (?P<status>\d+) \| Duration: (?P<duration>\d+)ms` -/
def httpRequests : Regex :=
  .seq (.lit "HTTP Request: ".toList) (.seq (.group "method".toList (.atLeast 1 isWord))
    (.seq (.lit " ".toList) (.seq (.group "path".toList (.atLeast 1 isField))
      (.seq (.lit " | IP: ".toList) (.seq (.group "ip".toList (.atLeast 1 isField))
        (.seq (.lit " | Status: ".toList) (.seq (.group "status".toList (.atLeast 1 isDigit))
          (.seq (.lit " | Duration: ".toList) (.seq (.group "duration".toList (.atLeast 1 isDigit))
            (.lit "ms".toList))))))))))

/-- The expression of the job `auth_events`: `Auth attempt: user=.(?P<user>[^'"]+).
success=(?P<success>true|false) ip=(?P<ip>[^\s]+)` -/
def authEvents : Regex :=
  .seq (.lit "Auth attempt: user=".toList) (.seq (.exactly 1 isAny)
    (.seq (.group "user".toList (.atLeast 1 isUnquoted)) (.seq (.exactly 1 isAny)
      (.seq (.lit " success=".toList) (.seq successGroup (.seq (.lit " ip=".toList)
        (.group "ip".toList (.atLeast 1 (fun c ↦ !isSpace c)))))))))

/-- The expression of the job `database_operations`: `DB operation: (?P<operation>[^|]+) \|
success=(?P<success>true|false)` -/
def databaseOperations : Regex :=
  .seq (.lit "DB operation: ".toList) (.seq (.group "operation".toList (.atLeast 1 isField))
    (.seq (.lit " | success=".toList) successGroup))

/-- The form that the next two share, with the text before the operation, the one between it and
the identifier, and the name of the identifier. -/
def identified (lead separator name : Str) : Regex :=
  .seq (.lit lead) (.seq (.group "operation".toList (.atLeast 1 isField))
    (.seq (.lit separator) (.seq (.group name (.atLeast 1 isDigit))
      (.seq (.lit " | success=".toList) successGroup))))

/-- The expression of the job `device_operations`: `Device operation: (?P<operation>[^|]+) \|
device_id=(?P<device_id>\d+) \| success=(?P<success>true|false)` -/
def deviceOperations : Regex :=
  identified "Device operation: ".toList " | device_id=".toList "device_id".toList

/-- The expression of the job `service_operations`: `Service operation: (?P<operation>[^|]+) \|
record_id=(?P<record_id>\d+) \| success=(?P<success>true|false)` -/
def serviceOperations : Regex :=
  identified "Service operation: ".toList " | record_id=".toList "record_id".toList

def recordHead (m : Moment) (level : LogLevel) : Str :=
  ['['] ++ getCurrentTimestamp m.clock ++ ([']', ' ', '['] ++ levelToString level ++ [']', ' '])

/-- The line that a call writes; of a record that has newlines in it, the first one. -/
def LogCall.line (m : Moment) (call : LogCall) : Str :=
  (Logger.entry m call.level call.message).takeWhile (· ≠ '\n')

theorem entry_eq (m : Moment) (level : LogLevel) (message : Str) :
    Logger.entry m level message = recordHead m level ++ message := by
  simp only [Logger.entry, recordHead, List.append_assoc]

theorem takeWhile_append {a : Str} (h : '\n' ∉ a) (s : Str) :
    (a ++ s).takeWhile (· ≠ '\n') = a ++ s.takeWhile (· ≠ '\n') := by
  refine List.takeWhile_append_of_pos fun c hc ↦ ?_
  have hne : c ≠ '\n' := fun he ↦ h (he ▸ hc)
  simpa using hne

theorem takeWhile_eq_self {a : Str} (h : '\n' ∉ a) : a.takeWhile (· ≠ '\n') = a := by
  simpa using takeWhile_append h []

theorem mem_getCurrentTimestamp {t : Tm} {c : Char} (h : c ∈ getCurrentTimestamp t) :
    c.isDigit = true ∨ c ∈ "-T:.Z".toList := by
  have hd : ∀ {n : ℕ}, c ∈ Str.ofNat n → c.isDigit = true := Str.isDigit_ofNat
  have hz : ∀ {w n : ℕ}, c ∈ Str.zeroPad w (Str.ofNat n) → c.isDigit = true := Str.isDigit_zeroPad
  simp only [getCurrentTimestamp, List.mem_append, List.mem_cons, List.not_mem_nil, or_false] at h
  have hlist : c ∈ "-T:.Z".toList ↔ c = '-' ∨ c = 'T' ∨ c = ':' ∨ c = '.' ∨ c = 'Z' := by
    rw [show "-T:.Z".toList = ['-', 'T', ':', '.', 'Z'] from rfl]
    simp
  rw [hlist]
  grind

theorem newline_notMem_recordHead (m : Moment) (level : LogLevel) : '\n' ∉ recordHead m level := by
  have htimestamp : '\n' ∉ getCurrentTimestamp m.clock := fun h ↦
    absurd (mem_getCurrentTimestamp h) (by decide)
  have hlevel : '\n' ∉ levelToString level := by cases level <;> decide
  simp [recordHead, htimestamp, hlevel]

theorem line_eq (m : Moment) (call : LogCall) :
    call.line m = recordHead m call.level ++ call.message.takeWhile (· ≠ '\n') := by
  rw [LogCall.line, entry_eq, takeWhile_append (newline_notMem_recordHead m call.level)]

/-- The text that an expression begins with cannot begin before the message. -/
def Leads (lead : Str) : Prop :=
  ∃ x a, lead = x :: a ∧ x.isDigit = false ∧ x ∉ "[-T:.Z".toList ∧
    ∀ level, absent lead ([']', ' ', '['] ++ levelToString level ++ [']', ' ']) = true

theorem absent_recordHead {lead : Str} (h : Leads lead) (m : Moment) (level : LogLevel) :
    absent lead (recordHead m level) = true := by
  obtain ⟨x, a, rfl, hdigit, hx, hlevel⟩ := h
  obtain ⟨hbracket, hx⟩ := not_or.mp (List.mem_cons.not.mp hx)
  refine absent_append (fun hmem ↦ ?_) (hlevel level)
  rcases List.mem_cons.mp hmem with rfl | hmem
  · exact hbracket rfl
  · rcases mem_getCurrentTimestamp hmem with hd | hd
    · rw [hdigit] at hd
      cases hd
    · exact hx hd

theorem search_line {lead : Str} {b : Regex} (h : Leads lead) (m : Moment) (call : LogCall) :
    (Regex.seq (.lit lead) b).search (call.line m) =
      (Regex.seq (.lit lead) b).search (call.message.takeWhile (· ≠ '\n')) := by
  rw [line_eq, search_absent (absent_recordHead h m call.level)]

theorem extracts_of_first {lead a : Str} {b : Regex} {found : Match} {groups : List (Str × Str)}
    (h : Leads lead) (m : Moment) {call : LogCall}
    (hmessage : call.message.takeWhile (· ≠ '\n') = a)
    (hfirst : (Regex.seq (.lit lead) b).first a = some found)
    (hgroups : ∀ g ∈ groups, capture found g.1 = some g.2) :
    Extracts (.seq (.lit lead) b) (call.line m) groups := by
  refine ⟨found, ?_, hgroups⟩
  rw [search_line h, hmessage]
  exact search_of_first hfirst

theorem first_successGroup (b : Bool) (s : Str) : successGroup.first (ofBool b ++ s) =
    some ⟨ofBool b, [("success".toList, ofBool b)], s⟩ := by
  have halt : (Regex.alt (.lit "true".toList) (.lit "false".toList)).first (ofBool b ++ s) =
      some ⟨ofBool b, [], s⟩ := by
    cases b <;> simp [first, matchesAt, ofBool, List.cons_prefix_cons]
  exact first_group "success".toList halt

theorem newline_notMem_ofBool (b : Bool) : '\n' ∉ ofBool b := by
  cases b <;> decide

section Auth

variable {username ip details : Str} {success : Bool}

def authText (username ip : Str) (success : Bool) : Str :=
  "Auth attempt: user=".toList ++ (['\x27'] ++ (username ++ (['\x27'] ++ (" success=".toList ++
    (ofBool success ++ (" ip=".toList ++ ip))))))

theorem newline_notMem_authText (hu : '\n' ∉ username) (hip : '\n' ∉ ip) :
    '\n' ∉ authText username ip success := by
  unfold authText
  simp only [List.mem_append, not_or]
  exact ⟨by decide, by decide, hu, by decide, by decide, newline_notMem_ofBool success,
    by decide, hip⟩

theorem authText_line (success : Bool) (details : Str) (hu : '\n' ∉ username) (hip : '\n' ∉ ip) :
    ∃ s : Str, s.head? ∈ [none, some ' '] ∧
      (LogCall.logAuth username success ip details).message.takeWhile (· ≠ '\n') =
        authText username ip success ++ s := by
  have hmessage : (LogCall.logAuth username success ip details).message =
      authText username ip success ++
      if details = [] then [] else " details=".toList ++ details := by
    unfold LogCall.message authText
    simp only [List.append_assoc]
    rfl
  refine ⟨_, ?_, hmessage ▸ takeWhile_append (newline_notMem_authText hu hip) _⟩
  split_ifs
  · exact List.mem_cons_self
  · rw [takeWhile_append (by decide)]
    exact List.mem_cons_of_mem _ List.mem_cons_self

theorem authEvents_first (success : Bool) (hne : username ≠ [])
    (hquote : ∀ c ∈ username, isUnquoted c = true)
    (hip : ip ≠ []) (hspace : ∀ c ∈ ip, isSpace c = false) {s : Str}
    (hs : s.head? ∈ [none, some ' ']) :
    authEvents.first (authText username ip success ++ s) = some ⟨authText username ip success,
      [("user".toList, username), ("success".toList, ofBool success), ("ip".toList, ip)], s⟩ := by
  have hip' : (Regex.group "ip".toList (.atLeast 1 (fun c ↦ !isSpace c))).first (ip ++ s) =
      some ⟨ip, [("ip".toList, ip)], s⟩ := by
    refine first_group _ (first_atLeast (fun c hc ↦ by simp [hspace c hc])
      (List.length_pos_iff.mpr hip) fun c hc ↦ ?_)
    simp only [List.mem_cons, List.not_mem_nil, or_false] at hs
    rcases hs with hs | hs <;> rw [hs] at hc <;> cases hc
    rfl
  have hany : (Regex.exactly 1 isAny).Takes ['\x27'] := takes_exactly rfl (by decide)
  have hsuccess := first_seq (first_lit " success=".toList _) (first_seq
    (first_successGroup success _) (first_seq (first_lit " ip=".toList _) hip'))
  have huser := first_run "user".toList hquote (List.length_pos_iff.mpr hne)
    (by rintro c ⟨⟩; rfl) (first_seq (hany _) hsuccess)
  have h := first_seq (first_lit "Auth attempt: user=".toList _) (first_seq (hany _) huser)
  unfold authText
  simp only [List.append_assoc]
  exact h

theorem leads_auth : Leads "Auth attempt: user=".toList :=
  ⟨'A', "uth attempt: user=".toList, rfl, by decide, by decide, by rintro ⟨⟩ <;> decide⟩

/-- The line is decoded to what was logged just in case there is a user name, without quotation
marks in it, and an address. -/
theorem authEvents_iff (m : Moment) (username : Str) (success : Bool) (ip details : Str)
    (hu : '\n' ∉ username) (hip : ∀ c ∈ ip, isSpace c = false) :
    Extracts authEvents ((LogCall.logAuth username success ip details).line m)
        [("user".toList, username), ("success".toList, ofBool success), ("ip".toList, ip)] ↔
      username ≠ [] ∧ (∀ c ∈ username, isUnquoted c = true) ∧ ip ≠ [] := by
  constructor
  · rintro ⟨found, hfound, hgroups⟩
    simp only [List.forall_mem_cons] at hgroups
    obtain ⟨husername, -, hcaptured, -⟩ := hgroups
    have huser := captured_atLeast (r := authEvents) (n := 1) (p := isUnquoted) rfl hfound husername
    have hip := captured_atLeast (r := authEvents) (n := 1) (p := fun c ↦ !isSpace c) rfl hfound
      hcaptured
    exact ⟨List.length_pos_iff.mp huser.1, huser.2, List.length_pos_iff.mp hip.1⟩
  · rintro ⟨hne, hquote, hipne⟩
    have hnewline : '\n' ∉ ip := fun h ↦ absurd (hip _ h) (by decide)
    obtain ⟨s, hs, hline⟩ := authText_line success details hu hnewline
    have hfirst := authEvents_first success hne hquote hipne hip hs
    refine extracts_of_first leads_auth m hline hfirst ?_
    simp only [List.forall_mem_cons]
    exact ⟨rfl, rfl, rfl, by simp⟩

end Auth

def forgedLogin : LogCall :=
  .logAuth "admin' success=true ip=10.0.0.1 ".toList false "10.0.0.5".toList
    "Invalid username or password".toList

theorem authEvents_iff_forged :
    Extracts authEvents (forgedLogin.line ⟨newYear, true⟩)
        [("user".toList, "admin' success=true ip=10.0.0.1 ".toList),
          ("success".toList, ofBool false), ("ip".toList, "10.0.0.5".toList)] ↔
      "admin' success=true ip=10.0.0.1 ".toList ≠ [] ∧
        (∀ c ∈ "admin' success=true ip=10.0.0.1 ".toList, isUnquoted c = true) ∧
        "10.0.0.5".toList ≠ [] :=
  authEvents_iff ⟨newYear, true⟩ "admin' success=true ip=10.0.0.1 ".toList false "10.0.0.5".toList
    "Invalid username or password".toList (by decide) (by decide)

theorem forgedLogin_search :
    (authEvents.search (forgedLogin.line ⟨newYear, true⟩)).map Match.groups =
      some [("user".toList, "admin".toList), ("success".toList, "true".toList),
        ("ip".toList, "10.0.0.1".toList)] := by
  decide +kernel

theorem forgedLogin_not_extracts : ¬ ∀ (m : Moment) (username : Str) (success : Bool)
    (ip details : Str), '\n' ∉ username → (∀ c ∈ ip, isSpace c = false) →
      Extracts authEvents ((LogCall.logAuth username success ip details).line m)
        [("user".toList, username), ("success".toList, ofBool success), ("ip".toList, ip)] := by
  intro h
  obtain ⟨found, hfound, hgroups⟩ := h ⟨newYear, true⟩ "admin' success=true ip=10.0.0.1 ".toList
    false "10.0.0.5".toList "Invalid username or password".toList (by decide) (by decide)
  have hforged := forgedLogin_search
  rw [forgedLogin, hfound, Option.map_some, Option.some.injEq] at hforged
  have hsuccess := hgroups ("success".toList, ofBool false) (by simp)
  rw [capture, hforged] at hsuccess
  exact absurd hsuccess (by decide)

section Fields

theorem isField_of_notMem {x : Str} (h : '|' ∉ x) : ∀ c ∈ x, isField c = true := by
  intro c hc
  have hne : c ≠ '|' := fun he ↦ h (he ▸ hc)
  simpa [isField] using hne

theorem first_field {x separator tail s : Str} (name : Str) {b : Regex} {m : Match} (hne : x ≠ [])
    (hx : '|' ∉ x) (hseparator : separator = ' ' :: '|' :: tail) (hb : b.first s = some m) :
    (Regex.seq (.group name (.atLeast 1 isField)) (.seq (.lit separator) b)).first
        (x ++ (separator ++ s)) =
      some ⟨x ++ (separator ++ m.text), (name, x) :: m.groups, m.rest⟩ := by
  subst hseparator
  refine first_giveBack (s := '|' :: (tail ++ s)) (isField_of_notMem hx)
    (List.length_pos_iff.mpr hne) rfl (by rintro d ⟨⟩; rfl) ?_
    (first_seq (first_lit (' ' :: '|' :: tail) s) hb)
  refine matchesAt_seq_lit fun h ↦ ?_
  obtain ⟨⟨⟩, -⟩ := List.cons_prefix_cons.mp h

theorem first_number {s : Str} {b : Regex} {m : Match} (name : Str) (n : ℕ)
    (hs : ∀ c ∈ s.head?, isDigit c = false) (hb : b.first s = some m) :
    (Regex.seq (.group name (.atLeast 1 isDigit)) b).first (Str.ofNat n ++ s) =
      some ⟨Str.ofNat n ++ m.text, (name, Str.ofNat n) :: m.groups, m.rest⟩ :=
  first_run name (fun _ ↦ Str.isDigit_ofNat) (List.length_pos_iff.mpr (Str.ofNat_ne_nil n)) hs hb

/-- The texts with which a device or service record is written and read. -/
structure Identifies (lead separator name : Str) : Prop where
  leads : Leads lead
  lead_line : '\n' ∉ lead
  bar : ∃ tail, separator = ' ' :: '|' :: tail
  separator_line : '\n' ∉ separator
  operation : name ≠ "operation".toList
  success : name ≠ "success".toList

def identifiedText (lead separator operation : Str) (id : ℤ) (success : Bool) : Str :=
  lead ++ (operation ++ (separator ++ (Str.ofInt id ++ (" | success=".toList ++ ofBool success))))

variable {lead separator name operation : Str} {success : Bool}

theorem identified_first (h : Identifies lead separator name) (hne : operation ≠ [])
    (hbar : '|' ∉ operation) (n : ℕ) :
    (identified lead separator name).first (identifiedText lead separator operation n success) =
      some ⟨identifiedText lead separator operation n success, [("operation".toList, operation),
        (name, Str.ofInt n), ("success".toList, ofBool success)], []⟩ := by
  obtain ⟨tail, htail⟩ := h.bar
  have hsuccess := first_seq (first_lit " | success=".toList _) (first_successGroup success [])
  have hnumber := first_number name n (by rintro c ⟨⟩; rfl) hsuccess
  have hall := first_seq (first_lit lead _)
    (first_field "operation".toList hne hbar htail hnumber)
  rw [List.append_nil] at hall
  exact hall

theorem identified_captured (h : Identifies lead separator name) :
    (identified lead separator name).namedGroups.filter (·.1 = name) =
      [(name, .atLeast 1 isDigit)] := by
  have hoperation : ¬ decide ("operation".toList = name) = true := fun he ↦
    h.operation (of_decide_eq_true he).symm
  have hsuccess : ¬ decide ("success".toList = name) = true := fun he ↦
    h.success (of_decide_eq_true he).symm
  simp only [identified, namedGroups, successGroup, List.nil_append, List.append_nil,
    List.singleton_append]
  let named : Str × Regex → Bool := fun g ↦ g.1 = name
  rw [List.filter_cons_of_neg (p := named) hoperation,
    List.filter_cons_of_pos (p := named) (decide_eq_true rfl),
    List.filter_cons_of_neg (p := named) hsuccess, List.filter_nil]

theorem identified_iff (h : Identifies lead separator name) (m : Moment) {call : LogCall} {id : ℤ}
    (hcall : call.message = identifiedText lead separator operation id success)
    (hne : operation ≠ []) (hbar : '|' ∉ operation) (hline : '\n' ∉ operation) :
    Extracts (identified lead separator name) (call.line m) [("operation".toList, operation),
      (name, Str.ofInt id), ("success".toList, ofBool success)] ↔ 0 ≤ id := by
  constructor
  · rintro ⟨found, hfound, hgroups⟩
    simp only [List.forall_mem_cons] at hgroups
    obtain ⟨-, hid, -⟩ := hgroups
    have hdigits := captured_atLeast (identified_captured h) hfound hid
    cases id with
    | ofNat n => exact Int.natCast_nonneg n
    | negSucc n => exact absurd (hdigits.2 '-' List.mem_cons_self) (by decide)
  · intro hid
    obtain ⟨n, rfl⟩ := Int.eq_ofNat_of_zero_le hid
    have hnewline : '\n' ∉ call.message := by
      have hnumber : '\n' ∉ Str.ofInt n := fun hc ↦ absurd (Str.isDigit_ofNat hc) (by decide)
      have hsuccess : '\n' ∉ " | success=".toList := by decide
      rw [hcall, identifiedText]
      simp only [List.mem_append, not_or]
      exact ⟨h.lead_line, hline, h.separator_line, hnumber, hsuccess, newline_notMem_ofBool success⟩
    refine extracts_of_first h.leads m ((takeWhile_eq_self hnewline).trans hcall)
      (identified_first h hne hbar n) ?_
    simp only [List.forall_mem_cons]
    refine ⟨capture_self _ _ _ _ _, ?_, ?_, by simp⟩
    · rw [capture_of_ne h.operation.symm, capture_self]
    · rw [capture_of_ne (by decide), capture_of_ne h.success, capture_self]

theorem identifies_device :
    Identifies "Device operation: ".toList " | device_id=".toList "device_id".toList where
  leads := ⟨'D', "evice operation: ".toList, rfl, by decide, by decide, by rintro ⟨⟩ <;> decide⟩
  lead_line := by decide
  bar := ⟨" device_id=".toList, rfl⟩
  separator_line := by decide
  operation := by decide
  success := by decide

theorem identifies_service :
    Identifies "Service operation: ".toList " | record_id=".toList "record_id".toList where
  leads := ⟨'S', "ervice operation: ".toList, rfl, by decide, by decide, by rintro ⟨⟩ <;> decide⟩
  lead_line := by decide
  bar := ⟨" record_id=".toList, rfl⟩
  separator_line := by decide
  operation := by decide
  success := by decide

theorem logDevice_message (id : ℤ) (operation : Str) (success : Bool) :
    (LogCall.logDevice id operation success).message =
      identifiedText "Device operation: ".toList " | device_id=".toList operation id success := by
  unfold LogCall.message identifiedText
  simp only [List.append_assoc]

theorem logService_message (id : ℤ) (operation : Str) (success : Bool) :
    (LogCall.logService id operation success).message =
      identifiedText "Service operation: ".toList " | record_id=".toList operation id success := by
  unfold LogCall.message identifiedText
  simp only [List.append_assoc]

/-- Device and service lines are decoded to what was logged just in case the identifier is not
negative. -/
theorem operations_iff (m : Moment) (id : ℤ) (operation : Str) (success : Bool)
    (hne : operation ≠ []) (hbar : '|' ∉ operation) (hline : '\n' ∉ operation) :
    (Extracts deviceOperations ((LogCall.logDevice id operation success).line m)
        [("operation".toList, operation), ("device_id".toList, Str.ofInt id),
          ("success".toList, ofBool success)] ↔ 0 ≤ id) ∧
      (Extracts serviceOperations ((LogCall.logService id operation success).line m)
        [("operation".toList, operation), ("record_id".toList, Str.ofInt id),
          ("success".toList, ofBool success)] ↔ 0 ≤ id) :=
  ⟨identified_iff identifies_device m (logDevice_message id operation success) hne hbar hline,
    identified_iff identifies_service m (logService_message id operation success) hne hbar hline⟩

def blockedOperation : Str := "create_blocked".toList

theorem operations_iff_blocked :
    (Extracts deviceOperations ((LogCall.logDevice (-1) blockedOperation false).line
          ⟨newYear, true⟩)
        [("operation".toList, blockedOperation), ("device_id".toList, Str.ofInt (-1)),
          ("success".toList, ofBool false)] ↔ 0 ≤ (-1 : ℤ)) ∧
      (Extracts serviceOperations ((LogCall.logService (-1) blockedOperation false).line
          ⟨newYear, true⟩)
        [("operation".toList, blockedOperation), ("record_id".toList, Str.ofInt (-1)),
          ("success".toList, ofBool false)] ↔ 0 ≤ (-1 : ℤ)) :=
  operations_iff ⟨newYear, true⟩ (-1) blockedOperation false (by decide) (by decide) (by decide)

theorem blockedDevice_not_extracts : ¬ ∀ (m : Moment) (id : ℤ) (operation : Str) (success : Bool),
    operation ≠ [] → '|' ∉ operation → '\n' ∉ operation →
      Extracts deviceOperations ((LogCall.logDevice id operation success).line m)
        [("operation".toList, operation), ("device_id".toList, Str.ofInt id),
          ("success".toList, ofBool success)] := by
  intro h
  have hextracts := h ⟨newYear, true⟩ (-1) blockedOperation false (by decide) (by decide)
    (by decide)
  have hid := (identified_iff identifies_device ⟨newYear, true⟩
    (logDevice_message (-1) blockedOperation false) (by decide) (by decide) (by decide)).mp
      hextracts
  exact absurd hid (by decide)

def requestText (method path ip : Str) (status duration : ℕ) : Str :=
  "HTTP Request: ".toList ++ (method ++ (" ".toList ++ (path ++ (" | IP: ".toList ++ (ip ++
    (" | Status: ".toList ++ (Str.ofNat status ++ (" | Duration: ".toList ++ (Str.ofNat duration ++
      "ms".toList)))))))))

variable {method path ip : Str} {status duration : ℕ}

theorem httpRequests_first (hmethod : method ≠ []) (hword : ∀ c ∈ method, isWord c = true)
    (hpath : path ≠ []) (hpathbar : '|' ∉ path) (hip : ip ≠ []) (hipbar : '|' ∉ ip) :
    httpRequests.first (requestText method path ip status duration) =
      some ⟨requestText method path ip status duration, [("method".toList, method),
        ("path".toList, path), ("ip".toList, ip), ("status".toList, Str.ofNat status),
        ("duration".toList, Str.ofNat duration)], []⟩ := by
  have hipSeparator : " | IP: ".toList = ' ' :: '|' :: " IP: ".toList := rfl
  have hstatusSeparator : " | Status: ".toList = ' ' :: '|' :: " Status: ".toList := rfl
  have hms : (Regex.lit "ms".toList).first "ms".toList = some ⟨"ms".toList, [], []⟩ :=
    first_lit "ms".toList []
  have hduration := first_seq (first_lit " | Duration: ".toList _)
    (first_number "duration".toList duration (by rintro c ⟨⟩; rfl) hms)
  have hstatus := first_number "status".toList status (by rintro c ⟨⟩; rfl) hduration
  have hip := first_field "ip".toList hip hipbar hstatusSeparator hstatus
  have hpath := first_field "path".toList hpath hpathbar hipSeparator hip
  have hmethod := first_run "method".toList hword (List.length_pos_iff.mpr hmethod)
    (by rintro c ⟨⟩; rfl) (first_seq (first_lit " ".toList _) hpath)
  exact first_seq (first_lit "HTTP Request: ".toList _) hmethod

theorem leads_request : Leads "HTTP Request: ".toList :=
  ⟨'H', "TTP Request: ".toList, rfl, by decide, by decide, by rintro ⟨⟩ <;> decide⟩

theorem logRequest_message (ip method path : Str) (status duration : ℕ) :
    (LogCall.logRequest ip method path status duration).message =
      requestText method path ip status duration := by
  unfold LogCall.message requestText
  simp only [List.append_assoc]
  rfl

theorem newline_notMem_requestText (status duration : ℕ) (hword : ∀ c ∈ method, isWord c = true)
    (hpath : '\n' ∉ path) (hip : '\n' ∉ ip) :
    '\n' ∉ requestText method path ip status duration := by
  have hmethod : '\n' ∉ method := fun h ↦ absurd (hword _ h) (by decide)
  have hnumber : ∀ {n : ℕ}, '\n' ∉ Str.ofNat n := fun hc ↦ absurd (Str.isDigit_ofNat hc) (by decide)
  unfold requestText
  simp only [List.mem_append, not_or]
  exact ⟨by decide, hmethod, by decide, hpath, by decide, hip, by decide, hnumber, by decide,
    hnumber, by decide⟩

theorem httpRequests_extracts (m : Moment) (hmethod : method ≠ [])
    (hword : ∀ c ∈ method, isWord c = true) (hpath : path ≠ []) (hpathbar : '|' ∉ path)
    (hpathline : '\n' ∉ path) (hip : ip ≠ []) (hipbar : '|' ∉ ip) (hipline : '\n' ∉ ip) :
    Extracts httpRequests ((LogCall.logRequest ip method path status duration).line m)
      [("method".toList, method), ("path".toList, path), ("ip".toList, ip),
        ("status".toList, Str.ofInt status), ("duration".toList, Str.ofInt duration)] := by
  have hline := takeWhile_eq_self
    (newline_notMem_requestText status duration hword hpathline hipline)
  rw [← logRequest_message] at hline
  refine extracts_of_first leads_request m (hline.trans (logRequest_message ip method path _ _))
    (httpRequests_first hmethod hword hpath hpathbar hip hipbar) ?_
  simp only [List.forall_mem_cons]
  exact ⟨rfl, rfl, rfl, rfl, rfl, by simp⟩

def databaseText (operation : Str) (success : Bool) : Str :=
  "DB operation: ".toList ++ (operation ++ (" | success=".toList ++ ofBool success))

theorem leads_database : Leads "DB operation: ".toList :=
  ⟨'D', "B operation: ".toList, rfl, by decide, by decide, by rintro ⟨⟩ <;> decide⟩

theorem databaseOperations_first (hne : operation ≠ []) (hbar : '|' ∉ operation) (s : Str) :
    databaseOperations.first (databaseText operation success ++ s) =
      some ⟨databaseText operation success, [("operation".toList, operation),
        ("success".toList, ofBool success)], s⟩ := by
  have hseparator : " | success=".toList = ' ' :: '|' :: " success=".toList := rfl
  have h := first_seq (first_lit "DB operation: ".toList _) (first_field "operation".toList hne hbar
    hseparator (first_successGroup success s))
  unfold databaseText
  simp only [List.append_assoc]
  exact h

def detailsText (details : Str) : Str :=
  if details = [] then [] else " | details=".toList ++ details

theorem logDatabase_message (operation : Str) (success : Bool) (details : Str) :
    (LogCall.logDatabase operation success details).message =
      databaseText operation success ++ detailsText details := by
  unfold LogCall.message databaseText detailsText
  simp only [List.append_assoc]

theorem newline_notMem_databaseText (success : Bool) (hline : '\n' ∉ operation) :
    '\n' ∉ databaseText operation success := by
  unfold databaseText
  simp only [List.mem_append, not_or]
  exact ⟨by decide, hline, by decide, newline_notMem_ofBool success⟩

theorem databaseOperations_extracts (m : Moment) (details : Str) (hne : operation ≠ [])
    (hbar : '|' ∉ operation) (hline : '\n' ∉ operation) :
    Extracts databaseOperations ((LogCall.logDatabase operation success details).line m)
      [("operation".toList, operation), ("success".toList, ofBool success)] := by
  have hmessage := takeWhile_append (newline_notMem_databaseText success hline)
    (detailsText details)
  rw [← logDatabase_message] at hmessage
  refine extracts_of_first leads_database m hmessage (databaseOperations_first hne hbar _) ?_
  simp only [List.forall_mem_cons]
  exact ⟨rfl, rfl, by simp⟩

/-- Request and database lines are decoded to what was logged, whatever the details say. -/
theorem lines_extract (m : Moment) :
    (∀ (ip method path : Str) (status duration : ℤ), method ≠ [] →
      (∀ c ∈ method, isWord c = true) → path ≠ [] → '|' ∉ path → '\n' ∉ path → ip ≠ [] → '|' ∉ ip →
      '\n' ∉ ip → 0 ≤ status → 0 ≤ duration →
      Extracts httpRequests ((LogCall.logRequest ip method path status duration).line m)
        [("method".toList, method), ("path".toList, path), ("ip".toList, ip),
          ("status".toList, Str.ofInt status), ("duration".toList, Str.ofInt duration)]) ∧
      ∀ (operation : Str) (success : Bool) (details : Str), operation ≠ [] → '|' ∉ operation →
        '\n' ∉ operation →
        Extracts databaseOperations ((LogCall.logDatabase operation success details).line m)
          [("operation".toList, operation), ("success".toList, ofBool success)] := by
  refine ⟨fun ip method path status duration hmethod hword hpath hpathbar hpathline hip hipbar
    hipline hstatus hduration ↦ ?_, fun operation success details ↦
      databaseOperations_extracts m details⟩
  obtain ⟨status, rfl⟩ := Int.eq_ofNat_of_zero_le hstatus
  obtain ⟨duration, rfl⟩ := Int.eq_ofNat_of_zero_le hduration
  exact httpRequests_extracts m hmethod hword hpath hpathbar hpathline hip hipbar hipline

theorem lines_extract_login :
    Extracts httpRequests ((LogCall.logRequest "10.0.0.5".toList "POST".toList "/api/login".toList
        401 3).line ⟨newYear, true⟩)
      [("method".toList, "POST".toList), ("path".toList, "/api/login".toList),
        ("ip".toList, "10.0.0.5".toList), ("status".toList, Str.ofInt 401),
        ("duration".toList, Str.ofInt 3)] ∧
    Extracts databaseOperations ((LogCall.logDatabase "connect".toList false
        "Connection failed".toList).line ⟨newYear, true⟩)
      [("operation".toList, "connect".toList), ("success".toList, ofBool false)] :=
  ⟨(lines_extract ⟨newYear, true⟩).1 "10.0.0.5".toList "POST".toList "/api/login".toList 401 3
      (by decide) (by decide) (by decide) (by decide) (by decide) (by decide) (by decide)
      (by decide) (by decide) (by decide),
    (lines_extract ⟨newYear, true⟩).2 "connect".toList false "Connection failed".toList (by decide)
      (by decide) (by decide)⟩

end Fields

end ServiceSystem.Logging
