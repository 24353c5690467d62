import ServiceSystem.WebServer.Uses

namespace ServiceSystem.WebServer

open Foundations Program Interleaving Database

variable [Postgres] [Platform] {ι : Type} [DecidableEq ι] {s₀ : Shared}
  {calls : ι → List (Faults × Arrival)}
  {c : Config ι (Faults × Arrival) ServerOp ServerAns (Except Str Response) Shared}

/-- What a client may find out about a call: a reply that is not that of a catch block. -/
def informative (x : (Faults × Call) × Reply) : Bool := x.2 ≠ x.1.2.onError

/-- The database is what the calls in `log` have made of it one after the other, and in `log` are
the calls behind the requests, but for some that were answered with their catch block. -/
def Explained (s₀ : Shared)
    (c : Config ι (Faults × Arrival) ServerOp ServerAns (Except Str Response) Shared)
    (log : List (ι × (Faults × Call) × Reply)) : Prop :=
  History (log.map (·.2)) (stored s₀.connection) (stored c.shared.connection) ∧
    ∀ i, ∃ ls, List.Forall₂ (fun d l ↦ Asked d.1 l d.2.2) (c.thread i).done ls ∧
      (of i log).Sublist ls.flatten ∧
        (of i log).filter informative = ls.flatten.filter informative

theorem explained (hfree : s₀.connection.trans = false)
    (h : Reaches server anyStep (initial s₀ calls) c) (hf : Finished c) :
    ∃ log, Explained s₀ c log := by
  obtain ⟨calls₁, c₁, hc₁, hf₁, hshared, hasked⟩ :=
    (followed (V := databasePart) (Q := Asked) routine_asks h).finished hf
  obtain ⟨order, -, hfinished⟩ := serializable_of_refusing refusing hfree hc₁
  obtain ⟨hstate, hreplies⟩ := hfinished hf₁
  have hturned := turned_of_refused refusing hfree hc₁
  refine ⟨(serial faultySystem order s₀.connection).1, ?_, fun i ↦ ?_⟩
  · rw [show c.shared.connection = c₁.shared from hshared.symm, hstate]
    exact serial_history order _
  · obtain ⟨ls, hls, hmade⟩ := hasked i
    refine ⟨ls, hls, ?_, ?_⟩
    · rw [← hmade, show of i (serial faultySystem order s₀.connection).1 = _ from hreplies i]
      exact admitted_sublist _
    · rw [← hmade, show of i (serial faultySystem order s₀.connection).1 = _ from hreplies i]
      refine filter_admitted fun d hd hrefused ↦ ?_
      simp only [informative, hturned i d hd hrefused, ne_eq, not_true_eq_false, decide_false]

section Listings

omit [Platform] in
theorem history_split {before after : List ((Faults × Call) × Reply)} {f : Faults} {j : Call}
    {r : Reply} {st st' : Tables × Sequences}
    (h : History (before ++ ((f, j), r) :: after) st st') :
    ∃ st₁ st₂, History before st st₁ ∧ Answered f j r st₁ st₂ ∧ History after st₂ st' := by
  induction before generalizing st with
  | nil =>
    cases h with
    | cons h hrest => exact ⟨_, _, .nil, h, hrest⟩
  | cons y before ih =>
    cases h with
    | cons h hrest =>
      obtain ⟨st₁, st₂, hbefore, hanswered, hafter⟩ := ih hrest
      exact ⟨st₁, st₂, .cons h hbefore, hanswered, hafter⟩

omit [Platform] in
theorem answered_integrity {f : Faults} {j : Call} {r : Reply} {st st' : Tables × Sequences}
    (h : Answered f j r st st') (hst : Integrity st.1) : Integrity st'.1 := by
  cases h with
  | read | unreached | undone => exact hst
  | applied hs hx | inDoubt hs hf hx => exact hst.execute (congrArg Prod.fst hx)

omit [Platform] in
theorem history_integrity {l : List ((Faults × Call) × Reply)} {st st' : Tables × Sequences}
    (h : History l st st') (hst : Integrity st.1) : Integrity st'.1 := by
  induction h with
  | nil => exact hst
  | cons h _ ih => exact ih (answered_integrity h hst)

/-- Each list is empty, or all that the tables held, intact, at its place among the calls that
explain the database and the responses. -/
def Linearized (s₀ : Shared)
    (c : Config ι (Faults × Arrival) ServerOp ServerAns (Except Str Response) Shared) : Prop :=
  ∃ log, Explained s₀ c log ∧ ∀ before i f j r after, log = before ++ (i, (f, j), r) :: after →
    j.statement = none → ∃ t q, History (before.map (·.2)) (stored s₀.connection) (t, q) ∧
      Integrity t ∧ (r = j.onError ∨ r = j.view t)

def submission : Request where
  remote_ip_address := []
  body := ("\x7b\"device_id\":1,\"service_id\":1,\"service_date\":\"2024-01-01\",\"cost\":10," ++
    "\"notes\":\"\",\"next_due_date\":\"2024-02-01\"\x7d").toList

@[reducible] def submissionPlatform : Platform :=
  .ofTable [(submission.body, .ofEntries [("device_id".toList, .number_integer 1),
    ("service_id".toList, .number_integer 1), ("service_date".toList, .string "2024-01-01".toList),
    ("cost".toList, .number_integer 10), ("notes".toList, .string []),
    ("next_due_date".toList, .string "2024-02-01".toList)])]

/-- One thread adds a record while the other one lists the devices. -/
def visitors (i : Fin 2) : List (Faults × Arrival) :=
  [(.healthy, ⟨.api (if i = 0 then .createServiceRecord else .getDevices), submission, ⟨0, 0⟩⟩)]

def opened : @Shared isoDates :=
  letI := isoDates
  ⟨{ onePrinter with tables := { onePrinter.tables with
    service_types := [⟨1, "Cleaning".toList, some 6, some 5000⟩] } }, Metrics.startup, []⟩

def visits : List (Fin 2) :=
  [1, 0, 0, 0, 0, 0, 1, 0, 1, 0, 1, 0, 1, 0, 1, 0, 1, 0, 1, 0, 1, 0, 1, 0, 1, 0, 1, 0, 1]

def visited : Config (Fin 2) (Faults × Arrival) ServerOp ServerAns (Except Str Response)
    (@Shared isoDates) :=
  letI := isoDates
  letI := submissionPlatform
  played server (initial opened visitors) visits

omit [Postgres] [Platform] in
theorem visited_reaches : @Reaches (Fin 2) _ _ _ _ _ _ (@server isoDates submissionPlatform)
    anyStep (initial opened visitors) visited :=
  letI := isoDates
  letI := submissionPlatform
  .played (initial opened visitors) visits

omit [Postgres] [Platform] in
theorem visited_finished : Finished visited := by decide +kernel

end Listings

section Records

omit [Postgres] [Platform] in
theorem of_filterMap {α β : Type} (i : ι) (f : α → Option β) (xs : List (ι × α)) :
    of i (xs.filterMap (fun x ↦ (f x.2).map (x.1, ·))) = (of i xs).filterMap f := by
  induction xs with
  | nil => rfl
  | cons x xs ih =>
    obtain ⟨k, a⟩ := x
    have hcons {γ : Type} (b : γ) (ys : List (ι × γ)) :
        of i ((k, b) :: ys) = if k = i then b :: of i ys else of i ys := by
      simp only [of, List.filter_cons, decide_eq_true_eq]
      split_ifs <;> rfl
    rw [List.filterMap_cons, hcons]
    cases hb : f a with
    | none =>
      simp only [Option.map_none, ih]
      split_ifs
      · rw [List.filterMap_cons_none hb]
      · rfl
    | some b =>
      simp only [Option.map_some]
      rw [hcons, ih]
      split_ifs
      · rw [List.filterMap_cons_some hb]
      · rfl

omit [Postgres] [Platform] in
theorem forall₂_mem {α β : Type} {R : α → β → Prop} {xs : List α} {ys : List β}
    (h : List.Forall₂ R xs ys) : ∀ y ∈ ys, ∃ x ∈ xs, R x y := by
  induction h with
  | nil => exact nofun
  | cons h _ ih =>
    intro y hy
    rcases List.mem_cons.mp hy with rfl | hy
    · exact ⟨_, List.mem_cons_self, h⟩
    · obtain ⟨x, hx, hxy⟩ := ih y hy
      exact ⟨x, List.mem_cons_of_mem _ hx, hxy⟩

/-- The record that a call to the database adds, as it is told. -/
def added : (Faults × Call) × Reply → Option ServiceRecord
  | ((_, .addServiceRecord record), .bool true) => some record
  | _ => none

omit [Postgres] [Platform] in
/-- The field `success` of a response, as the page reads it. -/
def reportsSuccess : Except Str Response → Bool
  | .ok ⟨_, _, .json (.object fields)⟩ =>
    match OrderedMap.lookupIn "success".toList fields with
    | some (.boolean success) => success
    | _ => false
  | _ => false

/-- The record that a client has been told is stored. -/
def confirmed (x : Faults × Arrival) (res : Except Str Response) : Option ServiceRecord :=
  if x.2.route = .api .createServiceRecord ∧ reportsSuccess res then
    (Platform.parse x.2.request.body >>= readRecord).toOption
  else none

omit [Postgres] [Platform] in
theorem added_informative {x : (Faults × Call) × Reply} (h : informative x = false) :
    added x = none := by
  obtain ⟨⟨f, j⟩, r⟩ := x
  have hr : r = j.onError := by simpa [informative] using h
  subst hr
  cases j <;> rfl

omit [Postgres] [Platform] in
theorem filterMap_informative (l : List ((Faults × Call) × Reply)) :
    (l.filter informative).filterMap added = l.filterMap added := by
  rw [List.filterMap_filter]
  refine List.filterMap_congr fun x _ ↦ ?_
  split_ifs with hx
  · rfl
  · exact (added_informative (by simpa using hx)).symm

omit [Postgres] [Platform] in
theorem reportsSuccess_created (success : Bool) :
    reportsSuccess (.ok (.json 200 (createdJson success))) = success := by
  cases success <;> rfl

omit [Postgres] in
theorem asked_added {x : Faults × Arrival} {l : List ((Faults × Call) × Reply)}
    {res : Except Str Response} (h : Asked x l res) :
    l.filterMap added = (confirmed x res).toList := by
  obtain ⟨f, route, req, clock⟩ := x
  cases route with
  | metrics | index | static _ =>
    obtain rfl : l = [] := h
    rfl
  | api route =>
    cases route with
    | login | logout | createDevice =>
      obtain rfl : l = [] := h
      rfl
    | testDb | getDevices | getServiceTypes | getServiceHistory | getServiceRecords =>
      obtain ⟨r, rfl, -⟩ := h
      rfl
    | createServiceRecord =>
      simp only [Asked, Created] at h
      simp only [confirmed, true_and]
      cases hrecord : Platform.parse req.body >>= readRecord with
      | error what =>
        rw [hrecord] at h
        obtain ⟨rfl, -⟩ := h
        split_ifs <;> rfl
      | ok record =>
        rw [hrecord] at h
        obtain ⟨r, rfl, rfl⟩ := h
        rw [dumped_valid (created_valid (toBool r)), reportsSuccess_created]
        rcases r with ⟨_ | _⟩ | _ | _ | _ | _ <;> rfl

/-- `accepted` are the records that the rows were added for, one for each. -/
def RowsFor (accepted : List ServiceRecord) (rows : List ServiceHistoryRow) : Prop :=
  List.Forall₂ (fun record row ↦ ∃ id, serviceHistoryRow id record = .ok row) accepted rows

omit [Platform] in
/-- Methods that only read, or add a record, leave the tables with the rows that they report. -/
theorem history_appends {l : List ((Faults × Call) × Reply)} {st st' : Tables × Sequences}
    (h : History l st st') (hcalls : ∀ x ∈ l, x.1.2.statement = none ∨
      ∃ record, x.1.2 = .addServiceRecord record)
    (hcommit : ∀ x ∈ l, ∀ lost, x.1.1.commit ≠ .unknown true lost) :
    ∃ rows, st'.1 = st.1.append rows ∧ RowsFor (l.filterMap added) rows := by
  induction h with
  | nil => exact ⟨[], (Tables.append_nil _).symm, .nil⟩
  | @cons f j r rest st st' st'' h hrest ih =>
    obtain ⟨rows, htables, hrows⟩ := ih (fun x hx ↦ hcalls x (List.mem_cons_of_mem _ hx))
      (fun x hx ↦ hcommit x (List.mem_cons_of_mem _ hx))
    have hsame : st'.1 = st.1 → added ((f, j), r) = none →
        ∃ rows, st''.1 = st.1.append rows ∧
          RowsFor ((((f, j), r) :: rest).filterMap added) rows := by
      intro ht hadded
      refine ⟨rows, ht ▸ htables, ?_⟩
      rw [List.filterMap_cons_none hadded]
      exact hrows
    cases h with
    | read hread hr =>
      refine hsame rfl ?_
      cases j <;> first | rfl | cases hread
    | unreached hs => exact hsame rfl (by cases j <;> rfl)
    | undone hs => exact hsame rfl (by cases j <;> rfl)
    | inDoubt hs hf hx => exact absurd hf (hcommit _ List.mem_cons_self _)
    | @applied t t' q q' s hs hx =>
      obtain hnone | ⟨record, rfl⟩ := hcalls _ List.mem_cons_self
      · rw [hs] at hnone
        cases hnone
      · cases hs
        obtain ⟨row, hrow, rfl⟩ := execute_insertServiceRecord (congrArg Prod.fst hx)
        refine ⟨row :: rows, ?_, .cons ⟨_, hrow⟩ hrows⟩
        rw [htables, Tables.append_append]
        rfl

omit [Postgres] in
theorem asked_calls {x : Faults × Arrival} {l : List ((Faults × Call) × Reply)}
    {res : Except Str Response} (h : Asked x l res) : ∀ y ∈ l, y.1.1 = x.1 ∧
      (y.1.2.statement = none ∨ ∃ record, y.1.2 = .addServiceRecord record) := by
  obtain ⟨f, route, req, clock⟩ := x
  intro y hy
  cases route with
  | metrics | index | static _ =>
    obtain rfl : l = [] := h
    cases hy
  | api route =>
    cases route with
    | login | logout | createDevice =>
      obtain rfl : l = [] := h
      cases hy
    | testDb | getDevices | getServiceTypes | getServiceHistory | getServiceRecords =>
      obtain ⟨r, rfl, -⟩ := h
      obtain rfl := List.mem_singleton.mp hy
      exact ⟨rfl, .inl rfl⟩
    | createServiceRecord =>
      simp only [Asked, Created] at h
      split at h
      · obtain ⟨r, rfl, -⟩ := h
        obtain rfl := List.mem_singleton.mp hy
        exact ⟨rfl, .inr ⟨_, rfl⟩⟩
      · obtain ⟨rfl, -⟩ := h
        cases hy

omit [Postgres] in
theorem asked_flatten {done : List ((Faults × Arrival) × List (Program.Event ServerAns) × Except Str Response)}
    {ls : List (List ((Faults × Call) × Reply))}
    (h : List.Forall₂ (fun d l ↦ Asked d.1 l d.2.2) done ls) :
    ls.flatten.filterMap added = done.filterMap (fun d ↦ confirmed d.1 d.2.2) := by
  induction h with
  | nil => rfl
  | @cons d l done ls hd hrest ih =>
    rw [List.flatten_cons, List.filterMap_append, ih, asked_added hd, List.filterMap_cons]
    cases confirmed d.1 d.2.2 <;> rfl

/-- The rows that the tables have gained are one for each record that a client has been told is
stored, in an order in which those of each thread stand as it was told. -/
def ExactlyOnce (s₀ : Shared)
    (c : Config ι (Faults × Arrival) ServerOp ServerAns (Except Str Response) Shared) : Prop :=
  ∃ (accepted : List (ι × ServiceRecord)) (rows : List ServiceHistoryRow),
    (∀ i, of i accepted = (c.thread i).done.filterMap (fun d ↦ confirmed d.1 d.2.2)) ∧
      c.shared.connection.tables = s₀.connection.tables.append rows ∧
      RowsFor (accepted.map (·.2)) rows

/-- Unless the server applies a `COMMIT` and its outcome is never learned. -/
theorem records_exactly_once (hfree : s₀.connection.trans = false)
    (hcommit : ∀ i, ∀ x ∈ calls i, ∀ lost, x.1.commit ≠ .unknown true lost)
    (h : Reaches server anyStep (initial s₀ calls) c) (hf : Finished c) : ExactlyOnce s₀ c := by
  obtain ⟨log, hhistory, hlog⟩ := explained hfree h hf
  have hmem : ∀ x ∈ log.map (·.2), (x.1.2.statement = none ∨
      ∃ record, x.1.2 = .addServiceRecord record) ∧
        ∀ lost, x.1.1.commit ≠ .unknown true lost := by
    intro x hx
    obtain ⟨⟨i, y⟩, hy, rfl⟩ := List.mem_map.mp hx
    obtain ⟨ls, hls, hsub, -⟩ := hlog i
    have hyi : y ∈ of i log := List.mem_map.mpr ⟨(i, y), by simpa using hy, rfl⟩
    obtain ⟨l, hl, hyl⟩ := List.mem_flatten.mp (hsub.subset hyi)
    obtain ⟨d, hd, hasked⟩ := forall₂_mem hls l hl
    obtain ⟨hfaults, hkind⟩ := asked_calls hasked y hyl
    have hd' : d.1 ∈ calls i := by
      rw [← calls_kept h i, Thread.calls]
      exact List.mem_append_left _ (List.mem_append_left _ (List.mem_map_of_mem hd))
    exact ⟨hkind, fun lost ↦ hfaults ▸ hcommit i d.1 hd' lost⟩
  obtain ⟨rows, htables, hrows⟩ := history_appends hhistory (fun x hx ↦ (hmem x hx).1)
    (fun x hx ↦ (hmem x hx).2)
  refine ⟨log.filterMap (fun x ↦ (added x.2).map (x.1, ·)), rows, fun i ↦ ?_, htables, ?_⟩
  · obtain ⟨ls, hls, -, hfilter⟩ := hlog i
    rw [of_filterMap, ← filterMap_informative, hfilter, filterMap_informative, asked_flatten hls]
  · rw [List.map_filterMap]
    rw [List.filterMap_map] at hrows
    simpa [Function.comp_def] using hrows

omit [Postgres] [Platform] in
theorem records_exactly_once_visited :
    @ExactlyOnce isoDates submissionPlatform (Fin 2) _ opened visited :=
  letI := isoDates
  letI := submissionPlatform
  records_exactly_once (c := visited) rfl
    (by
      intro i x hx
      obtain rfl := List.mem_singleton.mp hx
      exact fun _ ↦ nofun)
    visited_reaches visited_finished

end Records

end ServiceSystem.WebServer
