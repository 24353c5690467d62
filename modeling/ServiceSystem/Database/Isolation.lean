import ServiceSystem.Database.Methods
import ServiceSystem.Foundations.ExclusiveSections

namespace ServiceSystem.Database

open Foundations Program Interleaving

variable [Postgres] {α ρ : Type}

inductive Call
  | testConnection
  | getAllDevices
  | addDevice (device : Device)
  | updateDevice (id : ℤ) (device : Device)
  | deleteDevice (id : ℤ)
  | getAllServiceTypes
  | addServiceType (type : ServiceType)
  | updateServiceType (id : ℤ) (type : ServiceType)
  | deleteServiceType (id : ℤ)
  | getAllServiceRecords
  | addServiceRecord (record : ServiceRecord)
  | updateServiceRecord (id : ℤ) (record : ServiceRecord)
  | deleteServiceRecord (id : ℤ)
  | getDetailedServiceHistory
  deriving DecidableEq

inductive Reply
  | bool (b : Bool)
  | devices (ds : List Device)
  | serviceTypes (ts : List ServiceType)
  | serviceRecords (rs : List ServiceRecord)
  | detailedHistory (rs : List DetailedRecord)
  deriving DecidableEq

def returning (f : α → Reply) (p : Program Op Ans (Outcome α)) : Program Op Ans Reply :=
  p >>= fun o ↦ pure (f o.value)

def code : Call → Program Op Ans Reply
  | .testConnection => returning .bool testConnection
  | .getAllDevices => returning .devices getAllDevices
  | .addDevice device => returning .bool (addDevice device)
  | .updateDevice id device => returning .bool (updateDevice id device)
  | .deleteDevice id => returning .bool (deleteDevice id)
  | .getAllServiceTypes => returning .serviceTypes getAllServiceTypes
  | .addServiceType type => returning .bool (addServiceType type)
  | .updateServiceType id type => returning .bool (updateServiceType id type)
  | .deleteServiceType id => returning .bool (deleteServiceType id)
  | .getAllServiceRecords => returning .serviceRecords getAllServiceRecords
  | .addServiceRecord record => returning .bool (addServiceRecord record)
  | .updateServiceRecord id record => returning .bool (updateServiceRecord id record)
  | .deleteServiceRecord id => returning .bool (deleteServiceRecord id)
  | .getDetailedServiceHistory => returning .detailedHistory getDetailedServiceHistory

/-- The threads of Crow on the one connection; libpqxx makes nobody wait. -/
def system : System Call Op Ans Reply Connection := ⟨code, fun _ _ ↦ True, exec⟩

instance (op : Op) (c : Connection) : Decidable (system.ready op c) :=
  inferInstanceAs (Decidable True)

/-- The next step of thread `i` constructs a `pqxx::work` while another transaction is
registered on the connection. -/
def Clash {ι : Type} (c : Config ι Call Op Ans Reply Connection) (i : ι) : Prop :=
  ∃ j es k, (c.thread i).current = some (j, es, .call .work k) ∧ c.shared.trans = true

abbrev trans (c : Connection) : Bool := c.trans

theorem abandon_critical (status : Status) (f : α → Reply) (onError : α) (e : PqxxError)
    (c : Connection) :
    Critical exec trans (returning f (abandon ⟨true, status⟩ onError e)) c :=
  .inr ⟨destroy_trans c status, f onError, rfl⟩

theorem complete_critical {c : Connection} (h : c.trans = true) (f : α → Reply)
    (returned onError : α) :
    Critical exec trans (returning f (complete ⟨true, .active⟩ returned onError)) c := by
  rcases commit_cases h with ⟨e, status, hr, ht⟩ | ⟨hr, ht⟩
  · refine .inl ⟨ht, ?_⟩
    rw [show (exec (.commit ⟨true, .active⟩) c).1 = (.error e, ⟨true, status⟩) from hr]
    exact abandon_critical status f onError e _
  · refine .inr ⟨ht, f returned, fun s ↦ ?_⟩
    show s.destroy (c.commit ⟨true, .active⟩).1.2 = s ∧
      f (outcome returned onError (c.commit ⟨true, .active⟩).1.1).value = f returned
    rw [hr]
    exact ⟨destroy_committed s, rfl⟩

theorem work_critical {c : Connection} (h : c.trans = false)
    {k : Except PqxxError Work → Program Op Ans ρ} (herror : ∀ e, ∃ r, k (.error e) = .ret r)
    (hok : ∀ c : Connection, c.trans = true → Critical exec trans (k (.ok ⟨true, .active⟩)) c) :
    Critical exec trans (.call .work k) c := by
  rcases work_cases h with ⟨e, hr, ht⟩ | ⟨hr, ht⟩
  · refine .inr ⟨ht, ?_⟩
    rw [show (exec .work c).1 = .error e from hr]
    obtain ⟨r, hk⟩ := herror e
    exact ⟨r, by rw [hk]; rfl⟩
  · refine .inl ⟨ht, ?_⟩
    rw [show (exec .work c).1 = .ok ⟨true, .active⟩ from hr]
    exact hok _ ht

theorem readAll_critical {c : Connection} (h : c.trans = false) (q : Query)
    (ofRow : Row → Except PqxxError α) (f : List α → Reply) :
    Critical exec trans (returning f (readAll q ofRow)) c := by
  refine work_critical h (fun e ↦ ⟨_, rfl⟩) (fun c hc ↦ .inl ?_)
  have ht := (exec_trans c ⟨true, .active⟩ q).trans hc
  refine ⟨ht, ?_⟩
  rw [show exec (.exec ⟨true, .active⟩ q) c = c.exec ⟨true, .active⟩ q from rfl]
  cases (c.exec ⟨true, .active⟩ q).1 with
  | error e => exact abandon_critical .active f [] e _
  | ok rows =>
    simp only [Program.bind]
    rcases convert ofRow rows with ⟨items, _ | e⟩
    · exact complete_critical ht f items items
    · exact abandon_critical .active f items e _

theorem mutate_critical {c : Connection} (h : c.trans = false) (s : Statement) (f : Bool → Reply) :
    Critical exec trans (returning f (mutate s)) c := by
  refine work_critical h (fun e ↦ ⟨_, rfl⟩) (fun c hc ↦ .inl ?_)
  have ht := (exec_params_trans c ⟨true, .active⟩ s).trans hc
  refine ⟨ht, ?_⟩
  rw [show exec (.exec_params ⟨true, .active⟩ s) c = c.exec_params ⟨true, .active⟩ s from rfl]
  cases (c.exec_params ⟨true, .active⟩ s).1 with
  | error e => exact abandon_critical .active f false e _
  | ok u => exact complete_critical ht f true false

theorem testConnection_critical {c : Connection} (h : c.trans = false) (f : Bool → Reply) :
    Critical exec trans (returning f testConnection) c := by
  refine work_critical h (fun e ↦ ⟨_, rfl⟩) (fun c hc ↦ .inl ?_)
  have ht := (exec_trans c ⟨true, .active⟩ .select1).trans hc
  exact ⟨ht, .inr ⟨destroy_trans _ _, _, rfl⟩⟩

theorem code_critical (j : Call) (c : Connection) (h : c.trans = false) :
    Critical exec trans (code j) c := by
  cases j with
  | testConnection => exact testConnection_critical h _
  | getAllDevices | getAllServiceTypes | getAllServiceRecords | getDetailedServiceHistory =>
    exact readAll_critical h _ _ _
  | addDevice | updateDevice | deleteDevice | addServiceType | updateServiceType |
    deleteServiceType | addServiceRecord | updateServiceRecord | deleteServiceRecord =>
    exact mutate_critical h _ _

omit [Postgres] in
theorem code_work (j : Call) : ∃ k, code j = .call .work k := by
  cases j <;> exact ⟨_, rfl⟩

variable {ι : Type} [DecidableEq ι]

/-- As long as no transaction is begun while another one is registered, every call returns
what it would return in some serial order of the calls. -/
theorem serializable_of_no_clash {c₀ : Connection} (hfree : c₀.trans = false)
    {calls : ι → List Call} {c : Config ι Call Op Ans Reply Connection}
    (h : Reaches system (fun c i ↦ ¬ Clash c i) (initial c₀ calls) c) :
    Serializable system c₀ calls c := by
  refine serializable_of_uncontended code_critical hfree
    (h.mono fun c i hc hclash j p hi ↦ ?_)
  obtain ⟨k, hk⟩ := code_work j
  obtain rfl : p = code j := ((fits hc i).current _ _ _ hi).of_nil
  rw [hk] at hi
  cases ht : c.shared.trans with
  | false => rfl
  | true => exact absurd ⟨j, [], k, hi, ht⟩ hclash

instance (c : Config ι Call Op Ans Reply Connection) (i : ι) : Decidable (Clash c i) :=
  match hi : (c.thread i).current with
  | some (j, es, .call .work k) =>
    if ht : c.shared.trans = true then .isTrue ⟨j, es, k, hi, ht⟩
    else .isFalse (fun ⟨_, _, _, _, h⟩ ↦ ht h)
  | some (_, _, .call (.exec ..) _) | some (_, _, .call (.exec_params ..) _)
  | some (_, _, .call (.commit _) _) | some (_, _, .call (.destroy _) _)
  | some (_, _, .ret _) | none => .isFalse (fun ⟨_, _, _, h, _⟩ ↦ by rw [hi] at h; cases h)

omit [DecidableEq ι] in
theorem serial_const {S : System Call Op Ans Reply Connection}
    {c : Connection} {j : Call} {r : Reply}
    (h : (S.code j).run S.exec c = (r, c)) {order : List (ι × Call)} (hj : ∀ x ∈ order, x.2 = j) :
    ∀ x ∈ (serial S order c).1, x.2.2 = r := by
  induction order with
  | nil => exact nofun
  | cons y order ih =>
    obtain ⟨i, j'⟩ := y
    obtain rfl : j' = j := hj (i, j') List.mem_cons_self
    intro x hx
    simp only [serial, h] at hx
    rcases List.mem_cons.mp hx with rfl | hx
    · rfl
    · exact ih (fun x hx ↦ hj x (List.mem_cons_of_mem _ hx)) x hx

def onePrinter : @Connection isoDates :=
  letI := isoDates
  { trans := false
    is_open := true
    session := .idle
    tables := ⟨[⟨1, "Printer".toList, none, none, some "active".toList⟩], [], []⟩
    sequences := ⟨2, 1, 1⟩
    faults := .healthy }

def printer : Device := ⟨1, "Printer".toList, [], [], "active".toList⟩

def readers (_ : Fin 2) : List Call := [.getAllDevices]

def inTurn : Config (Fin 2) Call Op Ans Reply (@Connection isoDates) :=
  letI := isoDates
  (playFrom system (fun c i ↦ ¬ Clash c i) (initial onePrinter readers)
    [0, 0, 0, 0, 0, 0, 1, 1, 1, 1, 1, 1]).2

omit [Postgres] in
theorem serializable_inTurn :
    @Serializable _ _ _ _ _ _ (@system isoDates) _ onePrinter readers inTurn :=
  letI := isoDates
  serializable_of_no_clash rfl ⟨_, playFrom_run (initial onePrinter readers) _⟩

/-- The second thread begins its transaction inside that of the first. -/
def overlapped : Config (Fin 2) Call Op Ans Reply (@Connection isoDates) :=
  letI := isoDates
  (playFrom system anyStep (initial onePrinter readers) [0, 0, 1, 1, 1, 0, 0, 0, 0]).2

omit [Postgres] in
/-- The second reader is answered with an empty list, which no serial order gives it. -/
theorem overlapped_not_serializable :
    letI := isoDates
    Reaches system anyStep (initial onePrinter readers) overlapped ∧
      ¬ Serializable system onePrinter readers overlapped := by
  let _ := isoDates
  refine ⟨⟨_, playFrom_run (initial onePrinter readers) _⟩, ?_⟩
  rintro ⟨order, horder⟩
  have hempty : replies (overlapped.thread 1) = [(.getAllDevices, .devices [])] := by decide
  have hrun : (system.code .getAllDevices).run system.exec onePrinter =
      (.devices [printer], onePrinter) := by decide
  have hcalls : ∀ x ∈ order, x.2 = .getAllDevices := by
    intro x hx
    have hmem : x.2 ∈ of x.1 order := List.mem_map.mpr ⟨x, by simpa using hx, rfl⟩
    exact List.mem_singleton.mp ((horder x.1).1.subset hmem)
  have hreply := (horder 1).2
  rw [hempty] at hreply
  have hmem : (.getAllDevices, .devices []) ∈ of 1 (serial system order onePrinter).1 :=
    hreply.subset List.mem_cons_self
  obtain ⟨x, hx, he⟩ := List.mem_map.mp hmem
  have hr := serial_const hrun hcalls x (List.mem_of_mem_filter hx)
  rw [he] at hr
  exact absurd hr (by decide)

end ServiceSystem.Database
