import ServiceSystem.Database.Integrity

namespace ServiceSystem.Database

open Foundations Program

def initDevices : List Device :=
  [⟨0, "Printer HP LaserJet".toList, "HP LaserJet Pro".toList, "2023-01-15".toList,
      "active".toList⟩,
    ⟨0, "Server Dell".toList, "PowerEdge R740".toList, "2022-06-10".toList, "active".toList⟩,
    ⟨0, "Router Cisco".toList, "Cisco 2901".toList, "2021-03-20".toList, "maintenance".toList⟩,
    ⟨0, "Workstation Dell".toList, "OptiPlex 7090".toList, "2023-02-28".toList, "active".toList⟩,
    ⟨0, "UPS APC".toList, "Smart-UPS 1500".toList, "2022-11-05".toList, "active".toList⟩]

def initServiceTypes : List ServiceType :=
  [⟨0, Str.utf8 "Замена тонера", 6, 50⟩, ⟨0, Str.utf8 "Чистка и смазка", 12, 100⟩,
    ⟨0, Str.utf8 "Замена HDD", 36, 150⟩, ⟨0, Str.utf8 "Обновление прошивки", 12, 75⟩,
    ⟨0, Str.utf8 "Проверка состояния", 3, 30⟩]

def initServiceRecords : List ServiceRecord :=
  [⟨0, 1, 1, "2023-07-15".toList, 50, Str.utf8 "Замена тонера TN-1030", "2024-01-15".toList⟩,
    ⟨0, 1, 2, "2023-01-15".toList, 100, Str.utf8 "Полная чистка", "2024-01-15".toList⟩,
    ⟨0, 2, 4, "2023-06-10".toList, 75, Str.utf8 "Обновление BIOS", "2024-06-10".toList⟩,
    ⟨0, 3, 5, "2023-09-20".toList, 30, Str.utf8 "Проверка конфигурации", "2023-12-20".toList⟩,
    ⟨0, 4, 5, "2023-08-28".toList, 30, Str.utf8 "Проверка системы", "2023-11-28".toList⟩,
    ⟨0, 5, 2, "2023-05-05".toList, 100, Str.utf8 "Замена батарей", "2024-05-05".toList⟩]

/-- The insertions of docker/init.sql, row by row. -/
def initSql : List Statement :=
  initDevices.map .insertDevice ++ initServiceTypes.map .insertServiceType ++
    initServiceRecords.map .insertServiceRecord

variable [Postgres]

def transact (st : Tables × Sequences) (s : Statement) : Tables × Sequences :=
  match execute st.1 st.2 s with
  | (.ok t, q) => (t, q)
  | (.error _, q) => (st.1, q)

def initialized : Tables × Sequences := initSql.foldl transact (⟨[], [], []⟩, ⟨1, 1, 1⟩)

def connect (st : Tables × Sequences) : Connection := ⟨false, true, .idle, st.1, st.2, .healthy⟩

def operate (c : Connection) (op : Faults × Statement) : Connection :=
  ((writer op.2).run exec { c with faults := op.1 }).2

/-- What any sequence of such calls makes of the database, whatever goes wrong with them. -/
def reached (ops : List (Faults × Statement)) : Connection :=
  ops.foldl operate (connect initialized)

theorem Integrity.empty : Integrity ⟨[], [], []⟩ :=
  ⟨.nil, .nil, .nil, nofun, nofun⟩

theorem Integrity.transact {st : Tables × Sequences} (h : Integrity st.1) (s : Statement) :
    Integrity (Database.transact st s).1 := by
  unfold Database.transact
  split
  · rename_i t q hx
    exact h.execute (congrArg Prod.fst hx)
  · exact h

theorem integrity_initialized : Integrity initialized.1 :=
  List.foldlRecOn (motive := fun st : Tables × Sequences ↦ Integrity st.1) initSql _ .empty
    (fun _ h s _ ↦ h.transact s)

theorem integrity_reached (ops : List (Faults × Statement)) : Integrity (reached ops).tables :=
  List.foldlRecOn (motive := fun c : Connection ↦ Integrity c.tables) ops _ integrity_initialized
    (fun c h op _ ↦ Integrity.writer (c := { c with faults := op.1 }) h op.2)

end ServiceSystem.Database
