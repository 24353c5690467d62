import ServiceSystem.Foundations.Conninfo
import ServiceSystem.Foundations.Json

namespace ServiceSystem.WebServer

open Foundations

/-- The entries of `config["database"]`. -/
structure DatabaseConfig where
  host : Str
  port : ℤ
  dbname : Str
  user : Str
  password : Str
  deriving DecidableEq

namespace DatabaseConfig

def fields (c : DatabaseConfig) : List (Str × Str) :=
  [("host".toList, c.host), ("port".toList, Str.ofInt c.port), ("dbname".toList, c.dbname),
    ("user".toList, c.user), ("password".toList, c.password)]

def ReadFrom (c : DatabaseConfig) (config : Json) : Prop :=
  ∃ entries database, config = .object entries ∧
    OrderedMap.lookupIn "database".toList entries = some database ∧
    database.HasField Json.get_string "host".toList c.host ∧
    database.HasField Json.get_int "port".toList c.port ∧
    database.HasField Json.get_string "dbname".toList c.dbname ∧
    database.HasField Json.get_string "user".toList c.user ∧
    database.HasField Json.get_string "password".toList c.password

def NulFree (c : DatabaseConfig) : Prop := ∀ v ∈ [c.host, c.dbname, c.user, c.password], '\x00' ∉ v

/-- No value ends early, reads otherwise than written or swallows what follows it. -/
structure Plain (c : DatabaseConfig) : Prop where
  host : c.host ≠ []
  dbname : c.dbname ≠ []
  user : c.user ≠ []
  clean : ∀ v ∈ [c.host, c.dbname, c.user, c.password], Conninfo.CleanValue v

end DatabaseConfig

/-- The connection string that the constructor of `WebServer` makes. -/
def connStr (config : Json) : Except Str Str := do
  let database := config.get "database".toList
  let host ← database >>= (·.get "host".toList) >>= Json.get_string
  let port ← database >>= (·.get "port".toList) >>= Json.get_int
  let dbname ← database >>= (·.get "dbname".toList) >>= Json.get_string
  let user ← database >>= (·.get "user".toList) >>= Json.get_string
  let password ← database >>= (·.get "password".toList) >>= Json.get_string
  .ok ("host=".toList ++ host ++ [' '] ++ "port=".toList ++ Str.ofInt port ++ [' '] ++
    "dbname=".toList ++ dbname ++ [' '] ++ "user=".toList ++ user ++ [' '] ++
    "password=".toList ++ password)

/-- What libpq gets to see of a string that is handed over by `c_str()`. -/
def cString (s : Str) : Str := s.takeWhile (· ≠ '\x00')

namespace DatabaseConfig

variable {c : DatabaseConfig} {config : Json}

theorem connStr_eq (h : c.ReadFrom config) : connStr config = .ok (Conninfo.print c.fields) := by
  obtain ⟨entries, database, rfl, hdb, hhost, hport, hname, huser, hpassword⟩ := h
  have hdatabase : (Json.object entries).get "database".toList = .ok database := by
    rw [Json.get, hdb, Option.getD_some]
  have hfield {α : Type} {as : Json → Except Str α} {key : Str} {a : α}
      (hf : database.HasField as key a) :
      ((Json.object entries).get "database".toList >>= (·.get key) >>= as) = .ok a := by
    obtain ⟨es, v, rfl, hv, ha⟩ := hf
    rw [hdatabase]
    change ((Json.object es).get key >>= as) = .ok a
    rw [Json.get, hv, Option.getD_some]
    exact ha
  simp only [connStr, hfield hhost, hfield hport, hfield hname, hfield huser, hfield hpassword]
  simp [fields, Conninfo.print, bind, Except.bind]

theorem cleanValue_ofInt (n : ℤ) : Conninfo.CleanValue (Str.ofInt n) := by
  have hchar {c : Char} (h : c ∈ Str.ofInt n) :
      Conninfo.isSpace c = false ∧ c ≠ '\\' ∧ c ≠ '\'' := by
    rcases Str.mem_ofInt h with hd | rfl
    · refine ⟨?_, ?_, ?_⟩
      · by_contra hs
        rw [Bool.not_eq_false, Conninfo.isSpace, decide_eq_true_eq] at hs
        have hspaces : ∀ d ∈ [' ', '\t', '\n', '\x0b', '\x0c', '\r'], d.isDigit = false := by
          decide
        rw [hspaces c hs] at hd
        cases hd
      · rintro rfl
        revert hd
        decide
      · rintro rfl
        revert hd
        decide
    · decide
  refine ⟨fun c hc ↦ ⟨(hchar hc).1, (hchar hc).2.1⟩, fun hq ↦ ?_⟩
  exact (hchar (List.mem_of_mem_head? hq)).2.2 rfl

theorem nul_notMem_print (h : c.NulFree) : '\x00' ∉ Conninfo.print c.fields := by
  have hport : '\x00' ∉ Str.ofInt c.port := by
    intro hmem
    rcases Str.mem_ofInt hmem with hd | hd
    · revert hd
      decide
    · revert hd
      decide
  simp only [NulFree, List.mem_cons, List.not_mem_nil, or_false, forall_eq_or_imp, forall_eq] at h
  obtain ⟨hhost, hname, huser, hpassword⟩ := h
  simp [fields, Conninfo.print, hhost, hport, hname, huser, hpassword]

theorem plain_iff : c.Plain ↔ (∀ p ∈ c.fields, Conninfo.CleanValue p.2) ∧
    ∀ p ∈ c.fields.dropLast, p.2 ≠ [] := by
  have hport := cleanValue_ofInt c.port
  have hnil := Str.ofInt_ne_nil c.port
  have hlast : c.fields.dropLast = [("host".toList, c.host), ("port".toList, Str.ofInt c.port),
    ("dbname".toList, c.dbname), ("user".toList, c.user)] := rfl
  rw [hlast]
  constructor
  · rintro ⟨hhost, hname, huser, hclean⟩
    simp_all [fields]
  · rintro ⟨hclean, hne⟩
    constructor <;> simp_all [fields]

end DatabaseConfig

theorem connStr_readsBack_iff {config : Json} {c : DatabaseConfig} (h : c.ReadFrom config)
    (hnul : c.NulFree) : ∃ s, connStr config = .ok s ∧
      (Conninfo.ReadsBack (cString s) c.fields ↔ c.Plain) := by
  have hkeys : ∀ p ∈ c.fields, Conninfo.CleanKey p.1 := by
    simp only [DatabaseConfig.fields, List.mem_cons, List.not_mem_nil, or_false, forall_eq_or_imp,
      forall_eq, Conninfo.CleanKey]
    decide
  have hn : (c.fields.map Prod.fst).Nodup := by
    simp only [DatabaseConfig.fields, List.map_cons, List.map_nil]
    decide
  have hc : cString (Conninfo.print c.fields) = Conninfo.print c.fields := by
    refine List.takeWhile_eq_self_iff.mpr (fun d hd ↦ decide_eq_true ?_)
    rintro rfl
    exact DatabaseConfig.nul_notMem_print hnul hd
  refine ⟨_, DatabaseConfig.connStr_eq h, ?_⟩
  rw [hc, DatabaseConfig.plain_iff]
  exact Conninfo.print_readsBack_iff (List.cons_ne_nil _ _) hkeys hn

/-- The configuration file with these entries. -/
def DatabaseConfig.file (c : DatabaseConfig) : Json :=
  .ofEntries [("database".toList, .ofEntries [("host".toList, .string c.host),
    ("port".toList, .number_integer c.port), ("dbname".toList, .string c.dbname),
    ("user".toList, .string c.user), ("password".toList, .string c.password)])]

theorem DatabaseConfig.readFrom_file (c : DatabaseConfig) (h : Json.wrap c.port = c.port) :
    c.ReadFrom c.file := by
  have hport : Json.get_int (.number_integer c.port) = .ok c.port := congrArg Except.ok h
  exact ⟨_, _, rfl, rfl, ⟨_, _, rfl, rfl, rfl⟩, ⟨_, _, rfl, rfl, hport⟩, ⟨_, _, rfl, rfl, rfl⟩,
    ⟨_, _, rfl, rfl, rfl⟩, ⟨_, _, rfl, rfl, rfl⟩⟩

def productionConfig : DatabaseConfig :=
  ⟨"db".toList, 5432, "car_service_db".toList, "postgres".toList, "postgres".toList⟩

theorem connStr_readsBack_production : productionConfig.ReadFrom productionConfig.file ∧
    productionConfig.NulFree ∧ ∃ s, connStr productionConfig.file = .ok s ∧
      Conninfo.ReadsBack (cString s) productionConfig.fields := by
  have hread := productionConfig.readFrom_file (by decide)
  have hnul : productionConfig.NulFree := by
    unfold DatabaseConfig.NulFree
    decide
  obtain ⟨s, hs, hiff⟩ := connStr_readsBack_iff hread hnul
  exact ⟨hread, hnul, s, hs, hiff.mpr ⟨by decide, by decide, by decide, by decide⟩⟩

/-- Without a user the keyword after it becomes the user's name. -/
def noUser : DatabaseConfig :=
  ⟨"db".toList, 5432, "car_service_db".toList, [], "postgres".toList⟩

theorem noUser_not_readsBack : noUser.ReadFrom noUser.file ∧ noUser.NulFree ∧
    ∃ s, connStr noUser.file = .ok s ∧ ¬ Conninfo.ReadsBack (cString s) noUser.fields := by
  have hread := noUser.readFrom_file (by decide)
  refine ⟨hread, ?_, _, DatabaseConfig.connStr_eq hread, ?_⟩
  · unfold DatabaseConfig.NulFree
    decide
  · have hc : cString (Conninfo.print noUser.fields) = Conninfo.print noUser.fields := by
      decide +kernel
    rw [hc, Conninfo.print_readsBack_iff (by decide) (by unfold Conninfo.CleanKey; decide)
      (by decide)]
    intro h
    exact h.2 ("user".toList, []) (by decide) rfl

end ServiceSystem.WebServer
