import ServiceSystem.Logging.Loki
import ServiceSystem.Nlohmann.Prefix
import ServiceSystem.WebServer.Ids

namespace ServiceSystem.WebServer

open Foundations Logging Metrics

/-- A login body with a hole for what stands between the quotation marks of the password. -/
structure Template where
  before : Str
  letters : List Str
  blanks : Str
  blanks' : Str
  rest : Str
  letters_spell : List.Forall₂ Nlohmann.Spells "password".toList letters
  blanks_whitespace : ∀ c ∈ blanks ++ blanks', Nlohmann.Lexer.isWhitespace c = true

namespace Template

def head (t : Template) : Str := t.before ++ Nlohmann.nameText t.letters t.blanks t.blanks'

def body (t : Template) (password : Str) : Str := t.head ++ ('"' :: password ++ '"' :: t.rest)

end Template

/-- The status that the client gets; Crow answers an exception with 500. -/
def status : Except Str Response → ℤ
  | .ok res => res.code
  | .error _ => 500

/-- The logger and its sinks after the calls that have been made, all at one time. -/
def recorded (m : Moment) (start : Logger × Sinks) (es : List Event) : Logger × Sinks :=
  performAll (es.filterMap fun
    | .log call => some (m, .log call)
    | .metric _ => none) start

/-- What can be seen of two requests is the same: the replies, the metrics, the lines of the log and
the payloads that are pushed to Loki. -/
structure Indistinct {δ : Type} (m : Moment) (start : Logger × Sinks)
    (x y : Exchange δ) : Prop where
  reply : x.reply = y.reply
  metrics : x.after.metrics = y.after.metrics
  cout : (recorded m start x.events).2.cout = (recorded m start y.events).2.cout
  cerr : (recorded m start x.events).2.cerr = (recorded m start y.events).2.cerr
  files : (recorded m start x.events).2.files = (recorded m start y.events).2.files
  loki : (recorded m start x.events).2.loki.map (start.1.jsonPayload m.clock) =
    (recorded m start y.events).2.loki.map (start.1.jsonPayload m.clock)

/-- What a login request finds around it. -/
structure Scene (δ : Type) where
  order : IterationOrder
  readFile : Str → Option Str
  ip : Str
  clock : Clock
  world : World δ
  moment : Moment
  logger : Logger × Sinks

variable {δ : Type}

theorem Indistinct.of_eq {m : Moment} {start : Logger × Sinks} {x y : Exchange δ}
    (hreply : x.reply = y.reply) (hafter : x.after = y.after) : Indistinct m start x y := by
  have hevents : x.events = y.events := congrArg World.events hafter
  exact ⟨hreply, congrArg World.metrics hafter, by rw [hevents], by rw [hevents], by rw [hevents],
    by rw [hevents]⟩

theorem login_congr [Platform] {clock : Clock} {req req' : Request}
    (hip : clientIp req = clientIp req')
    (hparse : Platform.parse req.body = Platform.parse req'.body) :
    (login clock req : Handler δ Response) = login clock req' := by
  unfold login
  rw [hip, hparse]

theorem failureJson_injective : Function.Injective failureJson := by
  intro what what' h
  rw [failureJson_eq, failureJson_eq] at h
  injection h with h
  injection h with h
  injection h with _ h
  injection h

theorem login_unparsed [Platform] {clock : Clock} {req : Request} {what : Str}
    (h : Platform.parse req.body = .error what) (hvalid : Utf8.Valid what) (w : World δ) :
    (login clock req w).1 = .ok (.json 400 (failureJson what)) := by
  rw [login_error (by rw [h]; rfl), respond_valid (failureJson_valid hvalid)]

theorem parse_newline {t : Template} (h : ¬ Nlohmann.Settled t.head) :
    ∃ l, ∀ c, c = 'a' ∨ c = 'b' →
      Nlohmann.parse (t.body [c, '\n']) = .error (Nlohmann.newlineError l c) := by
  obtain ⟨hblanks, hblanks'⟩ := List.forall_mem_append.mp t.blanks_whitespace
  cases hafter : Nlohmann.after t.head with
  | stopped result => exact absurd ⟨result, hafter⟩ h
  | running p =>
    obtain ⟨hscan, hvalue⟩ := Nlohmann.after_name t.letters_spell hblanks hblanks' hafter
    obtain ⟨l, hl⟩ := Nlohmann.feed_newline hscan hvalue
    refine ⟨l, fun c hc ↦ ?_⟩
    have hbody : t.body [c, '\n'] = (t.head ++ ['"', c, '\n']) ++ ('"' :: t.rest) := by
      simp [Template.body]
    rw [hbody]
    refine Nlohmann.parse_append ?_
    rw [Nlohmann.after, List.foldl_append]
    rw [Nlohmann.after] at hafter
    rw [hafter]
    exact hl c hc

variable [DatabaseApi δ]

def Scene.send (s : Scene δ) (t : Template) (password : Str) : Exchange δ :=
  letI := Platform.nlohmann s.order s.readFile
  exchange s.world ⟨.api .login, ⟨s.ip, t.body password⟩, s.clock⟩

/-- Two passwords that are turned down with one status cannot be told apart. -/
def Scene.Confidential (s : Scene δ) (t : Template) : Prop :=
  ∀ password password', status (s.send t password).reply = status (s.send t password').reply →
    status (s.send t password).reply ≠ 200 →
      Indistinct s.moment s.logger (s.send t password) (s.send t password')

theorem settled_of_confidential {s : Scene δ} {t : Template} (h : s.Confidential t) :
    Nlohmann.Settled t.head := by
  let _ := Platform.nlohmann s.order s.readFile
  by_contra hsettled
  obtain ⟨l, hl⟩ := parse_newline hsettled
  have hreply : ∀ c, c = 'a' ∨ c = 'b' → (s.send t [c, '\n']).reply =
      .ok (.json 400 (failureJson (Nlohmann.newlineError l c))) := by
    intro c hc
    have hascii : c.toNat < 0x80 := by rcases hc with rfl | rfl <;> decide
    exact login_unparsed (hl c hc) (Utf8.valid_of_ascii (Nlohmann.newlineError_ascii l hascii)) _
  have ha := hreply 'a' (.inl rfl)
  have hb := hreply 'b' (.inr rfl)
  have hcode : status (s.send t ['a', '\n']).reply = 400 := by rw [ha]; rfl
  have hsame := (h ['a', '\n'] ['b', '\n'] (by rw [hcode, hb]; rfl) (by rw [hcode]; decide)).reply
  rw [ha, hb, Except.ok.injEq] at hsame
  have hjson := failureJson_injective (Body.json.inj (congrArg Response.body hsame))
  exact absurd (Nlohmann.newlineError_injective l hjson) (by decide)

def loginTemplate : Template where
  before := "\x7b\"username\":\"admin\",".toList
  letters := "password".toList.map ([·])
  blanks := []
  blanks' := []
  rest := "\x7d".toList
  letters_spell := List.forall₂_map_right_iff.mpr (List.forall₂_same.mpr fun _ _ ↦ .self)
  blanks_whitespace := by simp

end ServiceSystem.WebServer
