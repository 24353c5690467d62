import ServiceSystem.Logging.FileSink

namespace ServiceSystem.Logging

open Foundations

namespace Call

def levelSet : Call → Option LogLevel
  | .init _ level | .initWithLoki _ level _ _ | .setLevel level => some level
  | _ => none

def lokiSet : Call → Option Bool
  | .init .. => some false
  | .initWithLoki .. => some true
  | _ => none

end Call

/-- The level set by the most recent call that sets one. -/
def levelAt (calls : List (Moment × Call)) : LogLevel :=
  calls.foldl (fun level mc ↦ mc.2.levelSet.getD level) Logger.new.minLevel

/-- Whether the most recent initialization was one with Loki. -/
def lokiAt (calls : List (Moment × Call)) : Bool :=
  calls.foldl (fun enabled mc ↦ mc.2.lokiSet.getD enabled) Logger.new.lokiFormatEnabled

theorem levelAt_concat (calls : List (Moment × Call)) (mc : Moment × Call) :
    levelAt (calls ++ [mc]) = mc.2.levelSet.getD (levelAt calls) := by
  simp [levelAt]

theorem lokiAt_concat (calls : List (Moment × Call)) (mc : Moment × Call) :
    lokiAt (calls ++ [mc]) = mc.2.lokiSet.getD (lokiAt calls) := by
  simp [lokiAt]

theorem perform_settings (m : Moment) (c : Call) (st : Logger × Sinks) :
    (perform m c st).1.minLevel = c.levelSet.getD st.1.minLevel ∧
      (perform m c st).1.lokiFormatEnabled = c.lokiSet.getD st.1.lokiFormatEnabled := by
  obtain ⟨l, s⟩ := st
  cases c with
  | enableFile enabled =>
    simp only [perform, Logger.enableFile, Call.levelSet, Call.lokiSet, Option.getD_none]
    split_ifs <;> exact ⟨rfl, rfl⟩
  | init filepath level => exact ⟨rfl, rfl⟩
  | initWithLoki filepath level host port => exact ⟨rfl, rfl⟩
  | setLevel level => exact ⟨rfl, rfl⟩
  | enableConsole enabled => exact ⟨rfl, rfl⟩
  | setServiceName name => exact ⟨rfl, rfl⟩
  | log call => exact ⟨rfl, rfl⟩

theorem afterCalls_settings (calls : List (Moment × Call)) (s : Sinks) :
    (afterCalls calls s).1.minLevel = levelAt calls ∧
      (afterCalls calls s).1.lokiFormatEnabled = lokiAt calls := by
  induction calls using List.reverseRecOn with
  | nil => exact ⟨rfl, rfl⟩
  | append_singleton calls mc ih =>
    obtain ⟨hlevel, hloki⟩ := ih
    obtain ⟨hlevel', hloki'⟩ := perform_settings mc.1 mc.2 (afterCalls calls s)
    rw [afterCalls_concat, hlevel', hloki', levelAt_concat, lokiAt_concat, hlevel, hloki]
    exact ⟨rfl, rfl⟩

/-- The call reaches no sink: not the console, not a file, not Loki. -/
def Suppressed (st : Logger × Sinks) (m : Moment) (call : LogCall) : Prop :=
  (perform m (.log call) st).2 = st.2

/-- The level is looked at by `write` and by nothing else, so a record below it is kept back
just in case it has no push to Loki to make. -/
theorem suppressed_iff {st : Logger × Sinks} {call : LogCall} (m : Moment)
    (h : call.level.toNat < st.1.minLevel.toNat) :
    Suppressed st m call ↔ (call.push.isSome → st.1.lokiFormatEnabled = false) := by
  obtain ⟨l, s⟩ := st
  have hwrite : l.write m call.level call.message s = s := if_pos h
  rw [Suppressed, perform, hwrite]
  cases hpush : call.push with
  | none => simp
  | some p =>
    simp only [Logger.sendToLoki, Option.isSome_some, true_imp_iff]
    split_ifs with hloki
    · simp only [hloki, Bool.true_eq_false, iff_false]
      intro hs
      have hlength := congrArg (fun s : Sinks ↦ s.loki.length) hs
      simp at hlength
    · simp [hloki]

def LevelFiltered (calls : List (Moment × Call)) (s : Sinks) : Prop :=
  ∀ before m call after, calls = before ++ (m, .log call) :: after →
    call.level.toNat < (afterCalls before s).1.minLevel.toNat →
      Suppressed (afterCalls before s) m call

theorem levelFiltered_iff (calls : List (Moment × Call)) (s : Sinks) :
    LevelFiltered calls s ↔ ∀ before m call after, calls = before ++ (m, .log call) :: after →
      call.push.isSome → lokiAt before = true → (levelAt before).toNat ≤ call.level.toNat := by
  refine forall₄_congr fun before m call after ↦ forall_congr' fun _ ↦ ?_
  obtain ⟨hlevel, hloki⟩ := afterCalls_settings before s
  rw [← hlevel, ← hloki]
  constructor
  · intro h hpush henabled
    by_contra hlt
    have hoff := (suppressed_iff m (not_le.mp hlt)).mp (h (not_le.mp hlt)) hpush
    rw [henabled] at hoff
    cases hoff
  · intro h hlt
    refine (suppressed_iff m hlt).mpr fun hpush ↦ ?_
    by_contra henabled
    exact absurd (h hpush (Bool.eq_true_of_not_eq_false henabled)) (not_le.mpr hlt)

def quietStart : List (Moment × Call) :=
  [(⟨newYear, true⟩, .initWithLoki "logs/app.log".toList .ERROR "loki".toList 3100),
    (⟨newYear, true⟩, .log (.logLifecycle "startup".toList []))]

theorem quietStart_pushed : ¬ ∀ (calls : List (Moment × Call)) (s : Sinks),
    LevelFiltered calls s := by
  intro h
  let s : Sinks := ⟨[], [], fun _ ↦ [], []⟩
  have hs := h quietStart s (quietStart.take 1) ⟨newYear, true⟩ (.logLifecycle "startup".toList [])
    [] rfl (by decide)
  have hloki := congrArg Sinks.loki hs
  revert hloki
  decide +kernel

end ServiceSystem.Logging
