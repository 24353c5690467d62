import ServiceSystem.Logging.Framing
import Mathlib.Data.List.Induction

namespace ServiceSystem.Logging

open Foundations

def Call.initPath : Call → Option Str
  | .init filepath _ | .initWithLoki filepath _ _ _ => some filepath
  | _ => none

/-- The file named by the most recent initialization. -/
def named (calls : List (Moment × Call)) : Str :=
  calls.foldl (fun path mc ↦ mc.2.initPath.getD path) Logger.new.logFilePath

def afterCalls (calls : List (Moment × Call)) (s : Sinks) : Logger × Sinks :=
  performAll calls (Logger.new, s)

/-- Some initialization has met a log file that was open already. -/
def Reopened (calls : List (Moment × Call)) (s : Sinks) : Prop :=
  ∃ before mc after, calls = before ++ mc :: after ∧ mc.2.initPath.isSome ∧
    (afterCalls before s).1.logFile.is_open = true

def Wanted (l : Logger) (call : LogCall) : Prop :=
  l.minLevel.toNat ≤ call.level.toNat ∧ l.fileEnabled = true

/-- The record goes to the file with that name, once, and to no other file. -/
def Appends (st : Logger × Sinks) (m : Moment) (call : LogCall) (path : Str) : Prop :=
  (perform m (.log call) st).2.files =
    Function.update st.2.files path
      (st.2.files path ++ (Logger.entry m call.level call.message ++ ['\n']))

/-- What the log file is like, before and after it has been opened twice. -/
structure SinkState (l : Logger) (path : Str) (reopened : Prop) : Prop where
  named : l.logFilePath = path
  enabled : l.fileEnabled = true → l.logFile.is_open = true
  sound : ¬ reopened → ∀ p, l.logFile.path = some p → p = path ∧ l.logFile.failbit = false
  dead : reopened → l.logFile.is_open = true ∧ l.logFile.failbit = true

theorem afterCalls_concat (calls : List (Moment × Call)) (mc : Moment × Call) (s : Sinks) :
    afterCalls (calls ++ [mc]) s = perform mc.1 mc.2 (afterCalls calls s) := by
  simp [afterCalls, performAll]

theorem named_concat (calls : List (Moment × Call)) (mc : Moment × Call) :
    named (calls ++ [mc]) = mc.2.initPath.getD (named calls) := by
  simp [named]

theorem reopened_concat {calls : List (Moment × Call)} {mc : Moment × Call} {s : Sinks} :
    Reopened (calls ++ [mc]) s ↔ Reopened calls s ∨
      mc.2.initPath.isSome ∧ (afterCalls calls s).1.logFile.is_open = true := by
  constructor
  · rintro ⟨before, mc', after, h, hinit, hopen⟩
    rcases List.eq_nil_or_concat after with rfl | ⟨after, mc'', rfl⟩
    · obtain ⟨rfl, hmc⟩ := List.append_inj' h rfl
      obtain rfl := List.singleton_inj.mp hmc
      exact .inr ⟨hinit, hopen⟩
    · rw [List.concat_eq_append, ← List.cons_append, ← List.append_assoc] at h
      obtain ⟨rfl, -⟩ := List.append_inj' h rfl
      exact .inl ⟨before, mc', after, rfl, hinit, hopen⟩
  · rintro (⟨before, mc', after, rfl, hinit, hopen⟩ | ⟨hinit, hopen⟩)
    · exact ⟨before, mc', after ++ [mc], by simp, hinit, hopen⟩
    · exact ⟨calls, mc, [], rfl, hinit, hopen⟩

namespace SinkState

variable {l : Logger} {path : Str} {reopened : Prop}

theorem ofClosed {filepath : Str} (opens : Bool) (hfile : l.logFile =
      if opens then ⟨some filepath, false⟩ else ⟨none, true⟩)
    (hpath : l.logFilePath = filepath) (henabled : l.fileEnabled = l.logFile.is_open)
    (hr : ¬ reopened) : SinkState l filepath reopened := by
  refine ⟨hpath, fun he ↦ henabled ▸ he, fun _ p hp ↦ ?_, fun h ↦ absurd h hr⟩
  rw [hfile] at hp ⊢
  cases opens with
  | true => exact ⟨(Option.some.inj hp).symm, rfl⟩
  | false => cases hp

theorem init (h : SinkState l path reopened) (m : Moment) (filepath : Str) (level : LogLevel) :
    SinkState (l.init m filepath level) filepath (reopened ∨ l.logFile.is_open = true) := by
  obtain ⟨⟨opened, failbit⟩, _, _, _, _, _, _, _, _⟩ := l
  cases opened with
  | some p => exact ⟨rfl, fun _ ↦ rfl, fun hno ↦ absurd (.inr rfl) hno, fun _ ↦ ⟨rfl, rfl⟩⟩
  | none =>
    refine ofClosed m.opens rfl rfl rfl ?_
    rintro (hr | hopen)
    · exact absurd (h.dead hr).1 Bool.false_ne_true
    · cases hopen

theorem enableFile (h : SinkState l path reopened) (m : Moment) (enabled : Bool) :
    SinkState (l.enableFile m enabled) path reopened := by
  obtain ⟨⟨opened, failbit⟩, minLevel, _, _, _, logFilePath, _, _, _⟩ := l
  obtain rfl : logFilePath = path := h.named
  cases opened with
  | some p =>
    simp only [Logger.enableFile, OFStream.is_open, Option.isSome_some, Bool.not_true,
      Bool.and_false]
    exact ⟨rfl, fun _ ↦ rfl, h.sound, h.dead⟩
  | none =>
    have hclosed : ¬ reopened := fun hr ↦ absurd (h.dead hr).1 Bool.false_ne_true
    cases enabled with
    | false => exact ⟨rfl, fun he ↦ absurd he Bool.false_ne_true, h.sound, h.dead⟩
    | true => exact ofClosed m.opens rfl rfl rfl hclosed

theorem perform {s : Sinks} (h : SinkState l path reopened) (m : Moment) (c : Call) :
    SinkState (Logging.perform m c (l, s)).1 (c.initPath.getD path)
      (reopened ∨ c.initPath.isSome ∧ l.logFile.is_open = true) := by
  have hkeep : ∀ {l' : Logger}, SinkState l' path reopened →
      SinkState l' path (reopened ∨ (none : Option Str).isSome ∧ l.logFile.is_open = true) := by
    intro l' hl
    simpa using hl
  have hopen : ∀ filepath : Str, (reopened ∨ (some filepath).isSome ∧ l.logFile.is_open = true) =
      (reopened ∨ l.logFile.is_open = true) := fun _ ↦ by simp
  cases c with
  | init filepath level =>
    rw [Call.initPath, hopen]
    exact h.init m filepath level
  | initWithLoki filepath level host port =>
    rw [Call.initPath, hopen]
    obtain ⟨hnamed, henabled, hsound, hdead⟩ := h.init m filepath level
    exact ⟨hnamed, henabled, hsound, hdead⟩
  | enableFile enabled => exact hkeep (h.enableFile m enabled)
  | setLevel level => exact hkeep ⟨h.named, h.enabled, h.sound, h.dead⟩
  | enableConsole enabled => exact hkeep ⟨h.named, h.enabled, h.sound, h.dead⟩
  | setServiceName name => exact hkeep ⟨h.named, h.enabled, h.sound, h.dead⟩
  | log call => exact hkeep h

end SinkState

theorem sinkState (calls : List (Moment × Call)) (s : Sinks) :
    SinkState (afterCalls calls s).1 (named calls) (Reopened calls s) := by
  induction calls using List.reverseRecOn with
  | nil =>
    have hno : ¬ Reopened [] s := by
      rintro ⟨before, mc, after, h, -⟩
      simp at h
    exact ⟨rfl, nofun, fun _ _ ↦ nofun, fun h ↦ absurd h hno⟩
  | append_singleton calls mc ih =>
    rw [afterCalls_concat, named_concat, reopened_concat]
    exact ih.perform mc.1 mc.2

/-- A record that the file has to get, it gets just in case the file has not been opened twice. -/
theorem appends_iff {l : Logger} {s : Sinks} {path : Str} {reopened : Prop}
    (h : SinkState l path reopened) {m : Moment} {call : LogCall} (hw : Wanted l call) :
    Appends (l, s) m call path ↔ ¬ reopened := by
  obtain ⟨hlevel, henabled⟩ := hw
  have hopen := h.enabled henabled
  obtain ⟨p, hp⟩ := Option.isSome_iff_exists.mp hopen
  have hhanded : handed l m (.log call) = [⟨m, call.level, call.message, l.logFile.failbit⟩] := by
    simp [handed, Nat.not_lt.mpr hlevel, henabled, hopen]
  have hfiles := write_files l m call s
  rw [hp, hhanded] at hfiles
  rw [Appends, hfiles]
  constructor
  · intro heq hr
    have hdead := (h.dead hr).2
    have hat := congrFun heq path
    simp only [delivered, hdead, Bool.not_true, List.filter_cons_of_neg, Bool.false_eq_true,
      not_false_eq_true, List.filter_nil, List.flatMap_nil, List.append_nil,
      Function.update_eq_self, Function.update_self] at hat
    simp at hat
  · intro hr
    obtain ⟨rfl, hfail⟩ := h.sound hr p hp
    simp [delivered, hfail, Handed.line]

def NeverSilent (calls : List (Moment × Call)) (s : Sinks) : Prop :=
  ∀ before m call after, calls = before ++ (m, .log call) :: after →
    Wanted (afterCalls before s).1 call → Appends (afterCalls before s) m call (named before)

/-- The file sink works just in case no record that the file has to get comes after an
initialization that has met an open log file. -/
theorem neverSilent_iff (calls : List (Moment × Call)) (s : Sinks) :
    NeverSilent calls s ↔ ∀ before m call after, calls = before ++ (m, .log call) :: after →
      Wanted (afterCalls before s).1 call → ¬ Reopened before s := by
  refine forall₄_congr fun before m call after ↦ forall₂_congr fun _ hw ↦ ?_
  exact appends_iff (sinkState before s) hw

def initTwice : List (Moment × Call) :=
  [(⟨newYear, true⟩, .init "logs/a.log".toList .DEBUG),
    (⟨newYear, true⟩, .init "logs/b.log".toList .DEBUG),
    (⟨newYear, true⟩, .log (.plain .INFO "started".toList))]

theorem initTwice_silent : ¬ ∀ (calls : List (Moment × Call)) (s : Sinks), NeverSilent calls s := by
  intro h
  let s : Sinks := ⟨[], [], fun _ ↦ [], []⟩
  have happends := h initTwice s (initTwice.take 2) ⟨newYear, true⟩
    (.plain .INFO "started".toList) []
    rfl ⟨by decide, rfl⟩
  have hb := congrFun happends "logs/b.log".toList
  revert hb
  decide +kernel

end ServiceSystem.Logging
