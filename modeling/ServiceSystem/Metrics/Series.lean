import ServiceSystem.Foundations.OrderedMap
import ServiceSystem.Foundations.Exposition
import Mathlib.Data.Char
import Mathlib.Data.List.Lex
import Mathlib.Data.Prod.Lex

namespace ServiceSystem.Metrics

open Foundations

/-- `struct Labels` of metrics.h: a `std::map` from label names to label values. -/
structure Labels where
  labels : OrderedMap Str Str
  deriving DecidableEq

namespace Labels

def empty : Labels := ⟨.empty⟩

def ofList (pairs : List (Str × Str)) : Labels :=
  ⟨pairs.foldl (fun m p ↦ m.assign p.1 p.2) .empty⟩

def toStringLoop (first : Bool) : List (Str × Str) → Str
  | [] => []
  | pair :: pairs =>
    (if first then [] else [',']) ++ pair.1 ++ ['=', '"'] ++ pair.2 ++ ['"'] ++
      toStringLoop false pairs

def toString (l : Labels) : Str :=
  if l.labels.entries = [] then [] else ['{'] ++ toStringLoop true l.labels.entries ++ ['}']

instance : LinearOrder Labels :=
  LinearOrder.lift' (fun l ↦ l.labels.entries.map toLex) (by
    intro a b h
    have he := List.map_injective_iff.mpr toLex.injective h
    cases a
    cases b
    exact congrArg Labels.mk (OrderedMap.ext he))

theorem toStringLoop_eq (ls : List (Str × Str)) :
    toStringLoop true ls = List.intercalate [','] (ls.map Exposition.labelText) := by
  have hfalse (l : Str × Str) (ls : List (Str × Str)) :
      toStringLoop false (l :: ls) = ',' :: toStringLoop true (l :: ls) := by simp [toStringLoop]
  induction ls with
  | nil => rfl
  | cons l ls ih =>
    cases ls with
    | nil => simp [toStringLoop, Exposition.labelText, List.intercalate_singleton]
    | cons l' ls =>
      rw [List.map_cons, List.map_cons, List.intercalate_cons_cons, ← List.map_cons, ← ih,
        toStringLoop, hfalse]
      simp [Exposition.labelText]

theorem toString_eq (l : Labels) : l.toString = Exposition.labelsText l.labels.entries := by
  unfold toString Exposition.labelsText
  split_ifs
  · rfl
  · rw [toStringLoop_eq]
    rfl

end Labels

/-- `class Counter`; its value is only ever raised by one, so a double holds it exactly
up to 2^53. -/
structure Counter where
  name : Str
  help : Str
  labels : Labels
  value : ℕ
  deriving DecidableEq

namespace Counter

def new (name help : Str) (labels : Labels) : Counter := ⟨name, help, labels, 0⟩

def increment (c : Counter) : Counter := { c with value := c.value + 1 }

def line (c : Counter) : Str := c.name ++ c.labels.toString ++ [' '] ++ Str.fixed 0 c.value

def format (c : Counter) : Str := c.line ++ ['\n']

end Counter

/-- `class Histogram`, its doubles taken as exact rationals. -/
structure Histogram where
  name : Str
  help : Str
  labels : Labels
  buckets : List ℚ
  values : List ℚ
  sum : ℚ
  count : ℕ
  deriving DecidableEq

namespace Histogram

def new (name help : Str) (buckets : List ℚ) (labels : Labels) : Histogram :=
  ⟨name, help, labels, buckets, [], 0, 0⟩

def observe (h : Histogram) (value : ℚ) : Histogram :=
  { h with values := h.values ++ [value], sum := h.sum + value, count := h.count + 1 }

/-- One pass of the outer loop of `format`: every bucket whose bound is at least `v`
is raised. -/
def countValue (buckets : List ℚ) (counts : List ℕ) (v : ℚ) : List ℕ :=
  List.zipWith (fun b n ↦ if v ≤ b then n + 1 else n) buckets counts

def bucketCounts (h : Histogram) : List ℕ :=
  h.values.foldl (countValue h.buckets) (h.buckets.map (fun _ ↦ 0))

def labelPart (h : Histogram) : Str :=
  match h.labels.toString with
  | '{' :: s => s
  | s => s

def bucketLine (h : Histogram) (le : Str) (n : ℕ) : Str :=
  h.name ++ "_bucket\x7ble=\"".toList ++ le ++ ['"'] ++
    (if h.labelPart = [] then [] else ',' :: h.labelPart) ++ ['}', ' '] ++ Str.ofNat n

def lines (h : Histogram) : List Str :=
  List.zipWith (fun b n ↦ h.bucketLine (Str.fixed 4 b) n) h.buckets h.bucketCounts ++
    [h.bucketLine "+Inf".toList h.count,
      h.name ++ "_sum".toList ++ h.labels.toString ++ [' '] ++ Str.fixed 6 h.sum,
      h.name ++ "_count".toList ++ h.labels.toString ++ [' '] ++ Str.ofNat h.count]

def format (h : Histogram) : Str := h.lines.flatMap (· ++ ['\n'])

end Histogram

def typeHelpLines (name help kind : Str) : List Str :=
  ("# TYPE ".toList ++ name ++ [' '] ++ kind) ::
    (if help = [] then [] else ["# HELP ".toList ++ name ++ [' '] ++ help])

def formatTypeHelp (name help kind : Str) : Str :=
  (typeHelpLines name help kind).flatMap (· ++ ['\n'])

end ServiceSystem.Metrics
