import Mathlib.Order.Lattice
import Mathlib.Order.Defs.LinearOrder
import Mathlib.Algebra.Group.Nat.Defs
import Mathlib.Algebra.BigOperators.Group.List.Basic
import Mathlib.Algebra.GroupWithZero.Nat

namespace ServiceSystem.Foundations

variable {κ ν : Type} [LinearOrder κ]

/-- A finite map kept as its entries in strictly increasing order of the keys,
which is also the order in which it is traversed. -/
@[ext]
structure OrderedMap (κ ν : Type) [LinearOrder κ] where
  entries : List (κ × ν)
  sorted : entries.Pairwise (fun a b ↦ a.1 < b.1)
  deriving DecidableEq

namespace OrderedMap

def lookupIn (k : κ) : List (κ × ν) → Option ν
  | [] => none
  | e :: es => if e.1 = k then some e.2 else lookupIn k es

def upsertIn (k : κ) (f : Option ν → ν) : List (κ × ν) → List (κ × ν)
  | [] => [(k, f none)]
  | e :: es =>
    if k < e.1 then (k, f none) :: e :: es
    else if e.1 = k then (k, f (some e.2)) :: es
    else e :: upsertIn k f es

theorem mem_upsertIn {k : κ} {f : Option ν → ν} {es : List (κ × ν)} {e : κ × ν}
    (h : e ∈ upsertIn k f es) : (∃ o, e = (k, f o)) ∨ e ∈ es := by
  induction es with
  | nil => exact .inl ⟨none, by simpa [upsertIn] using h⟩
  | cons x es ih =>
    simp only [upsertIn] at h
    split_ifs at h with hlt heq
    · simp only [List.mem_cons] at h ⊢
      rcases h with rfl | h
      · exact .inl ⟨none, rfl⟩
      · exact .inr h
    · simp only [List.mem_cons] at h ⊢
      rcases h with rfl | h
      · exact .inl ⟨some x.2, rfl⟩
      · exact .inr (.inr h)
    · simp only [List.mem_cons] at h ⊢
      rcases h with rfl | h
      · exact .inr (.inl rfl)
      · rcases ih h with h | h
        · exact .inl h
        · exact .inr (.inr h)

theorem upsertIn_sorted (k : κ) (f : Option ν → ν) {es : List (κ × ν)}
    (h : es.Pairwise (fun a b ↦ a.1 < b.1)) :
    (upsertIn k f es).Pairwise (fun a b ↦ a.1 < b.1) := by
  induction es with
  | nil => simp [upsertIn]
  | cons x es ih =>
    obtain ⟨hx, hes⟩ := List.pairwise_cons.mp h
    simp only [upsertIn]
    split_ifs with hlt heq
    · refine List.pairwise_cons.mpr ⟨?_, h⟩
      intro y hy
      rcases List.mem_cons.mp hy with rfl | hy
      · exact hlt
      · exact hlt.trans (hx y hy)
    · exact List.pairwise_cons.mpr ⟨fun y hy ↦ heq ▸ hx y hy, hes⟩
    · refine List.pairwise_cons.mpr ⟨?_, ih hes⟩
      intro y hy
      rcases mem_upsertIn hy with ⟨o, rfl⟩ | hy
      · exact lt_of_le_of_ne (not_lt.mp hlt) heq
      · exact hx y hy

theorem lookupIn_eq_none {k : κ} {es : List (κ × ν)} (h : ∀ e ∈ es, e.1 ≠ k) :
    lookupIn k es = none := by
  induction es with
  | nil => rfl
  | cons x es ih =>
    rw [lookupIn, if_neg (h x (by simp))]
    exact ih (fun e he ↦ h e (by simp [he]))

theorem lookupIn_upsertIn (k k' : κ) (f : Option ν → ν) {es : List (κ × ν)}
    (h : es.Pairwise (fun a b ↦ a.1 < b.1)) :
    lookupIn k' (upsertIn k f es) =
      if k' = k then some (f (lookupIn k es)) else lookupIn k' es := by
  induction es with
  | nil => simp only [upsertIn, lookupIn, eq_comm]
  | cons x es ih =>
    obtain ⟨hx, hes⟩ := List.pairwise_cons.mp h
    rcases lt_trichotomy k x.1 with hlt | heq | hgt
    · have hnone : lookupIn k (x :: es) = none := by
        refine lookupIn_eq_none (fun e he ↦ ?_)
        rcases List.mem_cons.mp he with rfl | he
        · exact hlt.ne'
        · exact (hlt.trans (hx e he)).ne'
      rw [upsertIn, if_pos hlt, hnone, lookupIn]
      simp only [eq_comm]
    · subst heq
      simp only [upsertIn, lookupIn, lt_irrefl, ↓reduceIte, eq_comm]
      split_ifs <;> rfl
    · simp only [upsertIn, if_neg hgt.not_gt, if_neg hgt.ne, lookupIn, ih hes]
      split_ifs with hk hk'
      · exact absurd (hk.trans hk') hgt.ne
      · rfl
      · rfl
      · rfl

def empty : OrderedMap κ ν := ⟨[], .nil⟩

def get? (m : OrderedMap κ ν) (k : κ) : Option ν := lookupIn k m.entries

def upsert (m : OrderedMap κ ν) (k : κ) (f : Option ν → ν) : OrderedMap κ ν :=
  ⟨upsertIn k f m.entries, upsertIn_sorted k f m.sorted⟩

/-- `operator[]` followed by an assignment. -/
def assign (m : OrderedMap κ ν) (k : κ) (v : ν) : OrderedMap κ ν := m.upsert k (fun _ ↦ v)

/-- `emplace`: an entry that is already there stays as it is. -/
def emplace (m : OrderedMap κ ν) (k : κ) (v : ν) : OrderedMap κ ν := m.upsert k (·.getD v)

def modify (m : OrderedMap κ ν) (k : κ) (f : ν → ν) : OrderedMap κ ν :=
  match m.get? k with
  | none => m
  | some v => m.assign k (f v)

def keys (m : OrderedMap κ ν) : List κ := m.entries.map Prod.fst

@[simp] theorem empty_get (k : κ) : (empty : OrderedMap κ ν).get? k = none := rfl

theorem upsert_get (m : OrderedMap κ ν) (k k' : κ) (f : Option ν → ν) :
    (m.upsert k f).get? k' = if k' = k then some (f (m.get? k)) else m.get? k' :=
  lookupIn_upsertIn k k' f m.sorted

theorem assign_get (m : OrderedMap κ ν) (k k' : κ) (v : ν) :
    (m.assign k v).get? k' = if k' = k then some v else m.get? k' := upsert_get ..

theorem emplace_get (m : OrderedMap κ ν) (k k' : κ) (v : ν) :
    (m.emplace k v).get? k' = if k' = k then some ((m.get? k).getD v) else m.get? k' :=
  upsert_get ..

theorem modify_get (m : OrderedMap κ ν) (k k' : κ) (f : ν → ν) :
    (m.modify k f).get? k' = if k' = k then (m.get? k).map f else m.get? k' := by
  unfold modify
  cases h : m.get? k with
  | none => by_cases hk : k' = k <;> simp [hk, h]
  | some v => rw [assign_get]; rfl

theorem mem_of_lookupIn {k : κ} {v : ν} {es : List (κ × ν)} (h : lookupIn k es = some v) :
    (k, v) ∈ es := by
  induction es with
  | nil => cases h
  | cons e es ih =>
    simp only [lookupIn] at h
    split_ifs at h with hk
    · obtain ⟨rfl⟩ := h
      simp [← hk]
    · exact List.mem_cons_of_mem _ (ih h)

theorem lookupIn_of_mem {k : κ} {v : ν} {es : List (κ × ν)}
    (hs : es.Pairwise (fun a b ↦ a.1 < b.1)) (h : (k, v) ∈ es) : lookupIn k es = some v := by
  induction es with
  | nil => cases h
  | cons e es ih =>
    obtain ⟨he, hes⟩ := List.pairwise_cons.mp hs
    rcases List.mem_cons.mp h with rfl | h
    · simp [lookupIn]
    · rw [lookupIn, if_neg (he _ h).ne]
      exact ih hes h

theorem mem_entries {m : OrderedMap κ ν} {k : κ} {v : ν} :
    (k, v) ∈ m.entries ↔ m.get? k = some v :=
  ⟨lookupIn_of_mem m.sorted, mem_of_lookupIn⟩

theorem mem_keys {m : OrderedMap κ ν} {k : κ} : k ∈ m.keys ↔ (m.get? k).isSome := by
  constructor
  · intro h
    obtain ⟨⟨k', v⟩, he, rfl⟩ := List.mem_map.mp h
    simp [mem_entries.mp he]
  · intro h
    obtain ⟨v, hv⟩ := Option.isSome_iff_exists.mp h
    exact List.mem_map.mpr ⟨_, mem_entries.mpr hv, rfl⟩

theorem keys_nodup (m : OrderedMap κ ν) : m.keys.Nodup :=
  List.pairwise_map.mpr (m.sorted.imp (fun h ↦ h.ne))

theorem ext_get {m m' : OrderedMap κ ν} (h : ∀ k, m.get? k = m'.get? k) : m = m' := by
  have hn (m : OrderedMap κ ν) : m.entries.Nodup := m.sorted.imp (fun h e ↦ by simp [e] at h)
  have hp : m.entries.Perm m'.entries :=
    (List.perm_ext_iff_of_nodup (hn m) (hn m')).mpr (fun ⟨k, v⟩ ↦ by
      rw [mem_entries, mem_entries, h])
  exact OrderedMap.ext (hp.eq_of_pairwise (fun a b _ _ hab hba ↦ absurd hab hba.not_gt)
    m.sorted m'.sorted)

theorem keys_eq {ν' : Type} {m : OrderedMap κ ν} {m' : OrderedMap κ ν'}
    (h : ∀ k, (m.get? k).isSome = (m'.get? k).isSome) : m.keys = m'.keys := by
  have hs {ν : Type} (m : OrderedMap κ ν) : m.keys.Pairwise (· < ·) :=
    List.pairwise_map.mpr m.sorted
  have hp : m.keys.Perm m'.keys := (List.perm_ext_iff_of_nodup m.keys_nodup m'.keys_nodup).mpr
    (fun k ↦ by rw [mem_keys, mem_keys, h])
  exact hp.eq_of_pairwise (fun a b _ _ hab hba ↦ absurd hab hba.not_gt) (hs m) (hs m')

theorem modify_keys (m : OrderedMap κ ν) (k : κ) (f : ν → ν) : (m.modify k f).keys = m.keys := by
  refine keys_eq (fun k' ↦ ?_)
  rw [modify_get]
  split_ifs with hk
  · rw [Option.isSome_map, hk]
  · rfl

def map {ν' : Type} (m : OrderedMap κ ν) (g : ν → ν') : OrderedMap κ ν' :=
  ⟨m.entries.map (fun e ↦ (e.1, g e.2)), by
    rw [List.pairwise_map]
    exact m.sorted⟩

theorem map_get {ν' : Type} (m : OrderedMap κ ν) (g : ν → ν') (k : κ) :
    (m.map g).get? k = (m.get? k).map g := by
  obtain ⟨es, hs⟩ := m
  simp only [map, get?]
  induction es with
  | nil => rfl
  | cons e es ih =>
    rw [List.map_cons, lookupIn, lookupIn, ih (List.pairwise_cons.mp hs).2]
    split_ifs <;> rfl

theorem map_keys {ν' : Type} (m : OrderedMap κ ν) (g : ν → ν') : (m.map g).keys = m.keys := by
  rw [keys, keys, map, List.map_map]
  rfl

def total (m : OrderedMap κ ν) (g : κ → ν → ℕ) : ℕ := (m.entries.map (fun e ↦ g e.1 e.2)).sum

@[simp] theorem empty_total (g : κ → ν → ℕ) : (empty : OrderedMap κ ν).total g = 0 := rfl

theorem upsert_total (m : OrderedMap κ ν) (k : κ) (f : Option ν → ν) (g : κ → ν → ℕ) :
    (m.upsert k f).total g + (m.get? k).elim 0 (g k) = m.total g + g k (f (m.get? k)) := by
  obtain ⟨es, hs⟩ := m
  simp only [total, upsert, get?]
  induction es with
  | nil => simp [upsertIn, lookupIn]
  | cons e es ih =>
    obtain ⟨he, hes⟩ := List.pairwise_cons.mp hs
    have h := ih hes
    simp only [upsertIn]
    split_ifs with hlt heq
    · have hnone : lookupIn k (e :: es) = none := by
        refine lookupIn_eq_none (fun x hx ↦ ?_)
        rcases List.mem_cons.mp hx with rfl | hx
        · exact hlt.ne'
        · exact (hlt.trans (he x hx)).ne'
      simp only [hnone, List.map_cons, List.sum_cons, Option.elim_none]
      omega
    · subst heq
      simp only [lookupIn, if_pos, List.map_cons, List.sum_cons, Option.elim_some]
      omega
    · simp only [lookupIn, if_neg heq, List.map_cons, List.sum_cons]
      omega

theorem modify_total {m : OrderedMap κ ν} {k : κ} {v : ν} (h : m.get? k = some v) (f : ν → ν)
    (g : κ → ν → ℕ) : (m.modify k f).total g + g k v = m.total g + g k (f v) := by
  have hu := upsert_total m k (fun _ ↦ f v) g
  simpa only [modify, h, assign, Option.elim_some] using hu

end OrderedMap

end ServiceSystem.Foundations
