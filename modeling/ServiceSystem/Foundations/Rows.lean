import Mathlib.Data.List.Nodup

namespace ServiceSystem.Foundations.Rows

variable {α κ : Type} {key : α → κ} {rows : List α}

theorem nodup_append (h : (rows.map key).Nodup) {row : α} (hrow : key row ∉ rows.map key) :
    ((rows ++ [row]).map key).Nodup := by
  rw [List.map_append, List.nodup_append]
  refine ⟨h, by simp, fun a ha b hb hab ↦ ?_⟩
  obtain rfl := List.mem_singleton.mp hb
  exact hrow (hab ▸ ha)

theorem nodup_filter (h : (rows.map key).Nodup) (p : α → Bool) :
    ((rows.filter p).map key).Nodup := h.sublist (List.filter_sublist.map key)

theorem exists_key_iff (k : κ) : (∃ r ∈ rows, k = key r) ↔ k ∈ rows.map key := by
  simp only [List.mem_map, eq_comm]

theorem eq_of_key {a b : α} (h : (rows.map key).Nodup) (ha : a ∈ rows) (hb : b ∈ rows)
    (hab : key a = key b) : a = b := List.inj_on_of_nodup_map h ha hb hab

variable [DecidableEq κ]

theorem map_replace {k : κ} {row : α} (h : key row = k) (rows : List α) :
    (rows.map (fun r ↦ if key r = k then row else r)).map key = rows.map key := by
  rw [List.map_map]
  refine List.map_congr_left (fun r _ ↦ ?_)
  simp only [Function.comp_apply]
  split_ifs with hr
  · rw [h, hr]
  · rfl

theorem filter_key {a : α} (h : (rows.map key).Nodup) (ha : a ∈ rows) :
    rows.filter (fun r ↦ key a = key r) = [a] := by
  induction rows with
  | nil => cases ha
  | cons r rows ih =>
    obtain ⟨hr, hrows⟩ := List.nodup_cons.mp h
    rcases List.mem_cons.mp ha with rfl | ha
    · have hnone : rows.filter (fun r ↦ key a = key r) = [] :=
        List.filter_eq_nil_iff.mpr fun b hb hab ↦
          hr (List.mem_map.mpr ⟨b, hb, (of_decide_eq_true hab).symm⟩)
      rw [List.filter_cons_of_pos (by simp), hnone]
    · have hne : key a ≠ key r := fun hab ↦ hr (List.mem_map.mpr ⟨a, ha, hab⟩)
      rw [List.filter_cons_of_neg (by simpa using hne), ih hrows ha]

end ServiceSystem.Foundations.Rows
