import Mathlib

/-! # Lookups in ordered tables

`Std.ExtTreeMap` with a lawful order on its keys, with its lookups stated by equality of keys, and
the sum of a weight over its rows: what an insert or an erase does to the sum. -/

namespace DSearch.OrderedTable
set_option autoImplicit false
open Std

variable {α β : Type} [Ord α] [TransOrd α] [LawfulEqOrd α] [DecidableEq α]

theorem get_insert (t : ExtTreeMap α β) (k a : α) (v : β) :
    (t.insert k v)[a]? = if k = a then some v else t[a]? := by
  rw [ExtTreeMap.getElem?_insert]
  simp only [LawfulEqCmp.compare_eq_iff_eq]

theorem get_erase (t : ExtTreeMap α β) (k a : α) :
    (t.erase k)[a]? = if k = a then none else t[a]? := by
  rw [ExtTreeMap.getElem?_erase]
  simp only [LawfulEqCmp.compare_eq_iff_eq]

theorem get_insert_eq_some {t : ExtTreeMap α β} {k a : α} {v w : β} :
    (t.insert k v)[a]? = some w ↔ (k = a ∧ v = w) ∨ (k ≠ a ∧ t[a]? = some w) := by
  rw [get_insert]
  by_cases hkey : k = a <;> simp [hkey]

theorem get_erase_eq_some {t : ExtTreeMap α β} {k a : α} {w : β} :
    (t.erase k)[a]? = some w ↔ k ≠ a ∧ t[a]? = some w := by
  rw [get_erase]
  by_cases hkey : k = a <;> simp [hkey]

/-- The keys of some rows, erased one after the other. -/
theorem get_foldl_erase {γ : Type} (key : γ → α) (rows : List γ) (t : ExtTreeMap α β) (a : α) :
    (rows.foldl (fun t row => t.erase (key row)) t)[a]? =
      if a ∈ rows.map key then none else t[a]? := by
  induction rows generalizing t with
  | nil => simp
  | cons row rows ih =>
    rw [List.foldl_cons, ih, get_erase]
    by_cases hkey : a ∈ rows.map key
    · simp [hkey]
    · simp only [hkey, if_false, List.map_cons, List.mem_cons, or_false, eq_comm]

omit [LawfulEqOrd α] [DecidableEq α] in
/-- What is collected row by row stays in the order of the keys. -/
theorem pairwise_filterMap {γ : Type} (t : ExtTreeMap α β) {f : α × β → Option γ} {key : γ → α}
    (hkey : ∀ row c, f row = some c → key c = row.1) :
    (t.toList.filterMap f).Pairwise fun a b => compare (key a) (key b) = .lt := by
  refine List.Pairwise.filterMap _ ?_ t.ordered_keys_toList
  intro row row' hlt c hc c' hc'
  rw [hkey row c hc, hkey row' c' hc']
  exact hlt

/-! ## Weights -/

omit [DecidableEq α] in
theorem nodup_toList (t : ExtTreeMap α β) : t.toList.Nodup := by
  refine t.ordered_keys_toList.imp ?_
  intro row row' hlt heq
  subst heq
  exact absurd (hlt.symm.trans ReflOrd.compare_self) (by decide)

/-- A stored row and the rows that are left without it. -/
theorem toList_perm_of_get {t : ExtTreeMap α β} {k : α} {v : β} (h : t[k]? = some v) :
    t.toList.Perm ((k, v) :: (t.erase k).toList) := by
  have hfresh : (k, v) ∉ (t.erase k).toList := by
    rw [ExtTreeMap.mem_toList_iff_getElem?_eq_some, get_erase_eq_some]
    intro hmem
    exact hmem.1 rfl
  refine (List.perm_ext_iff_of_nodup (nodup_toList t)
    (List.nodup_cons.mpr ⟨hfresh, nodup_toList _⟩)).mpr ?_
  intro row
  obtain ⟨key, value⟩ := row
  rw [List.mem_cons, ExtTreeMap.mem_toList_iff_getElem?_eq_some,
    ExtTreeMap.mem_toList_iff_getElem?_eq_some, get_erase_eq_some]
  by_cases hkey : k = key
  · subst hkey
    rw [h]
    simp [eq_comm]
  · simp [hkey, Ne.symm hkey]

theorem erase_insert_self (t : ExtTreeMap α β) (k : α) (v : β) :
    (t.insert k v).erase k = t.erase k := by
  apply ExtTreeMap.ext_getElem?
  intro key
  rw [get_erase, get_erase, get_insert]
  by_cases hkey : k = key <;> simp [hkey]

theorem erase_of_get_eq_none {t : ExtTreeMap α β} {k : α} (h : t[k]? = none) : t.erase k = t := by
  apply ExtTreeMap.ext_getElem?
  intro key
  rw [get_erase]
  by_cases hkey : k = key
  · rw [if_pos hkey, ← hkey, h]
  · rw [if_neg hkey]

theorem insert_erase_of_get {t : ExtTreeMap α β} {k : α} {v : β} (h : t[k]? = some v) :
    (t.erase k).insert k v = t := by
  apply ExtTreeMap.ext_getElem?
  intro key
  rw [get_insert, get_erase]
  by_cases hkey : k = key
  · rw [if_pos hkey, ← hkey, h]
  · rw [if_neg hkey, if_neg hkey]

/-- The sum of a weight over the rows. -/
def weight (w : β → ℕ) (t : ExtTreeMap α β) : ℕ := (t.toList.map fun row => w row.2).sum

omit [LawfulEqOrd α] [DecidableEq α] in
theorem weight_one (t : ExtTreeMap α β) : weight (fun _ => 1) t = t.size := by
  rw [weight, List.map_const', List.sum_replicate, ExtTreeMap.length_toList, smul_eq_mul, mul_one]

variable {w : β → ℕ}

theorem weight_of_get {t : ExtTreeMap α β} {k : α} {v : β} (h : t[k]? = some v) :
    weight w t = w v + weight w (t.erase k) :=
  ((toList_perm_of_get h).map _).sum_eq

theorem weight_insert (t : ExtTreeMap α β) (k : α) (v : β) :
    weight w (t.insert k v) = w v + weight w (t.erase k) := by
  have hget : (t.insert k v)[k]? = some v := by rw [get_insert, if_pos rfl]
  rw [weight_of_get hget, erase_insert_self]

/-- What the row of a key weighs: nothing if there is none. -/
def weightAt (w : β → ℕ) (t : ExtTreeMap α β) (k : α) : ℕ := (t[k]?.map w).getD 0

theorem weight_erase (t : ExtTreeMap α β) (k : α) :
    weight w t = weightAt w t k + weight w (t.erase k) := by
  unfold weightAt
  cases h : t[k]? with
  | none => simp [erase_of_get_eq_none h]
  | some v => exact weight_of_get h

/-- Different keys, erased one after the other, take what their rows weigh. -/
theorem weight_foldl_erase {γ : Type} (key : γ → α) (rows : List γ) (t : ExtTreeMap α β)
    (hdistinct : (rows.map key).Nodup) :
    weight w t = (rows.map fun row => weightAt w t (key row)).sum +
      weight w (rows.foldl (fun t row => t.erase (key row)) t) := by
  induction rows generalizing t with
  | nil => simp
  | cons row rows ih =>
    obtain ⟨hfresh, hrest⟩ := List.nodup_cons.mp hdistinct
    have hsame : (rows.map fun r => weightAt w (t.erase (key row)) (key r)) =
        rows.map fun r => weightAt w t (key r) := by
      apply List.map_congr_left
      intro r hr
      have hne : key row ≠ key r := fun heq => hfresh (heq ▸ List.mem_map_of_mem hr)
      rw [weightAt, get_erase, if_neg hne, weightAt]
    have hrows := ih (t.erase (key row)) hrest
    have hrow := weight_erase (w := w) t (key row)
    rw [hsame] at hrows
    rw [List.map_cons, List.sum_cons, List.foldl_cons]
    omega

theorem weight_erase_le (t : ExtTreeMap α β) (k : α) : weight w (t.erase k) ≤ weight w t := by
  rw [weight_erase t k]
  omega

end DSearch.OrderedTable
