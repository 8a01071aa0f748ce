import Mathlib

/-! # The nearest elements of a list

The `k` elements of the least rank, from the least on. Where no two elements have one rank they are
what a sort by the rank puts first, and there is only one such list: it does not depend on the order
of the elements. -/

namespace DSearch.Ranked
set_option autoImplicit false

variable {α κ : Type} [LE κ] [LT κ] [Std.IsLinearOrder κ] [Std.LawfulOrderLT κ]

structure Nearest (rank : α → κ) (l : List α) (k : ℕ) (closest : List α) : Prop where
  length : closest.length = min k l.length
  mem : ∀ a ∈ closest, a ∈ l
  sorted : closest.Pairwise fun a b => rank a < rank b
  farther : ∀ a ∈ l, a ∉ closest → ∀ b ∈ closest, rank b < rank a

/-- No two elements have one rank. -/
def Separates (rank : α → κ) (l : List α) : Prop := ∀ a ∈ l, ∀ b ∈ l, rank a = rank b → a = b

variable {rank : α → κ} {l l' closest closest' : List α} {k : ℕ}

theorem lt_of_le_of_separates (hrank : Separates rank l) {a b : α} (ha : a ∈ l) (hb : b ∈ l)
    (hne : a ≠ b) (hle : rank a ≤ rank b) : rank a < rank b := by
  refine Std.lt_of_le_of_ne hle ?_
  intro heq
  exact hne (hrank a ha b hb heq)

section
variable [DecidableLE κ]

/-- A sort of distinct elements, none of the same rank, is strictly sorted. -/
theorem strictly_sorted_insertionSort (hrank : Separates rank l) (hdistinct : l.Nodup) :
    (l.insertionSort fun a b => rank a ≤ rank b).Pairwise fun a b => rank a < rank b := by
  have : Std.Total fun a b => rank a ≤ rank b := ⟨fun a b => Std.le_total⟩
  have : IsTrans α fun a b => rank a ≤ rank b := ⟨fun _ _ _ => Std.le_trans⟩
  have hperm := List.perm_insertionSort (fun a b => rank a ≤ rank b) l
  have hsorted := List.pairwise_insertionSort (fun a b => rank a ≤ rank b) l
  refine (hsorted.and (hperm.nodup_iff.mpr hdistinct)).imp_of_mem ?_
  intro a b ha hb hboth
  exact lt_of_le_of_separates hrank (hperm.mem_iff.mp ha) (hperm.mem_iff.mp hb) hboth.2 hboth.1

theorem nearest_take_insertionSort (hrank : Separates rank l) (hdistinct : l.Nodup) (k : ℕ) :
    Nearest rank l k ((l.insertionSort fun a b => rank a ≤ rank b).take k) := by
  have hperm := List.perm_insertionSort (fun a b => rank a ≤ rank b) l
  have hsorted := strictly_sorted_insertionSort hrank hdistinct
  have hcut := List.take_append_drop k (l.insertionSort fun a b => rank a ≤ rank b)
  refine ⟨?_, ?_, ?_, ?_⟩
  · rw [List.length_take, hperm.length_eq]
  · intro a ha
    exact hperm.mem_iff.mp (List.mem_of_mem_take ha)
  · exact hsorted.sublist (List.take_sublist k _)
  · -- what is left out stands behind the cut
    intro a ha hleft b hb
    rw [← hcut, List.pairwise_append] at hsorted
    have hmem := hperm.mem_iff.mpr ha
    rw [← hcut, List.mem_append] at hmem
    exact hsorted.2.2 b hb a (hmem.resolve_left hleft)

end

namespace Nearest

omit [Std.IsLinearOrder κ] in
theorem nodup (h : Nearest rank l k closest) : closest.Nodup := by
  refine h.sorted.imp ?_
  intro a b hlt heq
  exact Std.lt_irrefl (heq ▸ hlt)

/-- Of the nearest elements of one list, a second choice has no others. -/
theorem subset (h : Nearest rank l k closest) (h' : Nearest rank l' k closest') (hperm : l.Perm l') :
    closest ⊆ closest' := by
  intro a ha
  by_contra hleft
  -- both are of one length, so the second has an element that the first has not
  have hlength : closest'.length = closest.length := by rw [h.length, h'.length, hperm.length_eq]
  obtain ⟨b, hb, hother⟩ : ∃ b ∈ closest', b ∉ closest := by
    by_contra hnone
    push Not at hnone
    have hsame := (List.subperm_of_subset h'.nodup hnone).perm_of_length_le hlength.ge
    exact hleft (hsame.mem_iff.mpr ha)
  have hab := h.farther b (hperm.mem_iff.mpr (h'.mem b hb)) hother a ha
  have hba := h'.farther a (hperm.mem_iff.mp (h.mem a ha)) hleft b hb
  exact Std.lt_irrefl (Std.lt_trans hab hba)

theorem unique (h : Nearest rank l k closest) (h' : Nearest rank l' k closest') (hperm : l.Perm l') :
    closest = closest' := by
  have hlength : closest'.length ≤ closest.length := by rw [h.length, h'.length, hperm.length_eq]
  have hsame := (List.subperm_of_subset h.nodup (h.subset h' hperm)).perm_of_length_le hlength
  refine hsame.eq_of_pairwise ?_ h.sorted h'.sorted
  intro a b _ _ hab hba
  exact absurd (Std.lt_trans hab hba) Std.lt_irrefl

end Nearest

end DSearch.Ranked
