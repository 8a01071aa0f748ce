import Mathlib

/-! # Clauses of words

A clause is a list of words, and it is met by a collection of words if one of its own is part of one
of them. One list of clauses entails another on all collections exactly where each clause of the second
is weaker, word by word, than some clause of the first. -/

namespace DSearch.Clauses
set_option autoImplicit false

variable {α : Type} (part : α → α → Prop)

def Met (present clause : List α) : Prop := ∃ w ∈ clause, ∃ s ∈ present, part w s

def AllMet (present : List α) (clauses : List (List α)) : Prop :=
  ∀ clause ∈ clauses, Met part present clause

/-- Each word of `clause` has a part that is a word of `weaker`. -/
def Covers (clause weaker : List α) : Prop := ∀ w ∈ clause, ∃ v ∈ weaker, part v w

def Entails (clauses clauses' : List (List α)) : Prop :=
  ∀ weaker ∈ clauses', ∃ clause ∈ clauses, Covers part clause weaker

instance [DecidableRel part] (clauses clauses' : List (List α)) :
    Decidable (Entails part clauses clauses') := by
  unfold Entails Covers
  infer_instance

/-- The words of the clauses that have no word of `weaker` in them. -/
def avoiding [DecidableRel part] (clauses : List (List α)) (weaker : List α) : List α :=
  clauses.flatten.filter fun s => decide (∀ v ∈ weaker, ¬ part v s)

variable {part}

theorem Entails.allMet [IsTrans α part] {clauses clauses' : List (List α)}
    (h : Entails part clauses clauses') {present : List α} (hmet : AllMet part present clauses) :
    AllMet part present clauses' := by
  intro weaker hweaker
  obtain ⟨clause, hclause, hcovers⟩ := h weaker hweaker
  obtain ⟨w, hw, s, hs, hpart⟩ := hmet clause hclause
  obtain ⟨v, hv, hvw⟩ := hcovers w hw
  exact ⟨v, hv, s, hs, IsTrans.trans _ _ _ hvw hpart⟩

theorem mem_avoiding [DecidableRel part] {clauses : List (List α)} {weaker : List α} {s : α} :
    s ∈ avoiding part clauses weaker ↔
      s ∈ clauses.flatten ∧ ∀ v ∈ weaker, ¬ part v s := by
  simp only [avoiding, List.mem_filter, decide_eq_true_eq]

/-- If no clause covers `weaker`, there is a word to take from each of them that leaves it unmet. -/
theorem entails_of_allMet [DecidableRel part] [Std.Refl part] {clauses clauses' : List (List α)}
    (h : ∀ weaker ∈ clauses', AllMet part (avoiding part clauses weaker) clauses →
      Met part (avoiding part clauses weaker) weaker) : Entails part clauses clauses' := by
  intro weaker hweaker
  by_contra hnone
  have hmet : AllMet part (avoiding part clauses weaker) clauses := by
    intro clause hclause
    have hfree : ¬ Covers part clause weaker := fun hcovers => hnone ⟨clause, hclause, hcovers⟩
    unfold Covers at hfree
    push Not at hfree
    obtain ⟨w, hw, hfree⟩ := hfree
    have htaken : w ∈ avoiding part clauses weaker :=
      mem_avoiding.mpr ⟨List.mem_flatten_of_mem hclause hw, hfree⟩
    exact ⟨w, hw, w, htaken, Std.Refl.refl w⟩
  obtain ⟨v, hv, s, hs, hpart⟩ := h weaker hweaker hmet
  exact (mem_avoiding.mp hs).2 v hv hpart

end DSearch.Clauses
