import Mathlib

/-! # Fields of a state

A field is what is read and written of a state; two fields are apart if a write to one is not seen in
the other. After a run of updates a field holds the last value that was written to it. -/

namespace DSearch.Fields
set_option autoImplicit false

structure Field (σ α : Type*) where
  get : σ → α
  put : α → σ → σ
  get_put : ∀ a s, get (put a s) = a := by intros; rfl

attribute [simp] Field.get_put

variable {σ α β ρ : Type*}

def Field.Apart (f : Field σ α) (g : Field σ β) : Prop :=
  (∀ a s, g.get (f.put a s) = g.get s) ∧ ∀ b s, f.get (g.put b s) = f.get s

theorem Field.Apart.symm {f : Field σ α} {g : Field σ β} (h : f.Apart g) : g.Apart f := ⟨h.2, h.1⟩

/-- What is seen of a run of updates, each of which writes a value or leaves what is seen. -/
theorem get_foldl {get : σ → α} {update : σ → ρ → σ} {written : ρ → Option α} {updates : List ρ}
    (h : ∀ r ∈ updates, ∀ s, get (update s r) = (written r).getD (get s)) (s : σ) :
    get (updates.foldl update s) = (updates.filterMap written).getLast?.getD (get s) := by
  induction updates generalizing s with
  | nil => rfl
  | cons r updates ih =>
    rw [List.foldl_cons, ih fun r' hr' => h r' (List.mem_cons_of_mem r hr'),
      h r List.mem_cons_self, List.filterMap_cons]
    cases written r with
    | none => rfl
    | some a =>
      dsimp only
      rw [List.getLast?_cons]
      rfl

end DSearch.Fields
