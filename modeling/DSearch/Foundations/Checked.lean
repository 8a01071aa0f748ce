import DSearch.Foundations.Runs

/-! # Machines with checked arithmetic

A machine whose arithmetic is checked stops at the first overflow, and one whose arithmetic wraps goes
on. `runChecked_iff` says that the two do the same in a run if and only if no step of it overflows. -/

namespace DSearch.Checked
set_option autoImplicit false
open Runs

def add (bound a b : ℕ) : Option ℕ := if a + b < bound then some (a + b) else none

def sub (a b : ℕ) : Option ℕ := if b ≤ a then some (a - b) else none

theorem add_of_lt {bound a b : ℕ} (h : a + b < bound) : add bound a b = some (a + b) := if_pos h

theorem add_eq_none {bound a b : ℕ} (h : ¬ a + b < bound) : add bound a b = none := if_neg h

theorem sub_of_le {a b : ℕ} (h : b ≤ a) : sub a b = some (a - b) := if_pos h

theorem sub_eq_none {a b : ℕ} (h : ¬ b ≤ a) : sub a b = none := if_neg h

section
variable {σ ο ρ : Type*} {checked : ο → σ → Option (σ × ρ)} {step : ο → σ → σ × ρ}
  {Safe : σ → ο → Prop}

/-- The run goes on while nothing overflows. -/
def runChecked (checked : ο → σ → Option (σ × ρ)) : List ο → σ → Option (σ × List ρ)
  | [], s => some (s, [])
  | op :: ops, s =>
    (checked op s).bind fun next =>
      (runChecked checked ops next.1).map fun rest => (rest.1, next.2 :: rest.2)

/-- Where a step is safe the two machines agree, and elsewhere the checked one stops. -/
structure Checks (checked : ο → σ → Option (σ × ρ)) (step : ο → σ → σ × ρ)
    (Safe : σ → ο → Prop) : Prop where
  safe : ∀ op s, Safe s op → checked op s = some (step op s)
  stops : ∀ op s, ¬ Safe s op → checked op s = none

theorem Checks.runChecked_of_along (h : Checks checked step Safe) {ops : List ο} {s : σ}
    (hsafe : Along step Safe ops s) : runChecked checked ops s = some (runAll step ops s) := by
  induction ops generalizing s with
  | nil => rfl
  | cons op ops ih =>
    rw [runChecked, h.safe op s hsafe.1, Option.bind_some, ih hsafe.2, Option.map_some, runAll_cons]

theorem Checks.along_of_runChecked (h : Checks checked step Safe) {ops : List ο} {s : σ}
    (hrun : runChecked checked ops s ≠ none) : Along step Safe ops s := by
  induction ops generalizing s with
  | nil => trivial
  | cons op ops ih =>
    have hsafe : Safe s op := by
      by_contra hunsafe
      rw [runChecked, h.stops op s hunsafe] at hrun
      exact hrun rfl
    rw [runChecked, h.safe op s hsafe, Option.bind_some, Ne, Option.map_eq_none_iff] at hrun
    exact ⟨hsafe, ih hrun⟩

theorem Checks.runChecked_iff (h : Checks checked step Safe) {ops : List ο} {s : σ} :
    runChecked checked ops s = some (runAll step ops s) ↔ Along step Safe ops s := by
  constructor
  · intro hrun
    refine h.along_of_runChecked ?_
    rw [hrun]
    exact Option.some_ne_none _
  · exact h.runChecked_of_along

/-- Two machines in step: their conditions are the same while these hold, and so are their answers. -/
theorem along_iff_of_simulates {τ : Type*} {spec : ο → τ → τ × ρ} {Fits : τ → ο → Prop}
    {R : σ → τ → Prop} {ops : List ο}
    (hstep : ∀ op ∈ ops, ∀ s t, R s t → (Safe s op ↔ Fits t op) ∧
      (Safe s op → R (step op s).1 (spec op t).1 ∧ (step op s).2 = (spec op t).2))
    {s : σ} {t : τ} (hst : R s t) :
    (Along step Safe ops s ↔ Along spec Fits ops t) ∧
      (Along step Safe ops s → (runAll step ops s).2 = (runAll spec ops t).2) := by
  induction ops generalizing s t with
  | nil => exact ⟨Iff.rfl, fun _ => rfl⟩
  | cons op ops ih =>
    obtain ⟨hsame, hnext⟩ := hstep op List.mem_cons_self s t hst
    have ih := @ih fun op' hop' => hstep op' (List.mem_cons_of_mem op hop')
    refine ⟨⟨fun h => ?_, fun h => ?_⟩, fun h => ?_⟩
    · obtain ⟨hR, -⟩ := hnext h.1
      exact ⟨hsame.mp h.1, (ih hR).1.mp h.2⟩
    · obtain ⟨hR, -⟩ := hnext (hsame.mpr h.1)
      exact ⟨hsame.mpr h.1, (ih hR).1.mpr h.2⟩
    · obtain ⟨hR, hanswer⟩ := hnext h.1
      rw [runAll_cons, runAll_cons, hanswer, (ih hR).2 h.2]

end

end DSearch.Checked
