import Mathlib

/-! # Runs of a machine that answers

A machine takes operations one after the other; each changes its state and gives an answer.
`runAll_simulates` is forward simulation for such machines: a relation that every operation
preserves, with equal answers, carries over to runs. -/

namespace DSearch.Runs
set_option autoImplicit false

variable {σ τ ο ρ : Type*}

/-- The final state and the answers, in order. -/
def runAll (step : ο → σ → σ × ρ) : List ο → σ → σ × List ρ
  | [], s => (s, [])
  | op :: ops, s =>
    let next := step op s
    let rest := runAll step ops next.1
    (rest.1, next.2 :: rest.2)

@[simp] theorem runAll_nil (step : ο → σ → σ × ρ) (s : σ) : runAll step [] s = (s, []) := rfl

@[simp] theorem runAll_cons (step : ο → σ → σ × ρ) (op : ο) (ops : List ο) (s : σ) :
    runAll step (op :: ops) s =
      ((runAll step ops (step op s).1).1, (step op s).2 :: (runAll step ops (step op s).1).2) := rfl

theorem runAll_append (step : ο → σ → σ × ρ) (first second : List ο) (s : σ) :
    (runAll step (first ++ second) s).1 = (runAll step second (runAll step first s).1).1 := by
  induction first generalizing s with
  | nil => rfl
  | cons op first ih => exact ih _

/-- Each operation of the run is related by `P` to the state it starts in. -/
def Along (step : ο → σ → σ × ρ) (P : σ → ο → Prop) : List ο → σ → Prop
  | [], _ => True
  | op :: ops, s => P s op ∧ Along step P ops (step op s).1

theorem Along.of_forall {step : ο → σ → σ × ρ} {P : σ → ο → Prop} {ops : List ο}
    (h : ∀ op ∈ ops, ∀ s, P s op) (s : σ) : Along step P ops s := by
  induction ops generalizing s with
  | nil => trivial
  | cons op ops ih =>
    exact ⟨h op List.mem_cons_self s, ih (fun op' hop' => h op' (List.mem_cons_of_mem op hop')) _⟩

theorem along_append {step : ο → σ → σ × ρ} {P : σ → ο → Prop} {first second : List ο} {s : σ} :
    Along step P (first ++ second) s ↔
      Along step P first s ∧ Along step P second (runAll step first s).1 := by
  induction first generalizing s with
  | nil => exact (iff_of_eq (true_and _)).symm
  | cons op first ih =>
    rw [List.cons_append, Along, Along, ih, and_assoc]
    rfl

/-- The steps of a run are known more about when an invariant is carried along. -/
theorem Along.with_invariant {step : ο → σ → σ × ρ} {P : σ → ο → Prop} {I : σ → Prop}
    (hstep : ∀ op s, I s → P s op → I (step op s).1) {ops : List ο} {s : σ} (hs : I s)
    (h : Along step P ops s) : Along step (fun s op => I s ∧ P s op) ops s := by
  induction ops generalizing s with
  | nil => trivial
  | cons op ops ih => exact ⟨⟨hs, h.1⟩, ih (hstep op s hs h.1) h.2⟩

theorem Along.and {step : ο → σ → σ × ρ} {P Q : σ → ο → Prop} {ops : List ο} {s : σ}
    (hP : Along step P ops s) (hQ : Along step Q ops s) :
    Along step (fun s op => P s op ∧ Q s op) ops s := by
  induction ops generalizing s with
  | nil => trivial
  | cons op ops ih => exact ⟨⟨hP.1, hQ.1⟩, ih hP.2 hQ.2⟩

/-- Under an invariant, two conditions on the steps may be exchanged. -/
theorem Along.iff_of_invariant {step : ο → σ → σ × ρ} {P Q : σ → ο → Prop} {I : σ → Prop}
    (hstep : ∀ op s, I s → I (step op s).1) (hPQ : ∀ op s, I s → (P s op ↔ Q s op)) {ops : List ο}
    {s : σ} (hs : I s) : Along step P ops s ↔ Along step Q ops s := by
  induction ops generalizing s with
  | nil => exact Iff.rfl
  | cons op ops ih => exact and_congr (hPQ op s hs) (ih (hstep op s hs))

/-- Forward simulation. The step condition is only needed of the operations of the run. -/
theorem runAll_simulates {concrete : ο → σ → σ × ρ} {abstract : ο → τ → τ × ρ}
    {R : σ → τ → Prop} {ops : List ο}
    (hstep : ∀ op ∈ ops, ∀ s t, R s t →
      R (concrete op s).1 (abstract op t).1 ∧ (concrete op s).2 = (abstract op t).2)
    {s : σ} {t : τ} (hst : R s t) :
    R (runAll concrete ops s).1 (runAll abstract ops t).1 ∧
      (runAll concrete ops s).2 = (runAll abstract ops t).2 := by
  induction ops generalizing s t with
  | nil => exact ⟨hst, rfl⟩
  | cons op ops ih =>
    obtain ⟨hR, hreply⟩ := hstep op List.mem_cons_self s t hst
    obtain ⟨hend, hreplies⟩ := ih (fun op' hop' => hstep op' (List.mem_cons_of_mem op hop')) hR
    exact ⟨hend, by rw [runAll_cons, runAll_cons, hreply, hreplies]⟩

end DSearch.Runs
