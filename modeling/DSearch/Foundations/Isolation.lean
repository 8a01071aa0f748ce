import DSearch.Foundations.Runs

/-! # Two runs that differ in hidden operations

An observer sees a part of the state, its view, and the answers to some of the operations. Where hidden
operations leave the view alone, and the others change it by what it is, two runs that have the same
operations but for hidden ones answer the observer the same. -/

namespace DSearch.Isolation
open Runs
set_option autoImplicit false

variable {σ ο ρ ν β : Type*}

/-- The answers to the observed operations of a run. -/
def answers (step : ο → σ → σ × ρ) (observed : ο → Bool) : List ο → σ → List ρ
  | [], _ => []
  | op :: ops, s =>
    if observed op = true then (step op s).2 :: answers step observed ops (step op s).1
    else answers step observed ops (step op s).1

/-- What each step does to a view: hidden operations nothing, the others what the view says. `P` is
what is known of the steps of a run, `f` what is observed of an answer. -/
structure Isolated (step : ο → σ → σ × ρ) (P : σ → ο → Prop) (shared observed : ο → Bool)
    (view : σ → ν) (f : ρ → β) : Prop where
  hidden_view : ∀ op s, P s op → shared op = false → view (step op s).1 = view s
  shared_view : ∀ op s s', view s = view s' → shared op = true →
    view (step op s).1 = view (step op s').1
  same_answer : ∀ op s s', P s op → P s' op → view s = view s' → observed op = true →
    f (step op s).2 = f (step op s').2
  observed_shared : ∀ op, observed op = true → shared op = true

variable {step : ο → σ → σ × ρ} {P : σ → ο → Prop} {shared observed : ο → Bool} {view : σ → ν}
  {f : ρ → β}

namespace Isolated

theorem not_observed (h : Isolated step P shared observed view f) {op : ο}
    (hop : shared op = false) : observed op = false := by
  by_contra hobserved
  rw [h.observed_shared op (Bool.eq_true_of_not_eq_false hobserved)] at hop
  cases hop

theorem answers_hidden (h : Isolated step P shared observed view f) {op : ο}
    (hop : shared op = false) (ops : List ο) (s : σ) :
    answers step observed (op :: ops) s = answers step observed ops (step op s).1 := by
  rw [answers, h.not_observed hop]
  exact if_neg Bool.false_ne_true

theorem answers_nil (h : Isolated step P shared observed view f) {ops : List ο}
    (hops : ops.filter shared = []) (s : σ) : answers step observed ops s = [] := by
  induction ops generalizing s with
  | nil => rfl
  | cons op ops ih =>
    cases hop : shared op with
    | true =>
      rw [List.filter_cons_of_pos hop] at hops
      cases hops
    | false =>
      rw [List.filter_cons_of_neg (Bool.eq_false_iff.mp hop)] at hops
      rw [h.answers_hidden hop]
      exact ih hops _

/-- A run up to its first shared operation. -/
theorem exists_shared (h : Isolated step P shared observed view f) {ops rest : List ο} {op : ο}
    (hops : ops.filter shared = op :: rest) {s : σ} (hsteps : Along step P ops s) :
    ∃ later s', later.filter shared = rest ∧ view s' = view s ∧ P s' op ∧
      Along step P later (step op s').1 ∧
      answers step observed ops s = answers step observed (op :: later) s' := by
  induction ops generalizing s with
  | nil => cases hops
  | cons head ops ih =>
    cases hhead : shared head with
    | true =>
      rw [List.filter_cons_of_pos hhead] at hops
      obtain ⟨rfl, hrest⟩ := List.cons.inj hops
      exact ⟨ops, s, hrest, rfl, hsteps.1, hsteps.2, rfl⟩
    | false =>
      rw [List.filter_cons_of_neg (Bool.eq_false_iff.mp hhead)] at hops
      obtain ⟨later, s', hlater, hview, hP, halong, hanswers⟩ := ih hops hsteps.2
      refine ⟨later, s', hlater, hview.trans (h.hidden_view head s hsteps.1 hhead), hP, halong, ?_⟩
      rw [h.answers_hidden hhead, hanswers]

/-- The two-run theorem. -/
theorem answers_eq (h : Isolated step P shared observed view f) {ops ops' : List ο}
    (hops : ops.filter shared = ops'.filter shared) {s s' : σ} (hview : view s = view s')
    (hsteps : Along step P ops s) (hsteps' : Along step P ops' s') :
    (answers step observed ops s).map f = (answers step observed ops' s').map f := by
  induction ops generalizing ops' s s' with
  | nil =>
    have hother : ops'.filter shared = [] := hops.symm
    rw [h.answers_nil hother]
    rfl
  | cons op ops ih =>
    cases hop : shared op with
    | false =>
      rw [List.filter_cons_of_neg (Bool.eq_false_iff.mp hop)] at hops
      rw [h.answers_hidden hop]
      exact ih hops ((h.hidden_view op s hsteps.1 hop).trans hview) hsteps.2 hsteps'
    | true =>
      rw [List.filter_cons_of_pos hop] at hops
      obtain ⟨later, t, hlater, ht, hP, halong, hanswers⟩ := h.exists_shared hops.symm hsteps'
      have hview := hview.trans ht.symm
      have hrest := ih hlater.symm (h.shared_view op s t hview hop) hsteps.2 halong
      rw [hanswers, answers, answers]
      cases hobserved : observed op with
      | true =>
        rw [if_pos rfl, if_pos rfl, List.map_cons, List.map_cons, hrest,
          h.same_answer op s t hsteps.1 hP hview hobserved]
      | false =>
        rw [if_neg Bool.false_ne_true, if_neg Bool.false_ne_true]
        exact hrest

end Isolated

end DSearch.Isolation
