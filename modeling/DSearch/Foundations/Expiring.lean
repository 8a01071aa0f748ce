import DSearch.Foundations.Isolation

/-! # Entries that run out

A store keeps an entry for each of its users, and an entry counts until its end. Where the operations of
one user depend on its entry only while it counts, and the others leave it alone as long as it would,
the user is answered as if it were alone: an entry that has run out, one that was removed and one that
was never made are the same from then on. -/

namespace DSearch.Expiring
open Runs Isolation
set_option autoImplicit false

variable {σ ο ρ β κ : Type*} {step : ο → σ → σ × ρ} {time : ο → ℕ} {own : ο → Bool}
  {fixed : σ → κ} {entry : σ → Option β} {ends : β → ℕ}

/-- The entry, if it has not run out. -/
def live (entry : σ → Option β) (ends : β → ℕ) (s : σ) (now : ℕ) : Option β :=
  (entry s).filter fun b => decide (now < ends b)

theorem live_cases (entry : σ → Option β) (ends : β → ℕ) (s : σ) (now : ℕ) :
    (∃ b, entry s = some b ∧ now < ends b ∧ live entry ends s now = some b) ∨
      (∀ b, entry s = some b → ends b ≤ now) ∧ live entry ends s now = none := by
  unfold live
  cases hentry : entry s with
  | none => exact .inr ⟨fun b h => absurd h (Option.some_ne_none b).symm, rfl⟩
  | some b =>
    by_cases hnow : now < ends b
    · exact .inl ⟨b, rfl, hnow, by simp [hnow]⟩
    · have hended : ends b ≤ now := Nat.not_lt.mp hnow
      exact .inr ⟨fun b' h => Option.some.inj h ▸ hended, by simpa using hended⟩

/-- The entry, or a new one in its place; where there is none, the default is new or has run out. -/
theorem live_getD (entry : σ → Option β) (ends : β → ℕ) (s : σ) (now : ℕ) {default new : β}
    (h : default = new ∨ ends default ≤ now) :
    (if ends ((entry s).getD default) ≤ now then new else (entry s).getD default) =
      (live entry ends s now).getD new := by
  rcases live_cases entry ends s now with ⟨b, hentry, hnow, hlive⟩ | ⟨hover, hlive⟩
  · rw [hlive, hentry]
    exact if_neg (Nat.not_le.mpr hnow)
  · rw [hlive, Option.getD_none]
    cases hentry : entry s with
    | some b => exact if_pos (hover b hentry)
    | none =>
      rcases h with rfl | hended
      · exact ite_self _
      · exact if_pos hended

/-- What is computed of the entry, with one value for none and for one that has run out. -/
theorem live_elim {γ : Type*} (entry : σ → Option β) (ends : β → ℕ) (s : σ) (now : ℕ) (absent : γ)
    (f : β → γ) :
    ((live entry ends s now).map f).getD absent =
      (entry s).elim absent fun b => if ends b ≤ now then absent else f b := by
  rcases live_cases entry ends s now with ⟨b, hentry, hnow, hlive⟩ | ⟨hover, hlive⟩
  · rw [hlive, hentry]
    exact (if_neg (Nat.not_le.mpr hnow)).symm
  · rw [hlive]
    cases hentry : entry s with
    | none => rfl
    | some b => exact (if_pos (hover b hentry)).symm

theorem live_filter (s : σ) {now later : ℕ} (hle : now ≤ later) :
    (live entry ends s now).filter (fun b => decide (later < ends b)) = live entry ends s later := by
  rcases live_cases entry ends s now with ⟨b, hentry, -, hlive⟩ | ⟨hover, hlive⟩
  · rw [hlive, live, hentry]
  · rw [hlive]
    rcases live_cases entry ends s later with ⟨b, hentry, hlater, -⟩ | ⟨-, hgone⟩
    · have hended := hover b hentry
      omega
    · rw [hgone, Option.filter_none]

theorem live_later {s s' : σ} {now later : ℕ} (hle : now ≤ later)
    (h : live entry ends s now = live entry ends s' now) :
    live entry ends s later = live entry ends s' later := by
  rw [← live_filter s hle, ← live_filter s' hle, h]

theorem live_congr {s s' : σ} (h : entry s = entry s') (now : ℕ) :
    live entry ends s now = live entry ends s' now := by
  rw [live, live, h]

/-- What the operations do to the entry of the user, and what is fixed for all operations. -/
structure Apart (step : ο → σ → σ × ρ) (time : ο → ℕ) (own : ο → Bool) (fixed : σ → κ)
    (entry : σ → Option β) (ends : β → ℕ) : Prop where
  keeps : ∀ op s, fixed (step op s).1 = fixed s
  own_step : ∀ op s s', own op = true → fixed s = fixed s' →
    live entry ends s (time op) = live entry ends s' (time op) →
    (step op s).2 = (step op s').2 ∧
      live entry ends (step op s).1 (time op) = live entry ends (step op s').1 (time op)
  other_step : ∀ op s, own op = false →
    live entry ends (step op s).1 (time op) = live entry ends s (time op)

/-- Where the clock does not go back, the user is answered as in the run of its own operations. -/
theorem Apart.answers_eq (h : Apart step time own fixed entry ends) {ops : List ο} {now : ℕ}
    (hsorted : (now :: ops.map time).Pairwise (· ≤ ·)) {s s' : σ} (hfixed : fixed s = fixed s')
    (hlive : live entry ends s now = live entry ends s' now) :
    answers step own ops s = (runAll step (ops.filter own) s').2 := by
  induction ops generalizing now s s' with
  | nil => rfl
  | cons op ops ih =>
    have hle : now ≤ time op := List.rel_of_pairwise_cons hsorted List.mem_cons_self
    have hnow := live_later hle hlive
    cases hown : own op with
    | true =>
      obtain ⟨hanswer, hafter⟩ := h.own_step op s s' hown hfixed hnow
      have hkept : fixed (step op s).1 = fixed (step op s').1 := by
        rw [h.keeps, h.keeps, hfixed]
      rw [answers, if_pos hown, List.filter_cons_of_pos hown, runAll_cons, hanswer,
        ih hsorted.of_cons hkept hafter]
    | false =>
      rw [answers, hown, if_neg Bool.false_ne_true,
        List.filter_cons_of_neg (Bool.eq_false_iff.mp hown)]
      refine ih hsorted.of_cons ((h.keeps op s).trans hfixed) ?_
      rw [h.other_step op s hown, hnow]

/-- The user is answered as if it were alone, and so are two runs in which it does the same. -/
structure KeepsApart (step : ο → σ → σ × ρ) (time : ο → ℕ) (own : ο → Bool) : Prop where
  alone : ∀ (s : σ) (ops : List ο), (ops.map time).Pairwise (· ≤ ·) →
    answers step own ops s = (runAll step (ops.filter own) s).2
  same : ∀ (s : σ) (ops ops' : List ο), (ops.map time).Pairwise (· ≤ ·) →
    (ops'.map time).Pairwise (· ≤ ·) → ops.filter own = ops'.filter own →
    answers step own ops s = answers step own ops' s

theorem Apart.keepsApart (h : Apart step time own fixed entry ends) : KeepsApart step time own := by
  have halone : ∀ (s : σ) (ops : List ο), (ops.map time).Pairwise (· ≤ ·) →
      answers step own ops s = (runAll step (ops.filter own) s).2 := by
    intro s ops hsorted
    have hzero : (0 :: ops.map time).Pairwise (· ≤ ·) :=
      List.pairwise_cons.mpr ⟨fun t _ => Nat.zero_le t, hsorted⟩
    exact h.answers_eq hzero rfl rfl
  refine ⟨halone, fun s ops ops' hsorted hsorted' hown => ?_⟩
  rw [halone s ops hsorted, halone s ops' hsorted', hown]

end DSearch.Expiring
