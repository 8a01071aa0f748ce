import Mathlib

/-! # Newest wins

A map keeps one value under each key. A value that is offered to it takes the place of an older one
under its key and gives way to one that is as new or newer. Without ties the order in which values
are offered does not matter: each key ends with its newest value. With ties the first of the newest
stays. -/

namespace DSearch.NewestWins
set_option autoImplicit false

variable {κ α : Type} [DecidableEq κ] (key : α → κ) (stamp : α → ℕ)

/-- Keep the newer of `a` and what is kept under its key; what is there wins a tie. -/
def offer (m : κ → Option α) (a : α) : κ → Option α :=
  match m (key a) with
  | some present =>
    if stamp a ≤ stamp present then m else Function.update m (key a) (some a)
  | none => Function.update m (key a) (some a)

/-- Two values of one key are the same value or differ in age. -/
def NoTies (l : List α) : Prop :=
  ∀ a ∈ l, ∀ b ∈ l, key a = key b → stamp a = stamp b → a = b

theorem offer_apply (m : κ → Option α) (a : α) (k : κ) :
    offer key stamp m a k =
      if k = key a ∧ ∀ present, m k = some present → stamp present < stamp a then some a
      else m k := by
  unfold offer
  by_cases hk : k = key a
  · subst hk
    cases hm : m (key a) with
    | none => simp
    | some present =>
      by_cases hle : stamp a ≤ stamp present
      · simp [hle, hm, Nat.not_lt.mpr hle]
      · simp [hle, Nat.not_le.mp hle]
  · cases m (key a) with
    | none => simp [hk]
    | some present => by_cases hle : stamp a ≤ stamp present <;> simp [hle, hk]

/-- Something as new is there under the key of `a`. -/
def Kept (m : κ → Option α) (a : α) : Prop :=
  ∃ kept, m (key a) = some kept ∧ stamp a ≤ stamp kept

/-- What is kept under a key is not taken away for something older. -/
theorem offer_keeps {m : κ → Option α} {k : κ} {present : α} (h : m k = some present) (a : α) :
    ∃ kept, offer key stamp m a k = some kept ∧ stamp present ≤ stamp kept := by
  rw [offer_apply]
  split
  · next hnewer => exact ⟨a, rfl, le_of_lt (hnewer.2 present h)⟩
  · exact ⟨present, h, le_rfl⟩

/-- What is offered is kept, or something as new is. -/
theorem offer_self (m : κ → Option α) (a : α) : Kept key stamp (offer key stamp m a) a := by
  unfold Kept
  rw [offer_apply]
  split
  · exact ⟨a, rfl, le_rfl⟩
  · next hnot =>
    simp only [true_and, not_forall, not_lt] at hnot
    obtain ⟨present, hpresent, hle⟩ := hnot
    exact ⟨present, hpresent, hle⟩

theorem Kept.foldl_offer {m : κ → Option α} {a : α} (h : Kept key stamp m a) (l : List α) :
    Kept key stamp (l.foldl (offer key stamp) m) a := by
  induction l generalizing m with
  | nil => exact h
  | cons b l ih =>
    obtain ⟨present, hpresent, hle⟩ := h
    obtain ⟨kept, hkept, hle'⟩ := offer_keeps key stamp hpresent b
    exact ih ⟨kept, hkept, hle.trans hle'⟩

theorem kept_foldl_offer (m : κ → Option α) {l : List α} {a : α} (ha : a ∈ l) :
    Kept key stamp (l.foldl (offer key stamp) m) a := by
  obtain ⟨before, after, rfl⟩ := List.append_of_mem ha
  rw [List.foldl_append, List.foldl_cons]
  exact (offer_self key stamp _ a).foldl_offer key stamp after

theorem offer_of_kept {m : κ → Option α} {a : α} (h : Kept key stamp m a) :
    offer key stamp m a = m := by
  obtain ⟨kept, hkept, hle⟩ := h
  unfold offer
  rw [hkept]
  exact if_pos hle

/-- What is offered again changes nothing. -/
theorem foldl_offer_of_kept {m : κ → Option α} {l : List α} (h : ∀ a ∈ l, Kept key stamp m a) :
    l.foldl (offer key stamp) m = m := by
  induction l with
  | nil => rfl
  | cons a l ih =>
    rw [List.foldl_cons, offer_of_kept key stamp (h a List.mem_cons_self)]
    exact ih fun b hb => h b (List.mem_cons_of_mem a hb)

theorem offer_comm (m : κ → Option α) {a b : α}
    (hties : key a = key b → stamp a = stamp b → a = b) :
    offer key stamp (offer key stamp m a) b = offer key stamp (offer key stamp m b) a := by
  funext k
  simp only [offer_apply]
  grind

theorem foldl_offer_perm {l₁ l₂ : List α} (hperm : l₁.Perm l₂) (hties : NoTies key stamp l₁)
    (m : κ → Option α) : l₁.foldl (offer key stamp) m = l₂.foldl (offer key stamp) m := by
  have hcomm : ∀ a ∈ l₁, ∀ b ∈ l₁, ∀ m,
      offer key stamp (offer key stamp m a) b = offer key stamp (offer key stamp m b) a := by
    intro a ha b hb m
    exact offer_comm key stamp m (hties a ha b hb)
  exact hperm.foldl_eq' hcomm m

/-- A key ends with the newest of what was there and what was offered; of equally new ones, the first. -/
theorem foldl_offer_eq_argmax (m : κ → Option α) (l : List α) (k : κ) :
    l.foldl (offer key stamp) m k =
      ((m k).toList ++ l.filter fun a => key a = k).argmax stamp := by
  induction l using List.reverseRecOn with
  | nil => cases hm : m k <;> simp [hm]
  | append_singleton l b ih =>
    rw [List.foldl_append, List.foldl_cons, List.foldl_nil, offer_apply, ih, List.filter_append,
      ← List.append_assoc]
    by_cases hk : key b = k
    · have hlast : [b].filter (fun a => key a = k) = [b] := by simp [hk]
      rw [hlast, List.argmax_concat]
      cases ((m k).toList ++ l.filter fun a => key a = k).argmax stamp with
      | none => simp [hk]
      | some present => simp [hk]
    · have hlast : [b].filter (fun a => key a = k) = [] := by simp [hk]
      rw [hlast, List.append_nil, if_neg fun h => hk h.1.symm]

/-- The first of a list is its first newest value if nothing after it is newer. -/
theorem argmax_cons_eq_head_iff {a : α} {l : List α} :
    (a :: l).argmax stamp = some a ↔ ∀ b ∈ l, stamp b ≤ stamp a := by
  constructor
  · exact fun h b hb => List.le_of_mem_argmax (List.mem_cons_of_mem a hb) h
  · intro h
    rw [List.argmax_cons]
    cases hlatest : l.argmax stamp with
    | none => rfl
    | some b => exact if_neg (Nat.not_lt.mpr (h b (List.argmax_mem hlatest)))

/-- The newer of two; the first wins a tie. -/
theorem argmax_toList_append {x y : Option α} {a : α} :
    (x.toList ++ y.toList).argmax stamp = some a ↔
      (x = some a ∧ ∀ b, y = some b → stamp b ≤ stamp a) ∨
        (y = some a ∧ ∀ b, x = some b → stamp b < stamp a) := by
  cases x with
  | none => cases y <;> simp
  | some b =>
    cases y with
    | none => simp
    | some c =>
      rw [Option.toList_some, Option.toList_some, List.singleton_append, List.argmax_cons,
        List.argmax_singleton]
      by_cases hnewer : stamp b < stamp c
      · simp only [hnewer, if_true, Option.some.injEq, forall_eq']
        constructor
        · rintro rfl
          exact .inr ⟨rfl, hnewer⟩
        · rintro (⟨rfl, hle⟩ | ⟨rfl, -⟩)
          · omega
          · rfl
      · simp only [hnewer, if_false, Option.some.injEq, forall_eq']
        constructor
        · rintro rfl
          exact .inl ⟨rfl, by omega⟩
        · rintro (⟨rfl, -⟩ | ⟨rfl, hlt⟩)
          · rfl
          · omega

/-- What is kept in the end is the newest value of its key. -/
theorem foldl_offer_eq_some {l : List α} (hties : NoTies key stamp l) {k : κ} {a : α} :
    l.foldl (offer key stamp) (fun _ => none) k = some a ↔
      a ∈ l ∧ key a = k ∧ ∀ b ∈ l, key b = k → stamp b ≤ stamp a := by
  rw [foldl_offer_eq_argmax, Option.toList_none, List.nil_append]
  constructor
  · intro hlatest
    obtain ⟨ha, hk⟩ := List.mem_filter.mp (List.argmax_mem hlatest)
    refine ⟨ha, of_decide_eq_true hk, fun b hb hbk => ?_⟩
    exact List.le_of_mem_argmax (List.mem_filter.mpr ⟨hb, decide_eq_true hbk⟩) hlatest
  · rintro ⟨ha, hk, hmax⟩
    have hmem : a ∈ l.filter fun b => key b = k := List.mem_filter.mpr ⟨ha, decide_eq_true hk⟩
    cases hlatest : (l.filter fun b => key b = k).argmax stamp with
    | none =>
      rw [List.argmax_eq_none.mp hlatest] at hmem
      cases hmem
    | some b =>
      obtain ⟨hb, hbk⟩ := List.mem_filter.mp (List.argmax_mem hlatest)
      have hle : stamp a ≤ stamp b := List.le_of_mem_argmax hmem hlatest
      have hge : stamp b ≤ stamp a := hmax b hb (of_decide_eq_true hbk)
      have hkeys : key a = key b := hk.trans (of_decide_eq_true hbk).symm
      rw [hties a ha b hb hkeys (le_antisymm hle hge)]

end DSearch.NewestWins
