import Mathlib

/-! # Events in windows of time

How many events of a list fall into any interval of a given length, and the groups that a window makes
which begins with an event, ends after that length, and begins anew with the next event. -/

namespace DSearch.Windows
set_option autoImplicit false

/-- The interval that begins at `u`, its end left out. -/
def within (u w t : ℕ) : Bool := u ≤ t ∧ t < u + w

theorem within_iff (u w t : ℕ) : within u w t = true ↔ u ≤ t ∧ t < u + w := by
  simp [within]

def AtMost (n w : ℕ) (times : List ℕ) : Prop :=
  ∀ u, times.countP (within u w) ≤ n

/-- Each time and the `n`-th after it are not in one interval. -/
def Spaced (n w : ℕ) (times : List ℕ) : Prop :=
  ∀ p ∈ times.zip (times.drop n), p.1 + w ≤ p.2

instance (n w : ℕ) (times : List ℕ) : Decidable (Spaced n w times) :=
  inferInstanceAs (Decidable (∀ p ∈ times.zip (times.drop n), p.1 + w ≤ p.2))

theorem spaced_iff (n w : ℕ) (times : List ℕ) :
    Spaced n w times ↔ ∀ k a b, times[k]? = some a → times[n + k]? = some b → a + w ≤ b := by
  constructor
  · intro h k a b ha hb
    apply h (a, b)
    rw [List.mem_iff_getElem?]
    exact ⟨k, by rw [List.getElem?_zip_eq_some, List.getElem?_drop]; exact ⟨ha, hb⟩⟩
  · intro h p hp
    obtain ⟨k, hk⟩ := List.mem_iff_getElem?.mp hp
    rw [List.getElem?_zip_eq_some, List.getElem?_drop] at hk
    exact h k p.1 p.2 hk.1 hk.2

theorem AtMost.of_sublist {n w : ℕ} {times times' : List ℕ} (h : AtMost n w times)
    (hsub : List.Sublist times' times) : AtMost n w times' :=
  fun u => (hsub.countP_le).trans (h u)

theorem atMost_of_length {n w : ℕ} {times : List ℕ} (h : times.length ≤ n) : AtMost n w times :=
  fun _ => List.countP_le_length.trans h

theorem AtMost.spaced {n w : ℕ} {times : List ℕ} (h : AtMost n w times)
    (hsorted : times.Pairwise (· ≤ ·)) : Spaced n w times := by
  rw [spaced_iff]
  intro k a b ha hb
  by_contra hlt
  obtain ⟨hk, ha⟩ := List.getElem?_eq_some_iff.mp ha
  obtain ⟨hkn, hb⟩ := List.getElem?_eq_some_iff.mp hb
  have hsub : List.Sublist ((times.drop k).take (n + 1)) times :=
    (List.take_sublist _ _).trans (List.drop_sublist _ _)
  have hlength : ((times.drop k).take (n + 1)).length = n + 1 := by
    rw [List.length_take, List.length_drop]
    omega
  have hall : ∀ t ∈ (times.drop k).take (n + 1), within a w t = true := by
    intro t ht
    obtain ⟨j, hj, rfl⟩ := List.mem_iff_getElem.mp ht
    rw [hlength] at hj
    rw [List.getElem_take, List.getElem_drop, within_iff, ← ha]
    have hle : times[k] ≤ times[k + j] := hsorted.rel_get_of_le (a := ⟨k, hk⟩) (b := ⟨k + j, by omega⟩)
      (by simp)
    have hle' : times[k + j] ≤ times[n + k] :=
      hsorted.rel_get_of_le (a := ⟨k + j, by omega⟩) (b := ⟨n + k, hkn⟩) (by simp; omega)
    omega
  have hcount := h.of_sublist hsub a
  rw [List.countP_eq_length.mpr hall, hlength] at hcount
  omega

theorem Spaced.tail {n w t : ℕ} {times : List ℕ} (h : Spaced n w (t :: times)) :
    Spaced n w times := by
  rw [spaced_iff] at h ⊢
  intro k a b ha hb
  exact h (k + 1) a b (by rw [List.getElem?_cons_succ]; exact ha)
    (by rw [← Nat.add_assoc, List.getElem?_cons_succ]; exact hb)

theorem Spaced.atMost {n w : ℕ} {times : List ℕ} (h : Spaced n w times)
    (hsorted : times.Pairwise (· ≤ ·)) : AtMost n w times := by
  intro u
  induction times with
  | nil => simp
  | cons t times ih =>
    have hrest := ih h.tail hsorted.of_cons
    by_cases ht : within u w t = true
    · -- From the `n`-th after `t` on, all are past the interval.
      have hpast : ((t :: times).drop n).countP (within u w) = 0 := by
        rw [List.countP_eq_zero]
        intro b hb
        obtain ⟨j, hj⟩ := List.mem_iff_getElem?.mp hb
        rw [List.getElem?_drop] at hj
        obtain ⟨hlt, hj⟩ := List.getElem?_eq_some_iff.mp hj
        have hn : n < (t :: times).length := by omega
        have hfirst := (spaced_iff n w _).mp h 0 t (t :: times)[n] rfl
          (by rw [Nat.add_zero]; exact List.getElem?_eq_getElem hn)
        have hle : (t :: times)[n] ≤ (t :: times)[n + j] :=
          hsorted.rel_get_of_le (a := ⟨n, by omega⟩) (b := ⟨n + j, hlt⟩) (by simp)
        rw [within_iff] at ht ⊢
        omega
      calc (t :: times).countP (within u w)
          = ((t :: times).take n).countP (within u w) + ((t :: times).drop n).countP (within u w) := by
            rw [← List.countP_append, List.take_append_drop]
        _ ≤ n := by
            rw [hpast, Nat.add_zero]
            exact List.countP_le_length.trans (List.length_take_le _ _)
    · rw [List.countP_cons_of_neg ht]
      exact hrest

theorem atMost_iff_spaced {n w : ℕ} {times : List ℕ} (hsorted : times.Pairwise (· ≤ ·)) :
    AtMost n w times ↔ Spaced n w times :=
  ⟨fun h => h.spaced hsorted, fun h => h.atMost hsorted⟩

/-! ## Groups -/

/-- A group is a time with the times after it that are less than `w` later. -/
def groups (w : ℕ) : List ℕ → List (List ℕ)
  | [] => []
  | t :: rest => (t :: rest.takeWhile (· < t + w)) :: groups w (rest.dropWhile (· < t + w))
termination_by times => times.length
decreasing_by
  exact Nat.lt_succ_of_le (List.dropWhile_suffix _).length_le

theorem groups_nil (w : ℕ) : groups w [] = [] := by rw [groups]

theorem groups_cons (w t : ℕ) (rest : List ℕ) :
    groups w (t :: rest) =
      (t :: rest.takeWhile (· < t + w)) :: groups w (rest.dropWhile (· < t + w)) := by
  rw [groups]

/-- The pairs of a group and the one after it. -/
def adjacent (w : ℕ) (times : List ℕ) : List (List ℕ × List ℕ) :=
  (groups w times).zip (groups w times).tail

theorem mem_of_mem_groups {w : ℕ} {times g : List ℕ} {t : ℕ} (hg : g ∈ groups w times)
    (ht : t ∈ g) : t ∈ times := by
  fun_induction groups w times with
  | case1 => simp at hg
  | case2 s rest ih =>
    rcases List.mem_cons.mp hg with rfl | hg
    · rcases List.mem_cons.mp ht with rfl | ht
      · exact List.mem_cons_self
      · exact List.mem_cons_of_mem s ((List.takeWhile_prefix _).subset ht)
    · exact List.mem_cons_of_mem s ((List.dropWhile_suffix _).subset (ih hg))

theorem le_of_mem_dropWhile {b : ℕ} {times : List ℕ} (hsorted : times.Pairwise (· ≤ ·)) {t : ℕ}
    (ht : t ∈ times.dropWhile (· < b)) : b ≤ t := by
  cases hd : times.dropWhile (· < b) with
  | nil => rw [hd] at ht; simp at ht
  | cons d ds =>
    have hhead := List.head?_dropWhile_not (fun t => decide (t < b)) times
    rw [hd] at hhead ht
    have hdb : b ≤ d := by simpa using hhead
    have hds : (d :: ds).Pairwise (· ≤ ·) := hd ▸ hsorted.sublist (List.dropWhile_sublist _)
    rcases List.mem_cons.mp ht with rfl | ht
    · exact hdb
    · exact hdb.trans (List.rel_of_pairwise_cons hds ht)

theorem lt_of_mem_group {w s : ℕ} {rest : List ℕ} (hw : 0 < w) {t : ℕ}
    (ht : t ∈ s :: rest.takeWhile (· < s + w)) : t < s + w := by
  rcases List.mem_cons.mp ht with rfl | ht
  · omega
  · simpa using List.mem_takeWhile_imp ht

theorem AtMost.append {n w : ℕ} {a b c : List ℕ} (hab : AtMost n w (a ++ b))
    (hbc : AtMost n w (b ++ c)) (hac : ∀ s ∈ a, ∀ t ∈ c, s + w ≤ t) :
    AtMost n w (a ++ (b ++ c)) := by
  intro u
  by_cases ha : ∃ s ∈ a, within u w s = true
  · obtain ⟨s, hs, hsu⟩ := ha
    have hc : c.countP (within u w) = 0 := by
      rw [List.countP_eq_zero]
      intro t ht
      have := hac s hs t ht
      rw [within_iff] at hsu ⊢
      omega
    have := hab u
    rw [List.countP_append] at this
    rw [List.countP_append, List.countP_append, hc]
    omega
  · have ha : a.countP (within u w) = 0 := by
      rw [List.countP_eq_zero]
      exact fun s hs hsu => ha ⟨s, hs, hsu⟩
    rw [List.countP_append, ha, Nat.zero_add]
    exact hbc u

/-- When at most the first `n` of each group are kept, an interval that holds more than `n` of them
holds them from two adjacent groups. -/
theorem atMost_groups_iff {n w : ℕ} {times : List ℕ} (hsorted : times.Pairwise (· ≤ ·)) :
    AtMost n w ((groups w times).flatMap (List.take n)) ↔
      ∀ p ∈ adjacent w times, AtMost n w (p.1.take n ++ p.2.take n) := by
  unfold adjacent
  fun_induction groups w times with
  | case1 => simp [AtMost]
  | case2 s rest ih =>
    have hrest : (rest.dropWhile (· < s + w)).Pairwise (· ≤ ·) :=
      hsorted.of_cons.sublist (List.dropWhile_sublist _)
    cases hnext : rest.dropWhile (· < s + w) with
    | nil =>
      rw [groups_nil]
      simpa using atMost_of_length (List.length_take_le _ _)
    | cons s' rest' =>
      have ih := ih hrest
      rw [hnext, groups_cons, List.tail_cons] at ih
      rw [groups_cons, List.tail_cons, List.zip_cons_cons, List.forall_mem_cons, ← ih,
        List.flatMap_cons, List.flatMap_cons]
      constructor
      · intro h
        constructor
        · exact h.of_sublist ((List.Sublist.refl _).append (List.sublist_append_left _ _))
        · exact h.of_sublist (List.sublist_append_right _ _)
      · rintro ⟨hpair, hlater⟩
        by_cases hw : 0 < w
        · apply AtMost.append hpair hlater
          intro a ha b hb
          -- Two groups on, the times are more than one interval later.
          obtain ⟨g, hg, hb⟩ := List.mem_flatMap.mp hb
          have ha : a < s + w := lt_of_mem_group hw (List.mem_of_mem_take ha)
          have hs' : s + w ≤ s' := le_of_mem_dropWhile hsorted.of_cons (by rw [hnext]; simp)
          have hb : s' + w ≤ b := le_of_mem_dropWhile (hnext ▸ hrest).of_cons
            (mem_of_mem_groups hg (List.mem_of_mem_take hb))
          omega
        · intro u
          rw [List.countP_eq_zero.mpr]
          · exact Nat.zero_le n
          · intro t _
            rw [within_iff]
            omega

theorem flatten_groups (w : ℕ) (times : List ℕ) : (groups w times).flatten = times := by
  fun_induction groups w times with
  | case1 => rfl
  | case2 s rest ih => rw [List.flatten_cons, ih, List.cons_append, List.takeWhile_append_dropWhile]

theorem append_sublist_flatten {gs : List (List ℕ)} {p : List ℕ × List ℕ} (hp : p ∈ gs.zip gs.tail) :
    List.Sublist (p.1 ++ p.2) gs.flatten := by
  induction gs with
  | nil => simp at hp
  | cons g gs ih =>
    cases gs with
    | nil => simp at hp
    | cons g' gs =>
      rw [List.tail_cons, List.zip_cons_cons] at hp
      rcases List.mem_cons.mp hp with rfl | hp
      · rw [List.flatten_cons, List.flatten_cons]
        exact (List.Sublist.refl _).append (List.sublist_append_left _ _)
      · exact (ih hp).trans (List.sublist_append_right _ _)

theorem atMost_groups_iff_spaced {n w : ℕ} {times : List ℕ} (hsorted : times.Pairwise (· ≤ ·)) :
    AtMost n w ((groups w times).flatMap (List.take n)) ↔
      ∀ p ∈ adjacent w times, Spaced n w (p.1.take n ++ p.2.take n) := by
  rw [atMost_groups_iff hsorted]
  apply forall₂_congr
  intro p hp
  apply atMost_iff_spaced
  have hsub := append_sublist_flatten hp
  rw [flatten_groups] at hsub
  exact hsorted.sublist
    (((List.take_sublist n p.1).append (List.take_sublist n p.2)).trans hsub)

end DSearch.Windows
