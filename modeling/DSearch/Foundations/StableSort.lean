import Mathlib

/-! # Stable sorting and prefixes of a sorted list

A stable sort by a key orders equal keys as the input does, so if the input is strictly ordered the
output is strictly ordered by key and then input order. In a strictly ordered list the elements
before `x` are the ones that are less than `x`, whatever the list was before sorting. -/

namespace DSearch.StableSort
set_option autoImplicit false

variable {α : Type} (key : α → ℕ) {lt : α → α → Prop}

def KeyThen (lt : α → α → Prop) (a b : α) : Prop := key a < key b ∨ key a = key b ∧ lt a b

theorem pairwise_orderedInsert (a : α) (l : List α) (ha : ∀ b ∈ l, lt a b)
    (hl : l.Pairwise (KeyThen key lt)) :
    (l.orderedInsert (fun a b => key a ≤ key b) a).Pairwise (KeyThen key lt) := by
  induction l with
  | nil => simp
  | cons b l ih =>
    obtain ⟨hb, hl⟩ := List.pairwise_cons.mp hl
    rw [List.orderedInsert_cons]
    split
    · next hle =>
      have hab : KeyThen key lt a b := by
        rcases Nat.lt_or_eq_of_le hle with h | h
        · exact .inl h
        · exact .inr ⟨h, ha b List.mem_cons_self⟩
      have hall : ∀ c ∈ b :: l, KeyThen key lt a c := by
        intro c hc
        rcases List.mem_cons.mp hc with rfl | hc
        · exact hab
        · have hkey : key b ≤ key c := (hb c hc).elim le_of_lt fun h => h.1.le
          rcases Nat.lt_or_eq_of_le (hle.trans hkey) with h | h
          · exact .inl h
          · exact .inr ⟨h, ha c (List.mem_cons_of_mem b hc)⟩
      exact List.pairwise_cons.mpr ⟨hall, List.pairwise_cons.mpr ⟨hb, hl⟩⟩
    · next hgt =>
      have hrest := ih (fun c hc => ha c (List.mem_cons_of_mem b hc)) hl
      have hall : ∀ c ∈ l.orderedInsert (fun a b => key a ≤ key b) a, KeyThen key lt b c := by
        intro c hc
        rcases List.mem_cons.mp ((List.perm_orderedInsert _ a l).mem_iff.mp hc) with rfl | hc
        · exact .inl (not_le.mp hgt)
        · exact hb c hc
      exact List.pairwise_cons.mpr ⟨hall, hrest⟩

/-- A stable sort of a list that is ordered by `lt` is ordered by key and then `lt`. -/
theorem pairwise_insertionSort (l : List α) (hl : l.Pairwise lt) :
    (l.insertionSort fun a b => key a ≤ key b).Pairwise (KeyThen key lt) := by
  induction l with
  | nil => simp
  | cons a l ih =>
    obtain ⟨ha, hl⟩ := List.pairwise_cons.mp hl
    have hsorted : ∀ b ∈ l.insertionSort fun a b => key a ≤ key b, lt a b := by
      intro b hb
      exact ha b ((List.perm_insertionSort _ l).mem_iff.mp hb)
    rw [List.insertionSort_cons]
    exact pairwise_orderedInsert key a _ hsorted (ih hl)

/-- In a strictly ordered list, what stands before an element is what is less than it. -/
theorem filter_lt_eq_prefix [DecidableRel lt] (hirrefl : ∀ a, ¬ lt a a)
    (hasymm : ∀ a b, lt a b → ¬ lt b a) {l pre post : List α} {x : α} (hl : l.Pairwise lt)
    (hsplit : l = pre ++ x :: post) : l.filter (fun a => decide (lt a x)) = pre := by
  subst hsplit
  obtain ⟨-, hpost, hpre⟩ := List.pairwise_append.mp hl
  have hbefore : pre.filter (fun a => decide (lt a x)) = pre := by
    apply List.filter_eq_self.mpr
    intro a ha
    simpa using hpre a ha x List.mem_cons_self
  have hafter : post.filter (fun a => decide (lt a x)) = [] := by
    apply List.filter_eq_nil_iff.mpr
    intro a ha
    simpa using hasymm x a ((List.pairwise_cons.mp hpost).1 a ha)
  simp [List.filter_append, hbefore, hafter, hirrefl x]

/-! ## Sorting by a key of any order -/

section
variable {κ : Type} [LinearOrder κ] (rank : α → κ)

theorem sorted_insertionSort (l : List α) :
    (l.insertionSort fun a b => rank a ≤ rank b).Pairwise fun a b => rank a ≤ rank b := by
  have : Std.Total fun a b => rank a ≤ rank b := ⟨fun a b => le_total (rank a) (rank b)⟩
  have : IsTrans α fun a b => rank a ≤ rank b := ⟨fun _ _ _ => le_trans⟩
  exact List.pairwise_insertionSort _ l

/-- A stable sort leaves the elements of each key as they are. -/
theorem filter_insertionSort (k : κ) (l : List α) :
    (l.insertionSort fun a b => rank a ≤ rank b).filter (fun a => rank a = k) =
      l.filter fun a => rank a = k := by
  have : Std.Total fun a b => rank a ≤ rank b := ⟨fun a b => le_total (rank a) (rank b)⟩
  have : IsTrans α fun a b => rank a ≤ rank b := ⟨fun _ _ _ => le_trans⟩
  have hequal : (l.filter fun a => rank a = k).Pairwise fun a b => rank a ≤ rank b := by
    refine List.pairwise_iff_forall_sublist.mpr fun {a b} hpair => ?_
    have ha := List.of_mem_filter (hpair.subset (List.mem_cons_self))
    have hb := List.of_mem_filter (hpair.subset (List.mem_cons_of_mem a List.mem_cons_self))
    rw [of_decide_eq_true ha, of_decide_eq_true hb]
  have hsub : (l.filter fun a => rank a = k).Sublist (l.insertionSort fun a b => rank a ≤ rank b) :=
    List.sublist_insertionSort hequal List.filter_sublist
  have hkept := hsub.filter fun a => rank a = k
  rw [List.filter_filter] at hkept
  simp only [Bool.and_self] at hkept
  have hlen := ((List.perm_insertionSort (fun a b => rank a ≤ rank b) l).filter
    fun a => rank a = k).length_eq
  exact (hkept.eq_of_length hlen.symm).symm

/-- A sorted list is told by its elements of each key. -/
theorem eq_of_filter_eq {l l' : List α} (hl : l.Pairwise fun a b => rank a ≤ rank b)
    (hl' : l'.Pairwise fun a b => rank a ≤ rank b)
    (h : ∀ k, l.filter (fun a => rank a = k) = l'.filter fun a => rank a = k) : l = l' := by
  induction l generalizing l' with
  | nil =>
    cases l' with
    | nil => rfl
    | cons b l' => exact absurd (h (rank b)) (by simp)
  | cons a l ih =>
    cases l' with
    | nil => exact absurd (h (rank a)) (by simp)
    | cons b l' =>
      obtain ⟨ha, htail⟩ := List.pairwise_cons.mp hl
      obtain ⟨hb, htail'⟩ := List.pairwise_cons.mp hl'
      -- each head is in the other list, so the keys of the heads are equal
      have hfirst : a ∈ b :: l' := by
        have hmem : a ∈ (a :: l).filter fun c => rank c = rank a := by simp
        rw [h] at hmem
        exact List.mem_of_mem_filter hmem
      have hfirst' : b ∈ a :: l := by
        have hmem : b ∈ (b :: l').filter fun c => rank c = rank b := by simp
        rw [← h] at hmem
        exact List.mem_of_mem_filter hmem
      have hle : rank b ≤ rank a := by
        rcases List.mem_cons.mp hfirst with rfl | hmem
        · exact le_refl _
        · exact hb a hmem
      have hge : rank a ≤ rank b := by
        rcases List.mem_cons.mp hfirst' with rfl | hmem
        · exact le_refl _
        · exact ha b hmem
      have hrank : rank a = rank b := le_antisymm hge hle
      have hheads := h (rank a)
      rw [List.filter_cons_of_pos (by simp), List.filter_cons_of_pos (by simp [hrank])] at hheads
      obtain ⟨rfl, htails⟩ := List.cons.inj hheads
      refine congrArg (a :: ·) (ih htail htail' fun k => ?_)
      by_cases hk : rank a = k
      · rw [← hk]
        exact htails
      · have hrest := h k
        rwa [List.filter_cons_of_neg (by simpa using hk),
          List.filter_cons_of_neg (by simpa using hk)] at hrest

theorem insertionSort_eq_iff (l l' : List α) :
    (l.insertionSort fun a b => rank a ≤ rank b) = (l'.insertionSort fun a b => rank a ≤ rank b) ↔
      ∀ k, l.filter (fun a => rank a = k) = l'.filter fun a => rank a = k := by
  constructor
  · intro h k
    rw [← filter_insertionSort rank k l, h, filter_insertionSort]
  · intro h
    refine eq_of_filter_eq rank (sorted_insertionSort rank l) (sorted_insertionSort rank l')
      fun k => ?_
    rw [filter_insertionSort, filter_insertionSort, h]

/-- An element of the greatest key after which no other comes is sorted to the end. -/
theorem insertionSort_append_last {front back : List α} {a : α}
    (hfront : ∀ b ∈ front, rank b ≤ rank a) (hback : ∀ b ∈ back, rank b < rank a) :
    (front ++ a :: back).insertionSort (fun a b => rank a ≤ rank b) =
      (front ++ back).insertionSort (fun a b => rank a ≤ rank b) ++ [a] := by
  refine eq_of_filter_eq rank (sorted_insertionSort rank _) ?_ fun k => ?_
  · refine List.pairwise_append.mpr
      ⟨sorted_insertionSort rank _, List.pairwise_singleton _ a, ?_⟩
    intro b hb c hc
    rw [List.mem_singleton.mp hc]
    rcases List.mem_append.mp ((List.mem_insertionSort _).mp hb) with hb | hb
    · exact hfront b hb
    · exact (hback b hb).le
  · rw [filter_insertionSort, List.filter_append, List.filter_append, filter_insertionSort,
      List.filter_append]
    by_cases hk : rank a = k
    · have hnone : back.filter (fun b => rank b = k) = [] := by
        refine List.filter_eq_nil_iff.mpr fun b hb => ?_
        simpa [← hk] using (hback b hb).ne
      rw [List.filter_cons_of_pos (by simpa using hk), hnone, List.append_nil]
      simp [hk]
    · rw [List.filter_cons_of_neg (by simpa using hk)]
      simp [hk]

theorem exists_last {l : List α} (h : l ≠ []) : ∃ front a back, l = front ++ a :: back ∧
    (∀ b ∈ front, rank b ≤ rank a) ∧ ∀ b ∈ back, rank b < rank a := by
  induction l with
  | nil => exact absurd rfl h
  | cons c l ih =>
    cases l with
    | nil => exact ⟨[], c, [], rfl, by simp, by simp⟩
    | cons d l =>
      obtain ⟨front, a, back, hl, hfront, hback⟩ := ih (List.cons_ne_nil d l)
      rw [hl]
      rcases le_or_gt (rank c) (rank a) with hle | hgt
      · refine ⟨c :: front, a, back, rfl, ?_, hback⟩
        intro b hb
        rcases List.mem_cons.mp hb with rfl | hb
        · exact hle
        · exact hfront b hb
      · refine ⟨[], c, front ++ a :: back, rfl, by simp, ?_⟩
        intro b hb
        rcases List.mem_append.mp hb with hb | hb
        · exact (hfront b hb).trans_lt hgt
        · rcases List.mem_cons.mp hb with rfl | hb
          · exact hgt
          · exact (hback b hb).trans hgt

end

end DSearch.StableSort
