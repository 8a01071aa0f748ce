import DSearch.Foundations.Fields
import DSearch.Foundations.Runs

/-! # Rosters

A roster is a list of entries with keys, to which calls add entries at the end and from which they remove
every entry of a key. It may let the same key in twice, or not. What it answers for a key is its first
entry, and that does not depend on which of the two it is: the first one added since the last removal. -/

namespace DSearch.Rosters
set_option autoImplicit false
open Fields Runs

variable {α κ : Type*} [DecidableEq κ] (key : α → κ)

inductive Call (α κ : Type*) where
  | add (a : α)
  | remove (k : κ)
  deriving DecidableEq, Repr

def has (k : κ) (roster : List α) : Bool := roster.any fun a => decide (key a = k)

def first (k : κ) (roster : List α) : Option α := roster.find? fun a => decide (key a = k)

def without (k : κ) (roster : List α) : List α := roster.filter fun a => decide (key a ≠ k)

def apply (twice : Bool) (roster : List α) : Call α κ → List α
  | .add a => if twice = false ∧ has key (key a) roster = true then roster else roster ++ [a]
  | .remove k => without key k roster

/-- What a call does to the first entry of a key. -/
def hear (k : κ) (held : Option α) : Call α κ → Option α
  | .add a => if key a = k then held.or (some a) else held
  | .remove k' => if k' = k then none else held

/-- The entries whose keys are not there yet, one after the other. -/
def merge (roster extra : List α) : List α := extra.foldl (fun l a => apply key false l (.add a)) roster

variable {key} {k : κ} {roster : List α}

theorem first_isSome : (first key k roster).isSome = has key k roster := by
  unfold first has
  rw [Bool.eq_iff_iff, List.find?_isSome, List.any_eq_true]

theorem first_eq_none_iff : first key k roster = none ↔ has key k roster = false := by
  rw [← first_isSome, Option.isSome_eq_false_iff, Option.isNone_iff_eq_none]

theorem mem_of_first {a : α} (h : first key k roster = some a) : a ∈ roster ∧ key a = k := by
  unfold first at h
  exact ⟨List.mem_of_find?_eq_some h, by simpa using List.find?_some h⟩

theorem first_append (more : List α) :
    first key k (roster ++ more) = (first key k roster).or (first key k more) := List.find?_append

theorem first_without (k' : κ) :
    first key k (without key k' roster) = if k' = k then none else first key k roster := by
  unfold first without
  rw [List.find?_filter]
  split
  · next h =>
    subst h
    rw [List.find?_eq_none]
    simp
  · next h =>
    congr 1
    funext a
    by_cases ha : key a = k
    · simp [ha, Ne.symm h]
    · simp [ha]

theorem first_apply (twice : Bool) (call : Call α κ) :
    first key k (apply key twice roster call) = hear key k (first key k roster) call := by
  cases call with
  | remove k' => exact first_without k'
  | add a =>
    have hsingle : first key k [a] = if key a = k then some a else none := by
      unfold first
      by_cases ha : key a = k <;> simp [ha]
    unfold apply hear
    dsimp only
    split
    · next h =>
      split
      · next ha =>
        rw [ha, ← first_isSome] at h
        obtain ⟨b, hb⟩ := Option.isSome_iff_exists.mp h.2
        rw [hb, Option.some_or]
      · rfl
    · rw [first_append, hsingle]
      split
      · rfl
      · rw [Option.or_none]

/-- The first entry of a key is a register of its own. -/
theorem first_foldl (twice : Bool) (calls : List (Call α κ)) :
    first key k (calls.foldl (apply key twice) roster) =
      calls.foldl (hear key k) (first key k roster) := by
  induction calls generalizing roster with
  | nil => rfl
  | cons call calls ih => rw [List.foldl_cons, List.foldl_cons, ih, first_apply]

/-- Whether a call for the key adds or removes. -/
def tells (key : α → κ) (k : κ) : Call α κ → Option Bool
  | .add a => if key a = k then some true else none
  | .remove k' => if k' = k then some false else none

theorem has_apply (twice : Bool) (call : Call α κ) :
    has key k (apply key twice roster call) = (tells key k call).getD (has key k roster) := by
  rw [← first_isSome, ← first_isSome, first_apply]
  cases call with
  | remove k' =>
    unfold hear tells
    dsimp only
    split <;> rfl
  | add a =>
    unfold hear tells
    dsimp only
    split
    · cases first key k roster <;> rfl
    · rfl

/-- A key is there if the last call for it has added it. -/
theorem has_foldl (twice : Bool) (calls : List (Call α κ)) :
    has key k (calls.foldl (apply key twice) roster) =
      (calls.filterMap (tells key k)).getLast?.getD (has key k roster) :=
  get_foldl (fun call _ _ => has_apply twice call) roster

/-- The entries of a key, in their order. -/
def under (key : α → κ) (k : κ) (roster : List α) : List α := roster.filter fun a => decide (key a = k)

theorem under_apply (twice : Bool) {call : Call α κ} (h : tells key k call = none) :
    under key k (apply key twice roster call) = under key k roster := by
  unfold under
  cases call with
  | remove k' =>
    have hother : k' ≠ k := by
      intro heq
      simp [tells, heq] at h
    unfold apply without
    dsimp only
    rw [List.filter_filter]
    congr 1
    funext a
    by_cases ha : key a = k
    · simp [ha, hother.symm]
    · simp [ha]
  | add a =>
    have hother : key a ≠ k := by
      intro heq
      simp [tells, heq] at h
    unfold apply
    dsimp only
    split
    · rfl
    · rw [List.filter_append]
      simp [hother]

theorem under_foldl (twice : Bool) {calls : List (Call α κ)}
    (h : ∀ call ∈ calls, tells key k call = none) :
    under key k (calls.foldl (apply key twice) roster) = under key k roster := by
  induction calls generalizing roster with
  | nil => rfl
  | cons call calls ih =>
    rw [List.foldl_cons, ih fun c hc => h c (List.mem_cons_of_mem call hc),
      under_apply twice (h call List.mem_cons_self)]

theorem first_merge (extra : List α) :
    first key k (merge key roster extra) = (first key k roster).or (first key k extra) := by
  induction extra generalizing roster with
  | nil => exact (Option.or_none).symm
  | cons a extra ih =>
    have hcons : first key k ([a] ++ extra) = (first key k [a]).or (first key k extra) :=
      first_append extra
    rw [List.singleton_append] at hcons
    have hadd : first key k (apply key false roster (.add a)) =
        (first key k roster).or (first key k [a]) := by
      rw [first_apply, hear, first]
      by_cases ha : key a = k <;> simp [ha, first]
    unfold merge at ih ⊢
    rw [List.foldl_cons, ih, hadd, hcons, Option.or_assoc]

theorem not_mem_keys_iff : k ∉ roster.map key ↔ has key k roster = false := by
  rw [← Bool.not_eq_true, not_iff_not, has, List.any_eq_true, List.mem_map]
  simp

/-- A roster that lets no key in twice keeps its keys distinct. -/
theorem nodup_apply (call : Call α κ) (h : (roster.map key).Nodup) :
    ((apply key false roster call).map key).Nodup := by
  cases call with
  | remove k' => exact h.sublist (List.filter_sublist.map key)
  | add a =>
    unfold apply
    dsimp only
    split
    · exact h
    · next hnew =>
      have hnot : key a ∉ roster.map key := not_mem_keys_iff.mpr (by simpa using hnew)
      rw [List.map_append, List.map_singleton, List.nodup_append]
      refine ⟨h, List.nodup_singleton _, fun b hb c hc => ?_⟩
      rw [List.mem_singleton.mp hc]
      rintro rfl
      exact hnot hb

theorem nodup_foldl (calls : List (Call α κ)) (h : (roster.map key).Nodup) :
    ((calls.foldl (apply key false) roster).map key).Nodup := by
  induction calls generalizing roster with
  | nil => exact h
  | cons call calls ih => exact ih (nodup_apply call h)

theorem nodup_merge {extra : List α} (h : (roster.map key).Nodup) :
    ((merge key roster extra).map key).Nodup := by
  have hcalls : merge key roster extra = (extra.map Call.add).foldl (apply key false) roster := by
    rw [merge, List.foldl_map]
  rw [hcalls]
  exact nodup_foldl _ h

theorem mem_merge {extra : List α} {a : α} (h : a ∈ merge key roster extra) :
    a ∈ roster ∨ a ∈ extra := by
  induction extra generalizing roster with
  | nil => exact .inl h
  | cons b extra ih =>
    obtain hroster | hextra := @ih (apply key false roster (.add b)) h
    · unfold apply at hroster
      dsimp only at hroster
      split at hroster
      · exact .inl hroster
      · obtain hold | hnew := List.mem_append.mp hroster
        · exact .inl hold
        · exact .inr (List.mem_singleton.mp hnew ▸ List.mem_cons_self)
    · exact .inr (List.mem_cons_of_mem b hextra)

theorem prefix_merge (extra : List α) : roster <+: merge key roster extra := by
  induction extra generalizing roster with
  | nil => exact List.prefix_refl roster
  | cons b extra ih =>
    refine List.IsPrefix.trans ?_ (@ih (apply key false roster (.add b)))
    unfold apply
    dsimp only
    split
    · exact List.prefix_refl roster
    · exact List.prefix_append roster [b]

/-- With distinct keys the first entry of a key is the only one. -/
theorem first_filter (h : (roster.map key).Nodup) (p : α → Bool) :
    first key k (roster.filter p) = (first key k roster).filter p := by
  induction roster with
  | nil => rfl
  | cons a roster ih =>
    rw [List.map_cons, List.nodup_cons] at h
    obtain ⟨hnew, hrest⟩ := h
    have hcons : ∀ l : List α, first key k (a :: l) = if key a = k then some a else first key k l := by
      intro l
      unfold first
      rw [List.find?_cons]
      by_cases ha : key a = k <;> simp [ha]
    rw [List.filter_cons, hcons roster]
    by_cases ha : key a = k
    · subst ha
      have hnone : first key (key a) roster = none := first_eq_none_iff.mpr (not_mem_keys_iff.mp hnew)
      rw [if_pos rfl]
      cases hp : p a with
      | true => rw [if_pos rfl, hcons, if_pos rfl, Option.filter_some, if_pos hp]
      | false =>
        rw [if_neg Bool.false_ne_true, ih hrest, hnone, Option.filter_some, if_neg (by simp [hp])]
        rfl
    · rw [if_neg ha, ← ih hrest]
      split
      · rw [hcons, if_neg ha]
      · rfl

theorem first_map {β : Type*} {key' : β → κ} {f : α → β} (h : ∀ a, key' (f a) = key a) :
    first key' k (roster.map f) = (first key k roster).map f := by
  unfold first
  rw [List.find?_map]
  congr 2
  funext a
  simp [h]

/-! ## Rosters in a state -/

/-- What a run of calls does to a roster that is seen in the state. -/
theorem view_runAll {σ ο ρ : Type*} {step : ο → σ → σ × ρ} {view : σ → List α} (good : σ → Prop)
    {call : ο → Option (Call α κ)} {twice : Bool}
    (hstep : ∀ op s, good s → good (step op s).1 ∧
      view (step op s).1 = (call op).elim (view s) (apply key twice (view s))) (ops : List ο) {s : σ}
    (hs : good s) :
    good (runAll step ops s).1 ∧
      view (runAll step ops s).1 = (ops.filterMap call).foldl (apply key twice) (view s) := by
  induction ops generalizing s with
  | nil => exact ⟨hs, rfl⟩
  | cons op ops ih =>
    obtain ⟨hgood, hview⟩ := hstep op s hs
    obtain ⟨hend, hroster⟩ := ih hgood
    refine ⟨hend, ?_⟩
    rw [runAll_cons, hroster, hview, List.filterMap_cons]
    cases call op <;> rfl

end DSearch.Rosters
