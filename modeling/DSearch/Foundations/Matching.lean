import Mathlib

/-! # Lists matched one to one

Two lists can be matched element by element, up to order, exactly if what is compared of the one is a
permutation of what is compared of the other; and a permutation may be checked key by key. -/

namespace DSearch.Matching
set_option autoImplicit false

variable {α β γ κ : Type}

/-- The elements of the two lists are in a one-to-one correspondence in which `f` and `g` agree. -/
def Matched (f : α → γ) (g : β → γ) (as : List α) (bs : List β) : Prop :=
  ∃ bs' : List β, bs'.Perm bs ∧ List.Forall₂ (fun a b => f a = g b) as bs'

theorem matched_iff_perm {f : α → γ} {g : β → γ} {as : List α} {bs : List β} :
    Matched f g as bs ↔ (as.map f).Perm (bs.map g) := by
  constructor
  · rintro ⟨bs', hperm, hagree⟩
    have hmap : as.map f = bs'.map g := by
      rw [← List.forall₂_eq_eq_eq, List.forall₂_map_left_iff, List.forall₂_map_right_iff]
      exact hagree
    rw [hmap]
    exact hperm.map g
  · intro hperm
    have hself : List.Forall₂ (fun c b => c = g b) (bs.map g) bs := by
      rw [List.forall₂_map_left_iff]
      exact List.forall₂_same.mpr fun b _ => rfl
    obtain ⟨bs', hagree, hbs⟩ := List.perm_comp_forall₂ hperm hself
    exact ⟨bs', hbs, List.forall₂_map_left_iff.mp hagree⟩

variable [DecidableEq κ]

def withKey (key : α → κ) (k : κ) (l : List α) : List α := l.filter fun a => key a = k

theorem perm_iff_withKey (key : α → κ) {l₁ l₂ : List α} :
    l₁.Perm l₂ ↔ ∀ k, (withKey key k l₁).Perm (withKey key k l₂) := by
  classical
  constructor
  · exact fun hperm k => hperm.filter _
  · intro hkeys
    rw [List.perm_iff_count]
    intro a
    have hcount := (hkeys (key a)).count_eq a
    rw [withKey, withKey, List.count_filter (by simp), List.count_filter (by simp)] at hcount
    exact hcount

theorem withKey_map {f : α → β} {key : α → κ} {key' : β → κ} (hkey : ∀ a, key' (f a) = key a) (k : κ)
    (l : List α) : withKey key' k (l.map f) = (withKey key k l).map f := by
  rw [withKey, withKey, List.filter_map]
  congr 1
  apply List.filter_congr
  intro a _
  rw [Function.comp_apply, hkey]

theorem withKey_append (key : α → κ) (k : κ) (l₁ l₂ : List α) :
    withKey key k (l₁ ++ l₂) = withKey key k l₁ ++ withKey key k l₂ := List.filter_append _ _

theorem mem_withKey {key : α → κ} {k : κ} {l : List α} {a : α} :
    a ∈ withKey key k l ↔ a ∈ l ∧ key a = k := by
  simp [withKey]

theorem withKey_eq_nil {key : α → κ} {k : κ} {l : List α} :
    withKey key k l = [] ↔ ∀ a ∈ l, key a ≠ k := by
  simp [withKey, List.filter_eq_nil_iff]

end DSearch.Matching
