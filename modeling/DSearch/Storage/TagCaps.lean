import DSearch.Model.Sanitize
import DSearch.Storage.Index

/-! # The size limits of tags

`sanitize_record` checks the two sides of a tag where `split_once` finds a colon, and `index_record`
splits the stored tag by `parse_tag`. A tag without a colon is not checked, and the index takes it
for a value. -/

namespace DSearch
set_option autoImplicit false
open Sanitize Index JsonText

/-- Both sides of a tag, as the index splits it, are within their limits. -/
def WithinCaps (tag : String) : Prop :=
  (parseTag tag).1.utf8ByteSize ≤ MAX_KEY_SIZE ∧ (parseTag tag).2.utf8ByteSize ≤ MAX_VALUE_SIZE

/-- The two splitters agree on a tag with a colon, and there is none in a tag that `split_once` leaves
whole. -/
theorem parseTag_cases (tag : String) :
    (':' ∉ tag.toList ∧ splitOnce tag = none ∧ parseTag tag = ("", tag)) ∨
      (':' ∈ tag.toList ∧ splitOnce tag = some (parseTag tag)) := by
  unfold splitOnce parseTag
  cases hdrop : tag.toList.dropWhile (· ≠ ':') with
  | nil =>
    refine .inl ⟨?_, rfl, rfl⟩
    intro hcolon
    have hall := List.dropWhile_eq_nil_iff.mp hdrop ':' hcolon
    simp at hall
  | cons c value =>
    refine .inr ⟨?_, rfl⟩
    have hfirst : c = ':' := by
      have hhead := List.head?_dropWhile_not (fun c => decide (c ≠ ':')) tag.toList
      rw [hdrop] at hhead
      simpa using hhead
    have hmem : c ∈ tag.toList.dropWhile (· ≠ ':') := by
      rw [hdrop]
      exact List.mem_cons_self
    exact hfirst ▸ (List.dropWhile_sublist _).subset hmem

theorem validateKeySize_eq_ok {key : String} :
    validateKeySize key = .ok () ↔ key.utf8ByteSize ≤ MAX_KEY_SIZE := by
  unfold validateKeySize
  split
  · next hlong => simpa using hlong
  · next hshort => simpa using hshort

theorem validateValueSize_eq_ok {value : String} :
    validateValueSize value = .ok () ↔ value.utf8ByteSize ≤ MAX_VALUE_SIZE := by
  unfold validateValueSize
  split
  · next hlong => simpa using hlong
  · next hshort => simpa using hshort

/-- What a passed tag satisfies: its limits, if it has a colon. -/
theorem withinCaps_iff {tag : String} (h : sanitizeTag tag = .ok (sanitizeString tag)) :
    WithinCaps (sanitizeString tag) ↔
      (':' ∉ tag.toList → (sanitizeString tag).utf8ByteSize ≤ MAX_VALUE_SIZE) := by
  have hcolon : ':' ∈ (sanitizeString tag).toList ↔ ':' ∈ tag.toList := by
    rw [toList_sanitizeString, List.mem_filter]
    exact and_iff_left (by decide)
  rcases parseTag_cases (sanitizeString tag) with ⟨hnone, -, hparse⟩ | ⟨hsome, hsplit⟩
  · have htag : ':' ∉ tag.toList := fun hmem => hnone (hcolon.mpr hmem)
    rw [WithinCaps, hparse]
    simp [htag]
  · have htag : ':' ∈ tag.toList := hcolon.mp hsome
    have hcaps : WithinCaps (sanitizeString tag) := by
      unfold sanitizeTag at h
      simp only [hsplit] at h
      unfold WithinCaps
      rw [← validateKeySize_eq_ok, ← validateValueSize_eq_ok]
      cases hkey : validateKeySize (parseTag (sanitizeString tag)).1 with
      | error e => simp [hkey, bind, Except.bind] at h
      | ok _ =>
        cases hvalue : validateValueSize (parseTag (sanitizeString tag)).2 with
        | error e => simp [hkey, hvalue, bind, Except.bind] at h
        | ok _ => exact ⟨rfl, rfl⟩
    simp [htag, hcaps]

theorem passed_of_mapM {tags sanitized : List String} (h : tags.mapM sanitizeTag = .ok sanitized) :
    ∀ tag ∈ tags, sanitizeTag tag = .ok (sanitizeString tag) := by
  induction tags generalizing sanitized with
  | nil => simp
  | cons first tags ih =>
    rw [List.mapM_cons] at h
    cases hfirst : sanitizeTag first with
    | error e => simp [hfirst, bind, Except.bind] at h
    | ok text =>
      cases htags : tags.mapM sanitizeTag with
      | error e => simp [hfirst, htags, bind, Except.bind] at h
      | ok rest =>
        intro tag htag
        rcases List.mem_cons.mp htag with rfl | htag
        · rw [hfirst, (sanitizeTag_eq_ok hfirst).1]
        · exact ih htags tag htag

/-- The tags of an accepted record are within the limits of the index exactly if the sanitized tags
without a colon are within the limit of a value. -/
theorem tag_caps_iff {record sanitized : ContentRecord}
    (h : sanitizeRecord record = .ok sanitized) :
    (∀ tag ∈ sanitized.tags, WithinCaps tag) ↔
      ∀ tag ∈ record.tags, ':' ∉ tag.toList →
        (sanitizeString tag).utf8ByteSize ≤ MAX_VALUE_SIZE := by
  obtain ⟨-, tags, htags, rfl⟩ := sanitizeRecord_eq_ok.mp h
  have hpassed := passed_of_mapM htags
  obtain ⟨hmap, -⟩ := mapM_sanitizeTag_eq_ok htags
  dsimp only
  rw [hmap, List.forall_mem_map]
  exact forall₂_congr fun tag htag => withinCaps_iff (hpassed tag htag)

/-- A record with a tag of one letter, without a colon. -/
def longTagRecord (length : ℕ) : ContentRecord :=
  { makeRecord "r1" "src" 1 0 with tags := [letters length] }

theorem colon_not_mem_letters (length : ℕ) : ':' ∉ (letters length).toList := by
  rw [letters, String.toList_ofList]
  intro hmem
  exact absurd (List.eq_of_mem_replicate hmem) (by decide)

/-- Such a record passes whatever the length of its tag. -/
theorem sanitizeRecord_longTagRecord (length : ℕ) :
    sanitizeRecord (longTagRecord length) = .ok (longTagRecord length) := by
  have htag := sanitizeString_letters length
  have hsplit : splitOnce (letters length) = none := by
    rcases parseTag_cases (letters length) with ⟨-, hnone, -⟩ | ⟨hcolon, -⟩
    · exact hnone
    · exact absurd hcolon (colon_not_mem_letters length)
  have htags : [letters length].mapM sanitizeTag = .ok [letters length] := by
    have hpass : sanitizeTag (letters length) = .ok (letters length) := by
      unfold sanitizeTag
      simp only [htag, hsplit]
      rfl
    rw [List.mapM_cons, hpass]
    rfl
  exact Unchanged.sanitizeRecord {
    id := sanitizeString_ascii (by decide)
    sourceUrl := sanitizeString_ascii (by decide)
    sourceHash := sanitizeString_ascii (by decide)
    schema := sanitizeString_ascii (by decide)
    tags := htags
    body := sanitizeString_ascii (by decide)
    bodySize := utf8ByteSize_literal_le (by decide) }

/-- A tag of 65537 letters is indexed as a value. -/
theorem long_tag_indexed :
    sanitizeRecord (longTagRecord 65537) = .ok (longTagRecord 65537) ∧
      ¬ ∀ tag ∈ (longTagRecord 65537).tags, WithinCaps tag := by
  refine ⟨sanitizeRecord_longTagRecord 65537, fun hcaps => ?_⟩
  have hvalue := (hcaps (letters 65537) List.mem_cons_self).2
  rcases parseTag_cases (letters 65537) with ⟨-, -, hparse⟩ | ⟨hcolon, -⟩
  · rw [hparse, utf8ByteSize_letters] at hvalue
    exact absurd hvalue (by decide)
  · exact absurd hcolon (colon_not_mem_letters 65537)

theorem tag_caps_iff_tenLetters : WithinCaps (letters 10) :=
  (tag_caps_iff (sanitizeRecord_longTagRecord 10)).mpr (by decide +kernel) (letters 10)
    List.mem_cons_self

end DSearch
