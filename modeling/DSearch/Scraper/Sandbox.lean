import DSearch.Foundations.Markup

/-! # Stripping markup: `scraper/sandbox.rs`

`strip_html_tags` drops the tags of a text and then replaces entities one kind after the other, `&amp;`
last. On an escaped text no step makes an entity that a later one takes. -/

namespace DSearch.Sandbox
set_option autoImplicit false
open Markup

/-- What stands outside of tags. -/
def outsideTags : Bool → List Char → List Char
  | _, [] => []
  | inTag, ch :: cs =>
    if ch = '<' then outsideTags true cs
    else if ch = '>' then outsideTags false cs
    else if inTag then outsideTags inTag cs
    else ch :: outsideTags inTag cs

def stripHtmlTags (input : String) : String :=
  let text := outsideTags false input.toList
  let text := replace "&nbsp;".toList " ".toList text
  let text := replace "&lt;".toList "<".toList text
  let text := replace "&gt;".toList ">".toList text
  let text := replace "\u201c".toList "\"".toList text
  let text := replace "\u201d".toList "\"".toList text
  let text := replace "&#39;".toList "'".toList text
  let text := replace "&amp;".toList "&".toList text
  String.ofList text

example : stripHtmlTags "<p>a &lt; <b>b</b>&amp;nbsp;</p>" = "a < b&nbsp;" := by decide +kernel

theorem outsideTags_of_not_mem {cs : List Char} (hopen : '<' ∉ cs) (hclose : '>' ∉ cs) :
    outsideTags false cs = cs := by
  induction cs with
  | nil => rfl
  | cons c cs ih =>
    rw [List.mem_cons, not_or] at hopen hclose
    rw [outsideTags, if_neg (Ne.symm hopen.1), if_neg (Ne.symm hclose.1), if_neg Bool.false_ne_true,
      ih hopen.2 hclose.2]

/-! ## The entities that are left, step by step -/

/-- After `&lt;` is replaced. -/
def writtenLt (c : Char) : List Char := if c = '<' then [c] else escapeChar c

/-- After `&gt;` is replaced. -/
def writtenAmp (c : Char) : List Char := if c = '&' then "&amp;".toList else [c]

theorem writtenLt_eq (c : Char) :
    (if escapeChar c = "&lt;".toList then "<".toList else escapeChar c) = writtenLt c := by
  unfold writtenLt
  by_cases hc : IsMarkup c
  · rcases hc with rfl | rfl | rfl <;> decide
  · have hlt : c ≠ '<' := fun heq => hc (.inr (.inl heq))
    rw [escapeChar_of_not_isMarkup hc, if_neg hlt, if_neg (by simp)]

theorem writtenAmp_eq (c : Char) :
    (if writtenLt c = "&gt;".toList then ">".toList else writtenLt c) = writtenAmp c := by
  unfold writtenLt writtenAmp
  by_cases hc : IsMarkup c
  · rcases hc with rfl | rfl | rfl <;> decide
  · have hamp : c ≠ '&' := fun heq => hc (.inl heq)
    rw [escapeChar_of_not_isMarkup hc, if_neg hamp, ite_self, if_neg (by simp)]

theorem written_eq (c : Char) :
    (if writtenAmp c = "&amp;".toList then "&".toList else writtenAmp c) = [c] := by
  unfold writtenAmp
  by_cases hc : c = '&'
  · subst hc
    decide
  · rw [if_neg hc, if_neg (by simp)]

theorem writes_writtenLt : Writes '&' ';' writtenLt := by
  intro c
  unfold writtenLt
  split
  · next hc => exact .inr ⟨c, by rw [hc]; decide, rfl⟩
  · exact writes_escapeChar c

theorem writes_writtenAmp : Writes '&' ';' writtenAmp := by
  intro c
  unfold writtenAmp
  split
  · exact .inl (isCode_entity "amp".toList (by decide) (by decide))
  · next hc => exact .inr ⟨c, hc, rfl⟩

/-- Two entities that no character is written as. -/
theorem escapeChar_ne_nbsp (c : Char) : escapeChar c ≠ "&nbsp;".toList := by
  by_cases hc : IsMarkup c
  · rcases hc with rfl | rfl | rfl <;> decide
  · rw [escapeChar_of_not_isMarkup hc]
    simp

theorem writtenAmp_ne_apostrophe (c : Char) : writtenAmp c ≠ "&#39;".toList := by
  unfold writtenAmp
  split
  · decide
  · simp

/-- A quote that is no character of a text is none of what the text is written as. -/
theorem not_mem_writtenAmp {quote : Char} (hquote : quote ∉ "&amp;".toList) {cs : List Char}
    (h : quote ∉ cs) : quote ∉ cs.flatMap writtenAmp := by
  intro hmem
  obtain ⟨c, hc, hwritten⟩ := List.mem_flatMap.mp hmem
  unfold writtenAmp at hwritten
  split at hwritten
  · exact hquote hwritten
  · exact h (List.mem_singleton.mp hwritten ▸ hc)

/-- Stripping gives an escaped text back, if it has no curly quotes. -/
theorem stripHtmlTags_escaped (text : String) (hopen : Char.ofNat 0x201C ∉ text.toList)
    (hclose : Char.ofNat 0x201D ∉ text.toList) :
    stripHtmlTags (String.ofList (escaped text.toList)) = text := by
  have hnbsp : IsCode '&' ';' "&nbsp;".toList :=
    isCode_entity "nbsp".toList (by decide) (by decide)
  have hlt : IsCode '&' ';' "&lt;".toList :=
    isCode_entity "lt".toList (by decide) (by decide)
  have hgt : IsCode '&' ';' "&gt;".toList :=
    isCode_entity "gt".toList (by decide) (by decide)
  have hapostrophe : IsCode '&' ';' "&#39;".toList :=
    isCode_entity "#39".toList (by decide) (by decide)
  have hamp : IsCode '&' ';' "&amp;".toList :=
    isCode_entity "amp".toList (by decide) (by decide)
  obtain ⟨hnoOpen, hnoClose⟩ := not_mem_escaped text.toList
  unfold stripHtmlTags
  rw [String.toList_ofList, outsideTags_of_not_mem hnoOpen hnoClose]
  dsimp only
  rw [escaped, replace_written writes_escapeChar (by decide) hnbsp]
  simp only [escapeChar_ne_nbsp, if_false]
  rw [replace_written writes_escapeChar (by decide) hlt]
  simp only [writtenLt_eq]
  rw [replace_written writes_writtenLt (by decide) hgt]
  simp only [writtenAmp_eq]
  rw [replace_of_not_mem rfl (not_mem_writtenAmp (by decide) hopen),
    replace_of_not_mem rfl (not_mem_writtenAmp (by decide) hclose),
    replace_written writes_writtenAmp (by decide) hapostrophe]
  simp only [writtenAmp_ne_apostrophe, if_false]
  rw [replace_written writes_writtenAmp (by decide) hamp]
  simp only [written_eq, List.flatMap_singleton', String.ofList_toList]

theorem stripHtmlTags_escaped_entity :
    stripHtmlTags (String.ofList (escaped "&lt; & &amp;nbsp; <b>".toList)) = "&lt; & &amp;nbsp; <b>" :=
  stripHtmlTags_escaped "&lt; & &amp;nbsp; <b>" (by decide) (by decide)

end DSearch.Sandbox
