import DSearch.Model.Sanitize

/-! # The characters that `sanitize_string` removes, by Unicode category

The list of `is_format_char` beside the category Cf: six ranges of Cf beyond the basic plane are
missing, and the line and paragraph separators, which are of other categories, are on the list. -/

namespace DSearch.Sanitize
set_option autoImplicit false

/-! ## Tables of ranges -/

def InRanges (ranges : List (ℕ × ℕ)) (n : ℕ) : Prop := ∃ range ∈ ranges, range.1 ≤ n ∧ n ≤ range.2

instance (ranges : List (ℕ × ℕ)) (n : ℕ) : Decidable (InRanges ranges n) :=
  inferInstanceAs (Decidable (∃ range ∈ ranges, _))

/-- No range of the one table meets a range of the other. -/
def Apart (a b : List (ℕ × ℕ)) : Prop := ∀ r ∈ a, ∀ s ∈ b, r.2 < s.1 ∨ s.2 < r.1

instance (a b : List (ℕ × ℕ)) : Decidable (Apart a b) :=
  inferInstanceAs (Decidable (∀ r ∈ a, ∀ s ∈ b, _))

variable {a b front back : List (ℕ × ℕ)} {n : ℕ}

theorem inRanges_append : InRanges (a ++ b) n ↔ InRanges a n ∨ InRanges b n := by
  simp only [InRanges, List.mem_append, or_and_right, exists_or]

theorem inRanges_perm (h : a.Perm b) : InRanges a n ↔ InRanges b n := by
  simp only [InRanges, h.mem_iff]

theorem Apart.not_inRanges (h : Apart a b) (ha : InRanges a n) : ¬ InRanges b n := by
  obtain ⟨r, hr, hlow, hhigh⟩ := ha
  rintro ⟨s, hs, hlow', hhigh'⟩
  have hside := h r hr s hs
  omega

theorem inRanges_cons {range : ℕ × ℕ} :
    InRanges (range :: a) n ↔ (range.1 ≤ n ∧ n ≤ range.2) ∨ InRanges a n := by
  simp only [InRanges, List.mem_cons, or_and_right, exists_or, exists_eq_left]

theorem not_inRanges_nil : ¬ InRanges [] n := by
  simp [InRanges]

/-- A range may be cut in two. -/
theorem inRanges_cut {low cut high : ℕ} (hlow : low ≤ cut) (hhigh : cut < high) :
    InRanges (front ++ (low, high) :: back) n ↔
      InRanges (front ++ (cut + 1, high) :: back) n ∨ InRanges [(low, cut)] n := by
  have hrange : low ≤ n ∧ n ≤ high ↔ (cut + 1 ≤ n ∧ n ≤ high) ∨ (low ≤ n ∧ n ≤ cut) := by omega
  rw [inRanges_append, inRanges_append, inRanges_cons, inRanges_cons, inRanges_cons, hrange]
  by_cases hfront : InRanges front n
  · simp [hfront]
  · by_cases hback : InRanges back n
    · simp [hback]
    · simp [hfront, hback, not_inRanges_nil]

/-! ## Unicode categories -/

/-- The category Cc. -/
def ccRanges : List (ℕ × ℕ) := [(0x00, 0x1F), (0x7F, 0x9F)]

/-- The category Cf. -/
def cfRanges : List (ℕ × ℕ) :=
  [(0x00AD, 0x00AD), (0x0600, 0x0605), (0x061C, 0x061C), (0x06DD, 0x06DD), (0x070F, 0x070F),
    (0x0890, 0x0891), (0x08E2, 0x08E2), (0x180E, 0x180E), (0x200B, 0x200F), (0x202A, 0x202E),
    (0x2060, 0x2064), (0x2066, 0x206F), (0xFEFF, 0xFEFF), (0xFFF9, 0xFFFB), (0x110BD, 0x110BD),
    (0x110CD, 0x110CD), (0x13430, 0x1343F), (0x1BCA0, 0x1BCA3), (0x1D173, 0x1D17A),
    (0xE0001, 0xE0001), (0xE0020, 0xE007F)]

example : (cfRanges.map fun range => range.2 + 1 - range.1).sum = 170 := by decide

/-- The ranges of Cf that the code knows. -/
def knownRanges : List (ℕ × ℕ) :=
  [(0x00AD, 0x00AD), (0x0600, 0x0605), (0x061C, 0x061C), (0x06DD, 0x06DD), (0x070F, 0x070F),
    (0x0890, 0x0891), (0x08E2, 0x08E2), (0x180E, 0x180E), (0x200B, 0x200F), (0x202A, 0x202E),
    (0x2060, 0x2064), (0x2066, 0x206F), (0xFEFF, 0xFEFF), (0xFFF9, 0xFFFB), (0x13430, 0x1343F)]

/-- Number signs, shorthand and musical controls, and tags: the ranges of Cf that it does not know. -/
def missedRanges : List (ℕ × ℕ) :=
  [(0x110BD, 0x110BD), (0x110CD, 0x110CD), (0x1BCA0, 0x1BCA3), (0x1D173, 0x1D17A),
    (0xE0001, 0xE0001), (0xE0020, 0xE007F)]

/-- The line separator (Zl) and the paragraph separator (Zp). -/
def separatorRanges : List (ℕ × ℕ) := [(0x2028, 0x2029)]

theorem inRanges_cfRanges : InRanges cfRanges n ↔ InRanges knownRanges n ∨ InRanges missedRanges n := by
  have hperm : cfRanges.Perm (knownRanges ++ missedRanges) := by decide
  rw [inRanges_perm hperm, inRanges_append]

theorem isFormatChar_iff (ch : Char) : isFormatChar ch = true ↔
    InRanges knownRanges ch.toNat ∨ InRanges separatorRanges ch.toNat := by
  have hknown : isFormatChar ch = true ↔ InRanges formatRanges ch.toNat := by
    simp [isFormatChar, InRanges]
  have hsplit : formatRanges =
      knownRanges.take 9 ++ (0x2028, 0x202E) :: knownRanges.drop 10 := rfl
  have hjoin : knownRanges = knownRanges.take 9 ++ (0x2029 + 1, 0x202E) :: knownRanges.drop 10 := rfl
  rw [hknown, hsplit, inRanges_cut (by decide : 0x2028 ≤ 0x2029) (by decide : 0x2029 < 0x202E), ← hjoin]
  rfl

theorem isControl_iff (ch : Char) : isControl ch = true ↔ InRanges ccRanges ch.toNat := by
  simp only [isControl, InRanges, ccRanges, List.mem_cons, List.not_mem_nil, or_false, exists_eq_or_imp,
    exists_eq_left, Bool.or_eq_true, Bool.and_eq_true, decide_eq_true_eq]
  omega

/-! ## What is removed -/

/-- A character of the categories Cc, newline apart, and Cf. -/
def ofRemovedCategory (ch : Char) : Bool :=
  (InRanges ccRanges ch.toNat && ch ≠ '\n') || InRanges cfRanges ch.toNat

def withoutCategories (input : String) : String :=
  String.ofList (input.toList.filter fun ch => !ofRemovedCategory ch)

/-- A character that the list misses, or has and should not. -/
def Misjudged (ch : Char) : Prop := InRanges (missedRanges ++ separatorRanges) ch.toNat

instance (ch : Char) : Decidable (Misjudged ch) := inferInstanceAs (Decidable (InRanges _ _))

theorem isKept_eq_iff (ch : Char) : (isKept ch = !ofRemovedCategory ch) ↔ ¬ Misjudged ch := by
  have hnewline : InRanges knownRanges ch.toNat → ch ≠ '\n' := by
    rintro hknown rfl
    exact absurd hknown (by decide)
  have hkept : isKept ch = true ↔ ch = '\n' ∨ ¬ InRanges ccRanges ch.toNat ∧
      ¬ InRanges knownRanges ch.toNat ∧ ¬ InRanges separatorRanges ch.toNat := by
    have hcontrol := isControl_iff ch
    have hformat := isFormatChar_iff ch
    simp only [isKept, Bool.or_eq_true, decide_eq_true_eq, Bool.not_eq_true',
      ← Bool.not_eq_true, hcontrol, hformat, not_or]
  have hremoved : (!ofRemovedCategory ch) = true ↔ (InRanges ccRanges ch.toNat → ch = '\n') ∧
      ¬ InRanges knownRanges ch.toNat ∧ ¬ InRanges missedRanges ch.toNat := by
    simp only [ofRemovedCategory, Bool.not_eq_true', ← Bool.not_eq_true, Bool.or_eq_true,
      Bool.and_eq_true, decide_eq_true_eq, inRanges_cfRanges, not_or, not_and, ne_eq, not_not]
  rw [Bool.eq_iff_iff, hkept, hremoved, Misjudged, inRanges_append]
  by_cases hmissed : InRanges missedRanges ch.toNat
  · -- a format character that stays
    have hcc : Apart missedRanges ccRanges := by decide
    have hknown : Apart missedRanges knownRanges := by decide
    have hseparator : Apart missedRanges separatorRanges := by decide
    simp [hmissed, hcc.not_inRanges hmissed, hknown.not_inRanges hmissed,
      hseparator.not_inRanges hmissed]
  · by_cases hseparator : InRanges separatorRanges ch.toNat
    · -- another character that goes
      have hcc : Apart separatorRanges ccRanges := by decide
      have hknown : Apart separatorRanges knownRanges := by decide
      have hne : ch ≠ '\n' := by
        rintro rfl
        exact absurd hseparator (by decide)
      simp [hmissed, hseparator, hcc.not_inRanges hseparator, hknown.not_inRanges hseparator, hne]
    · simp only [hmissed, hseparator, not_false_eq_true, and_true, or_self, iff_true]
      constructor
      · rintro (rfl | ⟨hcc, hknown⟩)
        · exact ⟨fun _ => rfl, fun hknown => hnewline hknown rfl⟩
        · exact ⟨fun hin => absurd hin hcc, hknown⟩
      · rintro ⟨hcc, hknown⟩
        by_cases hin : InRanges ccRanges ch.toNat
        · exact .inl (hcc hin)
        · exact .inr ⟨hin, hknown⟩

/-- Two filters leave the same of a list exactly if they agree on its elements. -/
theorem filter_eq_filter_iff {α : Type} {p q : α → Bool} {l : List α} :
    l.filter p = l.filter q ↔ ∀ a ∈ l, p a = q a := by
  refine ⟨fun h a ha => ?_, fun h => List.filter_congr h⟩
  have hmem : a ∈ l.filter p ↔ a ∈ l.filter q := by rw [h]
  rw [List.mem_filter, List.mem_filter] at hmem
  exact Bool.eq_iff_iff.mpr (by tauto)

/-- Exactly the characters of the two categories are removed from a text in which no character is
misjudged. -/
theorem sanitizeString_eq_iff (input : String) :
    sanitizeString input = withoutCategories input ↔ ∀ ch ∈ input.toList, ¬ Misjudged ch := by
  rw [← String.toList_inj, toList_sanitizeString, withoutCategories, String.toList_ofList,
    filter_eq_filter_iff]
  simp only [isKept_eq_iff]

/-- A language tag character is of the category Cf, and stays. -/
theorem tag_character_kept :
    sanitizeString (String.ofList ['a', Char.ofNat 0xE0041, 'b']) =
        String.ofList ['a', Char.ofNat 0xE0041, 'b'] ∧
      withoutCategories (String.ofList ['a', Char.ofNat 0xE0041, 'b']) = "ab" := by
  decide +kernel

end DSearch.Sanitize
