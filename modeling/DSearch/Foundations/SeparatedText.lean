import Mathlib

/-! # Text with a separator

`split` takes a text apart at a separator, `join` puts pieces together. Pieces without the separator
are recovered from their joined text, so a joined text is an unambiguous name for them; two pieces in
which it may stand are recovered unless one pair goes on where the other has its separator. -/

namespace DSearch.SeparatedText
set_option autoImplicit false

variable (sep : Char)

/-- The pieces between the separators; a text without a separator is one piece. -/
def split (s : String) : List String := (s.toList.splitOn sep).map String.ofList

def join (pieces : List String) : String :=
  String.ofList ([sep].intercalate (pieces.map String.toList))

theorem split_ne_nil (s : String) : split sep s ≠ [] := by
  simp [split]

theorem split_append (a b : String) :
    split sep (a ++ String.singleton sep ++ b) = split sep a ++ split sep b := by
  simp only [split, String.toList_append, String.toList_singleton, List.append_assoc,
    List.singleton_append, List.splitOn_append_cons_self, List.map_append]

variable {sep}

theorem split_eq_singleton {s : String} (h : sep ∉ s.toList) : split sep s = [s] := by
  simp [split, List.splitOn_eq_singleton h]

theorem not_mem_of_mem_splitOn {cs piece : List Char} (h : piece ∈ cs.splitOn sep) :
    sep ∉ piece := by
  induction cs generalizing piece with
  | nil => simp_all
  | cons c cs ih =>
    rw [List.splitOn_cons_eq_if_modifyHead] at h
    split at h
    · rcases List.mem_cons.mp h with rfl | h
      · simp
      · exact ih h
    · next hc =>
      obtain ⟨first, rest, hsplit⟩ := List.exists_cons_of_ne_nil (List.splitOn_ne_nil sep cs)
      rw [hsplit, List.modifyHead_cons] at h
      rcases List.mem_cons.mp h with rfl | h
      · have hfirst : sep ∉ first := ih (by simp [hsplit])
        have hne : ¬ sep = c := fun heq => hc (beq_iff_eq.mpr heq.symm)
        simp [hne, hfirst]
      · exact ih (by simp [hsplit, h])

theorem not_mem_of_mem_split {s piece : String} (h : piece ∈ split sep s) : sep ∉ piece.toList := by
  obtain ⟨chars, hchars, rfl⟩ := List.mem_map.mp h
  rw [String.toList_ofList]
  exact not_mem_of_mem_splitOn hchars

theorem join_split (s : String) : join sep (split sep s) = s := by
  simp [join, split, Function.comp_def]

theorem split_injective {s t : String} (h : split sep s = split sep t) : s = t := by
  calc s = join sep (split sep s) := (join_split s).symm
    _ = join sep (split sep t) := by rw [h]
    _ = t := join_split t

theorem split_join {pieces : List String} (hne : pieces ≠ [])
    (hpieces : ∀ piece ∈ pieces, sep ∉ piece.toList) : split sep (join sep pieces) = pieces := by
  have hlists : ∀ chars ∈ pieces.map String.toList, sep ∉ chars := by
    intro chars hchars
    obtain ⟨piece, hpiece, rfl⟩ := List.mem_map.mp hchars
    exact hpieces piece hpiece
  rw [split, join, String.toList_ofList, List.splitOn_intercalate sep hlists (by simpa using hne)]
  simp [Function.comp_def]

/-! ## Two pieces that may have the separator in them -/

variable (sep)

/-- The pair `(a, b)` can be read as `(c, d)`: `c` goes on after `a` with a separator and a text by
which `b` begins, before a separator and `d`. -/
def Shifts (a b c d : String) : Prop :=
  ∃ w, c = a ++ String.singleton sep ++ w ∧ b = w ++ String.singleton sep ++ d

theorem append_sep_eq {a b c d : List Char} (h : a ++ sep :: b = c ++ sep :: d) :
    (a = c ∧ b = d) ∨ (∃ w, c = a ++ sep :: w ∧ b = w ++ sep :: d) ∨
      ∃ w, a = c ++ sep :: w ∧ d = w ++ sep :: b := by
  rcases List.append_eq_append_iff.mp h with ⟨between, hc, hb⟩ | ⟨between, ha, hd⟩
  · cases between with
    | nil =>
      rw [List.nil_append, List.cons.injEq] at hb
      exact .inl ⟨by rw [hc, List.append_nil], hb.2⟩
    | cons s w =>
      rw [List.cons_append, List.cons.injEq] at hb
      obtain ⟨rfl, hb⟩ := hb
      exact .inr (.inl ⟨w, hc, hb⟩)
  · cases between with
    | nil =>
      rw [List.nil_append, List.cons.injEq] at hd
      exact .inl ⟨by rw [ha, List.append_nil], hd.2.symm⟩
    | cons s w =>
      rw [List.cons_append, List.cons.injEq] at hd
      obtain ⟨rfl, hd⟩ := hd
      exact .inr (.inr ⟨w, ha, hd⟩)

theorem append_sep_eq_iff (a b c d : String) :
    a ++ String.singleton sep ++ b = c ++ String.singleton sep ++ d ↔
      (a, b) = (c, d) ∨ Shifts sep a b c d ∨ Shifts sep c d a b := by
  constructor
  · intro h
    have hchars : a.toList ++ sep :: b.toList = c.toList ++ sep :: d.toList := by
      simpa using congrArg String.toList h
    obtain ⟨ha, hb⟩ | ⟨w, hc, hb⟩ | ⟨w, ha, hd⟩ := append_sep_eq sep hchars
    · exact .inl (Prod.ext (String.toList_inj.mp ha) (String.toList_inj.mp hb))
    · refine .inr (.inl ⟨String.ofList w, ?_, ?_⟩)
      · simp [← String.toList_inj, hc]
      · simp [← String.toList_inj, hb]
    · refine .inr (.inr ⟨String.ofList w, ?_, ?_⟩)
      · simp [← String.toList_inj, ha]
      · simp [← String.toList_inj, hd]
  · rintro (heq | ⟨w, rfl, rfl⟩ | ⟨w, rfl, rfl⟩)
    · cases heq
      rfl
    · simp only [String.append_assoc]
    · simp only [String.append_assoc]

/-! ## Parts of separated text -/

variable {sep}

/-- A text without the separator stands on one side of it. -/
theorem infix_append_sep_iff {u a b : List Char} (hsep : sep ∉ u) :
    u <:+: a ++ sep :: b ↔ u <:+: a ∨ u <:+: b := by
  constructor
  · rintro ⟨before, after, h⟩
    rcases List.append_eq_append_iff.mp h with ⟨between, ha, -⟩ | ⟨between, hfront, hback⟩
    · exact .inl ⟨before, between, ha.symm⟩
    · cases between with
      | nil => exact .inl ⟨before, [], by simpa using hfront⟩
      | cons s between =>
        obtain ⟨rfl, rfl⟩ := List.cons.inj hback
        -- the text ends after the separator, so it begins after it
        rcases List.append_eq_append_iff.mp hfront with ⟨inner, -, hu⟩ | ⟨inner, -, hu⟩
        · exact absurd (hu ▸ List.mem_append_right inner List.mem_cons_self) hsep
        · cases inner with
          | nil =>
            rw [List.nil_append] at hu
            exact absurd (hu ▸ List.mem_cons_self) hsep
          | cons s inner =>
            obtain ⟨-, rfl⟩ := List.cons.inj hu
            exact .inr ⟨inner, after, rfl⟩
  · rintro (h | h)
    · exact h.trans (List.infix_append' [] a (sep :: b))
    · exact h.trans ⟨a ++ [sep], [], by simp⟩

/-- So it stands in one of the pieces that are put together with separators. -/
theorem infix_flatMap_sep_iff {u : List Char} (hne : u ≠ []) (hsep : sep ∉ u)
    (pieces : List (List Char)) :
    u <:+: pieces.flatMap (fun piece => piece ++ [sep]) ↔ ∃ piece ∈ pieces, u <:+: piece := by
  induction pieces with
  | nil => simp [hne]
  | cons piece pieces ih =>
    rw [List.flatMap_cons, List.append_assoc, List.singleton_append, infix_append_sep_iff hsep, ih]
    simp

/-- Text by text up to the next separator. -/
theorem piece_induction (sep : Char) {P : List Char → Prop} (one : ∀ a, sep ∉ a → P a)
    (more : ∀ a b, sep ∉ a → P b → P (a ++ sep :: b)) (cs : List Char) : P cs := by
  induction hlength : cs.length using Nat.strong_induction_on generalizing cs with
  | h n ih =>
    by_cases hsep : sep ∈ cs
    · obtain ⟨a, b, rfl, ha⟩ := List.eq_append_cons_of_mem hsep
      refine more a b ha (ih b.length ?_ b rfl)
      rw [← hlength, List.length_append, List.length_cons]
      omega
    · exact one cs hsep

theorem infix_of_mem_splitOn {cs piece : List Char} (h : piece ∈ cs.splitOn sep) : piece <:+: cs := by
  induction cs using piece_induction sep with
  | one a ha =>
    rw [List.splitOn_eq_singleton ha, List.mem_singleton] at h
    rw [h]
  | more a b ha ih =>
    rw [List.splitOn_append_cons_self_of_not_mem ha, List.mem_cons] at h
    rcases h with rfl | h
    · exact (List.prefix_append piece (sep :: b)).isInfix
    · exact (ih h).trans ((List.suffix_cons sep b).trans (List.suffix_append a _)).isInfix

/-- A separated text begins another one if the first pieces are equal and the rests do so. -/
theorem append_sep_prefix_iff {a b c d : List Char} (ha : sep ∉ a) (hc : sep ∉ c) :
    a ++ sep :: b <+: c ++ sep :: d ↔ a = c ∧ b <+: d := by
  constructor
  · rintro ⟨rest, h⟩
    rw [List.append_assoc, List.cons_append] at h
    obtain ⟨rfl, hrest⟩ | ⟨w, rfl, -⟩ | ⟨w, rfl, -⟩ := append_sep_eq sep h
    · exact ⟨rfl, rest, hrest⟩
    · simp at hc
    · simp at ha
  · rintro ⟨rfl, hbd⟩
    exact (List.prefix_append_right_inj a).mpr (List.cons_prefix_cons.mpr ⟨rfl, hbd⟩)

/-- A text that stands at the start and has no separator stands before the first one. -/
theorem prefix_of_prefix_append {u a b : List Char} (hsep : sep ∉ u) (h : u <+: a ++ sep :: b) :
    u <+: a := by
  rcases List.prefix_or_prefix_of_prefix h (List.prefix_append a _) with hu | ⟨t, rfl⟩
  · exact hu
  · rw [List.prefix_append_right_inj] at h
    cases t with
    | nil => simp
    | cons c t =>
      obtain ⟨rfl, -⟩ := List.cons_prefix_cons.mp h
      simp at hsep

end DSearch.SeparatedText
