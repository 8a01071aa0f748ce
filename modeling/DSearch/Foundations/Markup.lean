import DSearch.Foundations.SeparatedText

/-! # Characters written as codes

A code begins with a mark, ends with a stop and has neither inside, like `&amp;`. In a text whose marked
characters are written as codes, replacing every occurrence of one code is replacing the characters
that it stands for: no occurrence lies across two characters, and none is made by another
replacement. -/

namespace DSearch.Markup
set_option autoImplicit false
open SeparatedText

/-! ## Marked text -/

section Marked
variable {mark : Char} {name : List Char}

/-- A pattern with the mark at its start only stands before a mark or from it on. -/
theorem infix_append_mark_iff (hname : mark ∉ name) {a b : List Char} :
    mark :: name <:+: a ++ mark :: b ↔ mark :: name <:+: a ∨ mark :: name <:+: mark :: b := by
  constructor
  · rintro ⟨before, after, h⟩
    rw [List.append_assoc, List.cons_append] at h
    obtain ⟨-, hb⟩ | ⟨w, rfl, hrest⟩ | ⟨w, -, hb⟩ := append_sep_eq mark h
    · right
      rw [← hb, ← List.cons_append]
      exact (List.prefix_append (mark :: name) after).isInfix
    · -- the pattern begins in `a` and does not reach the mark after it
      left
      have hstart : name <+: w ++ mark :: b := ⟨after, hrest⟩
      obtain ⟨tail, rfl⟩ := prefix_of_prefix_append hname hstart
      exact ⟨before, tail, by simp⟩
    · right
      exact ⟨mark :: w, after, by simp [hb]⟩
  · rintro (h | h)
    · exact h.trans (List.prefix_append a (mark :: b)).isInfix
    · exact h.trans (List.suffix_append a (mark :: b)).isInfix

/-- Pieces with a mark before each. -/
def marked (mark : Char) (pieces : List (List Char)) : List Char := pieces.flatMap (mark :: ·)

theorem marked_append (pieces pieces' : List (List Char)) :
    marked mark (pieces ++ pieces') = marked mark pieces ++ marked mark pieces' :=
  List.flatMap_append

/-- The pattern stands where one of the pieces begins with the name. -/
theorem infix_append_marked_iff (hname : mark ∉ name) {pieces : List (List Char)}
    (hpieces : ∀ piece ∈ pieces, mark ∉ piece) {a : List Char} :
    mark :: name <:+: a ++ marked mark pieces ↔
      mark :: name <:+: a ∨ ∃ piece ∈ pieces, name <+: piece := by
  induction pieces generalizing a with
  | nil => simp [marked]
  | cons piece pieces ih =>
    obtain ⟨hpiece, hrest⟩ := List.forall_mem_cons.mp hpieces
    have hone : mark :: name <:+: mark :: piece ↔ name <+: piece := by
      rw [List.infix_cons_iff, List.cons_prefix_cons]
      constructor
      · rintro (⟨-, h⟩ | h)
        · exact h
        · exact absurd (h.subset List.mem_cons_self) hpiece
      · exact fun h => .inl ⟨rfl, h⟩
    have hsplit : a ++ marked mark (piece :: pieces) = a ++ mark :: piece ++ marked mark pieces := by
      simp [marked]
    rw [hsplit, ih hrest, infix_append_mark_iff hname, hone, List.exists_mem_cons_iff, or_assoc]

end Marked

/-! ## Replacement -/

/-- Every occurrence of a pattern from the left on, replaced; the first `skip` characters belong to the
occurrence before. -/
def replaceFrom (pattern new : List Char) : ℕ → List Char → List Char
  | _, [] => []
  | skip + 1, _ :: cs => replaceFrom pattern new skip cs
  | 0, c :: cs =>
    if pattern.isPrefixOf (c :: cs) then new ++ replaceFrom pattern new (pattern.length - 1) cs
    else c :: replaceFrom pattern new 0 cs

/-- `str::replace`, of a pattern that is not empty. -/
def replace (pattern new cs : List Char) : List Char := replaceFrom pattern new 0 cs

example : replace "aa".toList "b".toList "aaaca".toList = "baca".toList := by decide

variable {pattern new : List Char}

@[simp] theorem replace_nil : replace pattern new [] = [] := by
  simp [replace, replaceFrom]

theorem replaceFrom_length (a cs : List Char) :
    replaceFrom pattern new a.length (a ++ cs) = replace pattern new cs := by
  induction a with
  | nil => rfl
  | cons c a ih => exact ih

theorem replace_pattern (hne : pattern ≠ []) (cs : List Char) :
    replace pattern new (pattern ++ cs) = new ++ replace pattern new cs := by
  obtain ⟨c, rest, rfl⟩ := List.exists_cons_of_ne_nil hne
  have hstart : (c :: rest).isPrefixOf (c :: (rest ++ cs)) = true :=
    List.isPrefixOf_iff_prefix.mpr (List.prefix_append (c :: rest) cs)
  rw [List.cons_append, replace, replaceFrom, if_pos hstart]
  exact congrArg (new ++ ·) (replaceFrom_length rest cs)

theorem replace_cons {c : Char} {cs : List Char} (h : ¬ pattern <+: c :: cs) :
    replace pattern new (c :: cs) = c :: replace pattern new cs := by
  rw [replace, replaceFrom, if_neg fun hstart => h (List.isPrefixOf_iff_prefix.mp hstart)]
  rfl

/-- Text without the first character of the pattern stays. -/
theorem replace_append {mark : Char} {a : List Char} (hpattern : pattern.head? = some mark)
    (ha : mark ∉ a) (cs : List Char) :
    replace pattern new (a ++ cs) = a ++ replace pattern new cs := by
  induction a with
  | nil => rfl
  | cons c a ih =>
    rw [List.mem_cons, not_or] at ha
    obtain ⟨hc, ha⟩ := ha
    obtain ⟨rest, rfl⟩ := List.head?_eq_some_iff.mp hpattern
    rw [List.cons_append, replace_cons, ih ha, List.cons_append]
    intro hstart
    exact hc (List.cons_prefix_cons.mp hstart).1

theorem replace_of_not_mem {mark : Char} {cs : List Char} (hpattern : pattern.head? = some mark)
    (hcs : mark ∉ cs) : replace pattern new cs = cs := by
  calc replace pattern new cs = replace pattern new (cs ++ []) := by rw [List.append_nil]
    _ = cs ++ replace pattern new [] := replace_append hpattern hcs []
    _ = cs := by rw [replace_nil, List.append_nil]

/-! ## Codes -/

def IsCode (mark stop : Char) (code : List Char) : Prop :=
  ∃ body, mark ∉ body ∧ stop ∉ body ∧ code = mark :: (body ++ [stop])

variable {mark stop : Char}

/-- No code begins another one. -/
theorem IsCode.prefix_iff {code code' : List Char} (h : IsCode mark stop code)
    (h' : IsCode mark stop code') (cs : List Char) : code <+: code' ++ cs ↔ code = code' := by
  obtain ⟨body, -, hbody, rfl⟩ := h
  obtain ⟨body', -, hbody', rfl⟩ := h'
  have hsplit : mark :: (body' ++ [stop]) ++ cs = mark :: (body' ++ stop :: cs) := by simp
  rw [hsplit, List.cons_prefix_cons, append_sep_prefix_iff hbody hbody']
  simp

theorem IsCode.head? {code : List Char} (h : IsCode mark stop code) : code.head? = some mark := by
  obtain ⟨body, -, -, rfl⟩ := h
  rfl

/-- Each character is written as a code or as one character other than the mark. -/
def Writes (mark stop : Char) (write : Char → List Char) : Prop :=
  ∀ c, IsCode mark stop (write c) ∨ ∃ d, d ≠ mark ∧ write c = [d]

/-- Replacing a code in a written text is replacing the characters that it stands for. -/
theorem replace_written {write : Char → List Char} (hwrite : Writes mark stop write) (hms : mark ≠ stop)
    (hpattern : IsCode mark stop pattern) (cs : List Char) :
    replace pattern new (cs.flatMap write) =
      cs.flatMap fun c => if write c = pattern then new else write c := by
  induction cs with
  | nil => rfl
  | cons c cs ih =>
    rw [List.flatMap_cons, List.flatMap_cons, ← ih]
    rcases hwrite c with hcode | ⟨d, hd, hone⟩
    · by_cases heq : write c = pattern
      · have hne : pattern ≠ [] := by
          intro hnil
          rw [hnil] at hpattern
          cases hpattern.head?
        rw [if_pos heq, heq, replace_pattern hne]
      · -- the pattern does not begin here, and not inside the code
        have hstart := mt (hpattern.prefix_iff hcode (cs.flatMap write)).mp (Ne.symm heq)
        rw [if_neg heq]
        obtain ⟨body, hmark, -, hbody⟩ := hcode
        have hinside : mark ∉ body ++ [stop] := by simp [hmark, hms]
        rw [hbody] at hstart ⊢
        rw [List.cons_append] at hstart ⊢
        rw [replace_cons hstart, replace_append hpattern.head? hinside, List.cons_append]
    · have heq : write c ≠ pattern := by
        intro heq
        have hhead := hpattern.head?
        rw [← heq, hone] at hhead
        exact hd (Option.some.inj hhead)
      have hinside : mark ∉ [d] := by simp [Ne.symm hd]
      rw [if_neg heq, hone, replace_append hpattern.head? hinside]

/-! ## Escaped text -/

/-- `&`, `<` and `>` as entities. -/
def escapeChar (c : Char) : List Char :=
  if c = '&' then "&amp;".toList
  else if c = '<' then "&lt;".toList
  else if c = '>' then "&gt;".toList
  else [c]

def escaped (cs : List Char) : List Char := cs.flatMap escapeChar

def IsMarkup (c : Char) : Prop := c = '&' ∨ c = '<' ∨ c = '>'

instance (c : Char) : Decidable (IsMarkup c) := inferInstanceAs (Decidable (_ ∨ _))

theorem isCode_entity (body : List Char) (hmark : '&' ∉ body) (hstop : ';' ∉ body) :
    IsCode '&' ';' ('&' :: (body ++ [';'])) := ⟨body, hmark, hstop, rfl⟩

theorem escapeChar_of_not_isMarkup {c : Char} (h : ¬ IsMarkup c) : escapeChar c = [c] := by
  rw [IsMarkup, not_or, not_or] at h
  rw [escapeChar, if_neg h.1, if_neg h.2.1, if_neg h.2.2]

theorem writes_escapeChar : Writes '&' ';' escapeChar := by
  intro c
  by_cases hc : IsMarkup c
  · left
    rcases hc with rfl | rfl | rfl
    · exact isCode_entity "amp".toList (by decide) (by decide)
    · exact isCode_entity "lt".toList (by decide) (by decide)
    · exact isCode_entity "gt".toList (by decide) (by decide)
  · right
    exact ⟨c, fun heq => hc (.inl heq), escapeChar_of_not_isMarkup hc⟩

/-- No tag begins or ends in an escaped text. -/
theorem not_mem_escaped (cs : List Char) : '<' ∉ escaped cs ∧ '>' ∉ escaped cs := by
  have hchar : ∀ c, '<' ∉ escapeChar c ∧ '>' ∉ escapeChar c := by
    intro c
    by_cases hc : IsMarkup c
    · rcases hc with rfl | rfl | rfl <;> decide
    · rw [escapeChar_of_not_isMarkup hc]
      rw [IsMarkup, not_or, not_or] at hc
      simp [Ne.symm hc.2.1, Ne.symm hc.2.2]
  constructor
  · intro hmem
    obtain ⟨c, -, hc⟩ := List.mem_flatMap.mp hmem
    exact (hchar c).1 hc
  · intro hmem
    obtain ⟨c, -, hc⟩ := List.mem_flatMap.mp hmem
    exact (hchar c).2 hc

theorem escaped_cons (c : Char) (cs : List Char) :
    escaped (c :: cs) = escapeChar c ++ escaped cs := List.flatMap_cons

theorem one_le_length_escapeChar (c : Char) : 1 ≤ (escapeChar c).length := by
  rcases writes_escapeChar c with ⟨body, -, -, hbody⟩ | ⟨d, -, hone⟩
  · simp [hbody]
  · simp [hone]

theorem length_le_escaped (cs : List Char) : cs.length ≤ (escaped cs).length := by
  induction cs with
  | nil => simp
  | cons c cs ih =>
    have hpos := one_le_length_escapeChar c
    rw [escaped_cons, List.length_append, List.length_cons]
    omega

theorem escaped_of_not_isMarkup {cs : List Char} (h : ∀ c ∈ cs, ¬ IsMarkup c) : escaped cs = cs := by
  induction cs with
  | nil => rfl
  | cons c cs ih =>
    obtain ⟨hc, hcs⟩ := List.forall_mem_cons.mp h
    rw [escaped_cons, escapeChar_of_not_isMarkup hc, ih hcs, List.singleton_append]

/-- An entity is longer than its character, so a text that does not grow has none. -/
theorem length_escaped_le_iff {cs : List Char} :
    (escaped cs).length ≤ cs.length ↔ ∀ c ∈ cs, ¬ IsMarkup c := by
  refine ⟨fun hlength => ?_, fun h => by rw [escaped_of_not_isMarkup h]⟩
  induction cs with
  | nil => simp
  | cons c cs ih =>
    have hpos := one_le_length_escapeChar c
    have hle := length_le_escaped cs
    rw [escaped_cons, List.length_append, List.length_cons] at hlength
    refine List.forall_mem_cons.mpr ⟨?_, ih (by omega)⟩
    intro hc
    have hlong : 4 ≤ (escapeChar c).length := by
      rcases hc with rfl | rfl | rfl <;> decide
    omega

end DSearch.Markup
