import DSearch.Foundations.SeparatedText

/-! # Texts rewritten letter by letter

A change of case replaces each character by one or more characters, which may depend on what stands
around it. Some characters, the marks, stand for themselves and for nothing else, so the new text is
divided by marks as the old one is. -/

namespace DSearch.LetterMaps
set_option autoImplicit false

variable {IsMark : Char → Prop}

/-- What a character may be replaced by. -/
structure Image (IsMark : Char → Prop) (c : Char) (image : List Char) : Prop where
  nonempty : image ≠ []
  self : IsMark c → image = [c]
  only : ∀ d ∈ image, IsMark d → d = c

inductive Rewrites (IsMark : Char → Prop) : List Char → List Char → Prop
  | nil : Rewrites IsMark [] []
  | cons {c : Char} {image cs ds : List Char} (himage : Image IsMark c image)
      (hrest : Rewrites IsMark cs ds) : Rewrites IsMark (c :: cs) (image ++ ds)

theorem rewrites_map {f : Char → Char} (hself : ∀ c, IsMark c → f c = c)
    (honly : ∀ c, IsMark (f c) → f c = c) (cs : List Char) : Rewrites IsMark cs (cs.map f) := by
  induction cs with
  | nil => exact .nil
  | cons c cs ih =>
    have himage : Image IsMark c [f c] := by
      refine ⟨List.cons_ne_nil _ _, fun hc => ?_, fun d hd hmark => ?_⟩
      · rw [hself c hc]
      · rw [List.mem_singleton.mp hd] at hmark ⊢
        exact honly c hmark
    exact .cons himage ih

theorem Rewrites.mem_iff {cs ds : List Char} (h : Rewrites IsMark cs ds) {d : Char} (hd : IsMark d) :
    d ∈ ds ↔ d ∈ cs := by
  induction h with
  | nil => exact Iff.rfl
  | @cons c image cs ds himage _ ih =>
    rw [List.mem_append, List.mem_cons, ih]
    refine or_congr_left ⟨fun hmem => himage.only d hmem hd, ?_⟩
    rintro rfl
    rw [himage.self hd]
    exact List.mem_singleton_self d

theorem Rewrites.eq_nil {cs : List Char} (h : Rewrites IsMark cs []) : cs = [] := by
  generalize hds : ([] : List Char) = ds at h
  cases h with
  | nil => rfl
  | cons himage _ => exact absurd (List.append_eq_nil_iff.mp hds.symm).1 himage.nonempty

/-- The old text is divided where the new one is. -/
theorem Rewrites.split {cs a b : List Char} {d : Char} (h : Rewrites IsMark cs (a ++ d :: b))
    (hd : IsMark d) :
    ∃ a' b', cs = a' ++ d :: b' ∧ Rewrites IsMark a' a ∧ Rewrites IsMark b' b := by
  generalize hds : a ++ d :: b = ds at h
  induction h generalizing a with
  | nil => simp at hds
  | @cons c image cs ds himage hrest ih =>
    rcases List.append_eq_append_iff.mp hds with ⟨between, hfront, hback⟩ | ⟨between, ha, hrest'⟩
    · cases between with
      | nil =>
        -- the mark stands first in the rest
        obtain ⟨a', b', rfl, ha', hb'⟩ := ih (a := []) hback
        rw [ha'.eq_nil]
        rw [List.append_nil] at hfront
        refine ⟨[c], b', rfl, ?_, hb'⟩
        rw [← hfront, ← List.append_nil image]
        exact .cons himage .nil
      | cons first between =>
        obtain ⟨rfl, rfl⟩ := List.cons.inj hback
        -- the mark is all of the image
        have hmem : d ∈ image := by simp [hfront]
        obtain rfl := himage.only d hmem hd
        have hsingle : a ++ d :: between = [d] := by rw [← hfront, himage.self hd]
        obtain ⟨rfl, hend⟩ : a = [] ∧ between = [] := by
          have hlen := congrArg List.length hsingle
          simp only [List.length_append, List.length_cons, List.length_nil] at hlen
          exact ⟨List.length_eq_zero_iff.mp (by omega), List.length_eq_zero_iff.mp (by omega)⟩
        subst hend
        exact ⟨[], cs, rfl, .nil, hrest⟩
    · obtain ⟨a', b', rfl, ha', hb'⟩ := ih hrest'.symm
      refine ⟨c :: a', b', rfl, ?_, hb'⟩
      rw [ha]
      exact .cons himage ha'

/-- The new text is divided where the old one is. -/
theorem Rewrites.split_left {a b ds : List Char} {d : Char} (h : Rewrites IsMark (a ++ d :: b) ds)
    (hd : IsMark d) :
    ∃ a' b', ds = a' ++ d :: b' ∧ Rewrites IsMark a a' ∧ Rewrites IsMark b b' := by
  induction a generalizing ds with
  | nil =>
    cases h with
    | cons himage hrest =>
      rw [himage.self hd]
      exact ⟨[], _, rfl, .nil, hrest⟩
  | cons c a ih =>
    cases h with
    | cons himage hrest =>
      obtain ⟨a', b', rfl, ha', hb'⟩ := ih hrest
      exact ⟨_, b', (List.append_assoc _ _ _).symm, .cons himage ha', hb'⟩

theorem Rewrites.marks_prefix {u cs b : List Char} (hu : ∀ d ∈ u, IsMark d)
    (h : Rewrites IsMark cs (u ++ b)) : ∃ b', cs = u ++ b' ∧ Rewrites IsMark b' b := by
  induction u generalizing cs with
  | nil => exact ⟨cs, rfl, h⟩
  | cons d u ih =>
    obtain ⟨a', b', rfl, ha', hb'⟩ := Rewrites.split (a := []) h (hu d List.mem_cons_self)
    obtain ⟨rest, rfl, hrest⟩ := ih (fun e he => hu e (List.mem_cons_of_mem d he)) hb'
    rw [ha'.eq_nil]
    exact ⟨rest, rfl, hrest⟩

/-- Marks that stand together in the new text stand together in the old one. -/
theorem Rewrites.marks_infix {u cs ds : List Char} (hne : u ≠ []) (hu : ∀ d ∈ u, IsMark d)
    (h : Rewrites IsMark cs ds) (hinside : u <:+: ds) : u <:+: cs := by
  obtain ⟨a, b, rfl⟩ := hinside
  obtain ⟨d, u, rfl⟩ := List.exists_cons_of_ne_nil hne
  rw [List.append_assoc, List.cons_append] at h
  obtain ⟨a', rest, rfl, -, hrest⟩ := h.split (hu d List.mem_cons_self)
  obtain ⟨b', rfl, -⟩ := hrest.marks_prefix fun e he => hu e (List.mem_cons_of_mem d he)
  exact ⟨a', b', by simp⟩

theorem Rewrites.of_marks {u ds : List Char} (hu : ∀ d ∈ u, IsMark d) (h : Rewrites IsMark u ds) :
    ds = u := by
  induction h with
  | nil => rfl
  | @cons c image cs ds himage _ ih =>
    rw [himage.self (hu c List.mem_cons_self), ih fun d hd => hu d (List.mem_cons_of_mem c hd)]
    rfl

/-- Marks at the end of the old text are at the end of the new one. -/
theorem Rewrites.marks_suffix {a u ds : List Char} (hne : u ≠ []) (hu : ∀ d ∈ u, IsMark d)
    (h : Rewrites IsMark (a ++ u) ds) : ∃ a', ds = a' ++ u ∧ Rewrites IsMark a a' := by
  obtain ⟨d, u, rfl⟩ := List.exists_cons_of_ne_nil hne
  obtain ⟨a', b', rfl, ha', hb'⟩ := h.split_left (hu d List.mem_cons_self)
  rw [hb'.of_marks fun e he => hu e (List.mem_cons_of_mem d he)]
  exact ⟨a', rfl, ha'⟩

theorem Rewrites.head {c d : Char} {cs ds : List Char} (h : Rewrites IsMark (c :: cs) (d :: ds))
    (hd : IsMark d) : d = c := by
  generalize hds : d :: ds = out at h
  cases h with
  | @cons _ image _ rest himage _ =>
    cases image with
    | nil => exact absurd rfl himage.nonempty
    | cons first image =>
      obtain ⟨rfl, -⟩ := List.cons.inj hds
      exact himage.only d List.mem_cons_self hd

/-! ## Texts in which some parts are replaced -/

/-- Parts without marks are replaced, and all else is kept. -/
inductive Edits (IsMark : Char → Prop) : List Char → List Char → Prop
  | nil : Edits IsMark [] []
  | keep (c : Char) {cs ds : List Char} (hrest : Edits IsMark cs ds) : Edits IsMark (c :: cs) (c :: ds)
  | part {part image cs ds : List Char} (hne : part ≠ []) (hpart : ∀ c ∈ part, ¬ IsMark c)
      (hrest : Edits IsMark cs ds) : Edits IsMark (part ++ cs) (image ++ ds)

theorem Edits.eq_nil {ds : List Char} (h : Edits IsMark [] ds) : ds = [] := by
  generalize hcs : ([] : List Char) = cs at h
  cases h with
  | nil => rfl
  | keep c hrest => cases hcs
  | part hne hpart hrest => exact absurd (List.append_eq_nil_iff.mp hcs.symm).1 hne

/-- The new text is divided where the old one is, and has more marks maybe. -/
theorem Edits.split {a b ds : List Char} {d : Char} (h : Edits IsMark (a ++ d :: b) ds)
    (hd : IsMark d) :
    ∃ a' b', ds = a' ++ d :: b' ∧ Edits IsMark a a' ∧ Edits IsMark b b' := by
  generalize hcs : a ++ d :: b = cs at h
  induction h generalizing a with
  | nil => simp at hcs
  | @keep c cs ds hrest ih =>
    cases a with
    | nil =>
      obtain ⟨rfl, rfl⟩ := List.cons.inj hcs
      exact ⟨[], ds, rfl, .nil, hrest⟩
    | cons first a =>
      obtain ⟨rfl, htail⟩ := List.cons.inj hcs
      obtain ⟨a', b', rfl, ha', hb'⟩ := ih htail
      exact ⟨first :: a', b', rfl, .keep first ha', hb'⟩
  | @part part image cs ds hne hpart hrest ih =>
    rcases List.append_eq_append_iff.mp hcs with ⟨mid, hmid, hback⟩ | ⟨mid, ha, hback⟩
    · cases mid with
      | nil =>
        -- the mark stands first after the part
        obtain ⟨a', b', rfl, ha', hb'⟩ := ih (a := []) hback
        rw [ha'.eq_nil]
        rw [List.append_nil] at hmid
        refine ⟨image, b', rfl, ?_, hb'⟩
        rw [← hmid, ← List.append_nil part, ← List.append_nil image]
        exact .part hne hpart .nil
      | cons first mid =>
        obtain ⟨rfl, -⟩ := List.cons.inj hback
        exact absurd hd (hpart d (by simp [hmid]))
    · obtain ⟨a', b', rfl, ha', hb'⟩ := ih hback.symm
      refine ⟨image ++ a', b', (List.append_assoc _ _ _).symm, ?_, hb'⟩
      rw [ha]
      exact .part hne hpart ha'

theorem Edits.mem {cs ds : List Char} (h : Edits IsMark cs ds) {d : Char} (hd : IsMark d)
    (hmem : d ∈ cs) : d ∈ ds := by
  obtain ⟨a, b, rfl⟩ := List.append_of_mem hmem
  obtain ⟨a', b', rfl, -⟩ := h.split hd
  simp

theorem Edits.of_marks {u ds : List Char} (hu : ∀ d ∈ u, IsMark d) (h : Edits IsMark u ds) :
    ds = u := by
  induction u generalizing ds with
  | nil => exact h.eq_nil
  | cons d u ih =>
    obtain ⟨a', b', rfl, ha', hb'⟩ := Edits.split (a := []) h (hu d List.mem_cons_self)
    rw [ha'.eq_nil, ih (fun e he => hu e (List.mem_cons_of_mem d he)) hb']
    rfl

/-- A piece of marks between separators is a piece of the new text. -/
theorem Edits.mem_splitOn {sep : Char} (hsep : IsMark sep) {u cs ds : List Char}
    (hu : ∀ d ∈ u, IsMark d) (h : Edits IsMark cs ds) (hmem : u ∈ cs.splitOn sep)
    (hout : sep ∉ u) : u ∈ ds.splitOn sep := by
  induction cs using SeparatedText.piece_induction sep generalizing ds with
  | one a ha =>
    rw [List.splitOn_eq_singleton ha, List.mem_singleton] at hmem
    subst hmem
    rw [h.of_marks hu, List.splitOn_eq_singleton hout]
    exact List.mem_singleton_self u
  | more a b ha ih =>
    obtain ⟨a', b', rfl, ha', hb'⟩ := h.split hsep
    rw [List.splitOn_append_cons_self, List.splitOn_eq_singleton ha, List.singleton_append,
      List.mem_cons] at hmem
    rw [List.splitOn_append_cons_self, List.mem_append]
    rcases hmem with rfl | hmem
    · left
      rw [ha'.of_marks hu, List.splitOn_eq_singleton hout]
      exact List.mem_singleton_self u
    · exact .inr (ih hb' hmem)

end DSearch.LetterMaps
