import DSearch.Foundations.LetterMaps
import DSearch.Foundations.StableSort
import DSearch.Trust.SourceUrl

/-! # The parts of a source URL

`normalize_source_url` by parts: the text that is left of the URL, its scheme, its host up to the first
slash, and the tail from that slash on, which is a path and a query. The parameters that are written in
the end are read back as they were kept. -/

namespace DSearch.Sign
set_option autoImplicit false
open SeparatedText LetterMaps

/-! ## Breaking texts -/

theorem breakAt_append {c : Char} {a : List Char} (h : c ∉ a) (b : List Char) :
    breakAt c (a ++ c :: b) = (a, b) := by
  have hall : ∀ d ∈ a, (decide (d ≠ c)) = true := by
    intro d hd
    simpa using fun heq : d = c => h (heq ▸ hd)
  rw [breakAt, List.takeWhile_append_of_pos hall, List.dropWhile_append_of_pos hall,
    List.takeWhile_cons_of_neg (by simp), List.dropWhile_cons_of_neg (by simp)]
  simp

theorem breakAt_of_not_mem {c : Char} {a : List Char} (h : c ∉ a) : breakAt c a = (a, []) := by
  have hall : ∀ d ∈ a, (decide (d ≠ c)) = true := by
    intro d hd
    simpa using fun heq : d = c => h (heq ▸ hd)
  rw [breakAt, List.takeWhile_eq_self_iff.mpr hall, List.dropWhile_eq_nil_iff.mpr hall]
  rfl

/-- A text is its part before the character, or that part, the character and the rest. -/
theorem breakAt_cases (c : Char) (cs : List Char) :
    (c ∉ cs ∧ breakAt c cs = (cs, [])) ∨
      ∃ a b, cs = a ++ c :: b ∧ c ∉ a ∧ breakAt c cs = (a, b) := by
  by_cases h : c ∈ cs
  · obtain ⟨a, b, rfl, ha⟩ := List.eq_append_cons_of_mem h
    exact .inr ⟨a, b, rfl, ha, breakAt_append ha b⟩
  · exact .inl ⟨h, breakAt_of_not_mem h⟩

/-- The marker `://` is first met where it stands, if the text before has none: it cannot begin in that
text and end in the marker. -/
theorem breakOn_marker {a b : List Char} (h : ¬ "://".toList <:+: a) :
    breakOn "://".toList (a ++ ("://".toList ++ b)) = some (a, b) := by
  induction a with
  | nil => exact breakOn_cons.mpr (.inl ⟨rfl, rfl⟩)
  | cons c a ih =>
    have hrest : ¬ "://".toList <:+: a := fun hin => h (List.infix_cons hin)
    refine breakOn_cons.mpr (.inr ⟨fun hstart => ?_, a, rfl, ih hrest⟩)
    obtain ⟨rfl, hslashes⟩ := List.cons_prefix_cons.mp hstart
    cases a with
    | nil => exact absurd (List.cons_prefix_cons.mp hslashes).1 (by decide)
    | cons d a =>
      obtain ⟨rfl, hslash⟩ := List.cons_prefix_cons.mp hslashes
      cases a with
      | nil => exact absurd (List.cons_prefix_cons.mp hslash).1 (by decide)
      | cons e a =>
        obtain ⟨rfl, -⟩ := List.cons_prefix_cons.mp hslash
        exact h ⟨[], a, rfl⟩

theorem not_marker_of_breakOn {cs a b : List Char} (h : breakOn "://".toList cs = some (a, b)) :
    ¬ "://".toList <:+: a := by
  intro hin
  obtain ⟨⟨a', b'⟩, hfirst⟩ := Option.ne_none_iff_exists'.mp (breakOn_ne_none hin)
  have hwhole := breakOn_append hfirst ("://".toList ++ b)
  rw [← List.append_assoc, ← eq_of_breakOn h, h] at hwhole
  obtain ⟨rfl, -⟩ := Prod.mk.inj (Option.some.inj hwhole)
  have hlen := congrArg List.length (eq_of_breakOn hfirst)
  simp at hlen

/-! ## White space at the end -/

theorem trim_eq (cs : List Char) : trim cs = (cs.dropWhile isWhiteSpace).rdropWhile isWhiteSpace := rfl

theorem dropWhile_append_cons {p : Char → Bool} {c : Char} (hc : p c = false) (a b : List Char) :
    (a ++ c :: b).dropWhile p = a.dropWhile p ++ c :: b := by
  induction a with
  | nil => exact List.dropWhile_cons_of_neg (by simp [hc])
  | cons d a ih =>
    by_cases hd : p d = true
    · rw [List.cons_append, List.dropWhile_cons_of_pos hd, List.dropWhile_cons_of_pos hd, ih]
    · rw [List.cons_append, List.dropWhile_cons_of_neg hd, List.dropWhile_cons_of_neg hd]
      rfl

theorem rdropWhile_append_cons {p : Char → Bool} {c : Char} (hc : p c = false) (a b : List Char) :
    (a ++ c :: b).rdropWhile p = a ++ c :: b.rdropWhile p := by
  have hreverse : (a ++ c :: b).reverse = b.reverse ++ c :: a.reverse := by simp
  rw [List.rdropWhile, hreverse, dropWhile_append_cons hc, List.rdropWhile]
  simp

/-! ## The parts -/

/-- What is left of a URL without the white space around it and the fragment. -/
def bareUrl (url : String) : List Char := (breakAt '#' (trim url.toList)).1

/-- The scheme, the host and the tail. -/
def splitUrl (url : List Char) : Option (List Char × List Char × List Char) :=
  (breakOn "://".toList url).map fun parts =>
    (parts.1, parts.2.takeWhile (· ≠ '/'), match parts.2.dropWhile (· ≠ '/') with
      | [] => ['/']
      | cs => cs)

def stripSlash (path : List Char) : List Char :=
  if path.length > 1 && path.getLast? = some '/' then path.dropLast else path

def showParam (param : String × String) : String :=
  if param.2 = "" then param.1 else param.1 ++ "=" ++ param.2

def sortParams (params : List (String × String)) : List (String × String) :=
  params.insertionSort fun a b => a.1 ≤ b.1

/-- The query that is written for some parameters, with its question mark. -/
def printParams (params : List (String × String)) : List Char :=
  if params.isEmpty then [] else '?' :: (join '&' (params.map showParam)).toList

/-- The tail of the normal form. -/
def normalTail (toLowercase : String → String) (tail : List Char) : List Char :=
  stripSlash (breakAt '?' tail).1 ++
    printParams (sortParams (queryParams toLowercase (breakAt '?' tail).2))

theorem ofList_printParams (params : List (String × String)) : String.ofList (printParams params) =
    if params.isEmpty then "" else "?" ++ join '&' (params.map showParam) := by
  unfold printParams
  split
  · rfl
  · simp

section
variable {toLowercase : String → String}

theorem normalizeSourceUrl_none {url : String} (h : splitUrl (bareUrl url) = none) :
    normalizeSourceUrl toLowercase url = String.ofList (bareUrl url) := by
  unfold splitUrl at h
  rw [Option.map_eq_none_iff] at h
  have hurl : (breakAt '#' (trim url.toList)).1 = bareUrl url := rfl
  unfold normalizeSourceUrl
  dsimp only
  rw [hurl, h]

theorem normalizeSourceUrl_some {url : String} {scheme host tail : List Char}
    (h : splitUrl (bareUrl url) = some (scheme, host, tail)) :
    normalizeSourceUrl toLowercase url = toLowercase (String.ofList (scheme ++ "://".toList)) ++
      toLowercase (String.ofList host) ++ String.ofList (normalTail toLowercase tail) := by
  unfold splitUrl at h
  obtain ⟨⟨scheme', rest⟩, hbreak, hparts⟩ := Option.map_eq_some_iff.mp h
  simp only [Prod.mk.injEq] at hparts
  obtain ⟨rfl, rfl, rfl⟩ := hparts
  have hurl : (breakAt '#' (trim url.toList)).1 = bareUrl url := rfl
  unfold normalizeSourceUrl
  dsimp only
  have htail : ∀ tail, String.ofList (normalTail toLowercase tail) =
      String.ofList (stripSlash (breakAt '?' tail).1) ++
        if (sortParams (queryParams toLowercase (breakAt '?' tail).2)).isEmpty then ""
        else "?" ++ join '&'
          ((sortParams (queryParams toLowercase (breakAt '?' tail).2)).map showParam) := by
    intro tail
    rw [normalTail, String.ofList_append, ofList_printParams]
  rw [hurl, hbreak, htail, ← String.append_assoc]
  rfl

theorem splitUrl_slash {scheme host : List Char} (hscheme : ¬ "://".toList <:+: scheme)
    (hhost : '/' ∉ host) (rest : List Char) :
    splitUrl (scheme ++ ("://".toList ++ (host ++ '/' :: rest))) =
      some (scheme, host, '/' :: rest) := by
  have hall : ∀ d ∈ host, (decide (d ≠ '/')) = true := by
    intro d hd
    simpa using fun heq : d = '/' => hhost (heq ▸ hd)
  rw [splitUrl, breakOn_marker hscheme, Option.map_some]
  dsimp only
  rw [List.takeWhile_append_of_pos hall, List.dropWhile_append_of_pos hall,
    List.takeWhile_cons_of_neg (by simp), List.dropWhile_cons_of_neg (by simp), List.append_nil]

/-- A host without a slash after it is all of the rest, and the tail is a slash. -/
theorem splitUrl_noSlash {scheme host : List Char} (hscheme : ¬ "://".toList <:+: scheme)
    (hhost : '/' ∉ host) : splitUrl (scheme ++ ("://".toList ++ host)) = some (scheme, host, ['/']) := by
  have hall : ∀ d ∈ host, (decide (d ≠ '/')) = true := by
    intro d hd
    simpa using fun heq : d = '/' => hhost (heq ▸ hd)
  rw [splitUrl, breakOn_marker hscheme, Option.map_some]
  dsimp only
  rw [List.takeWhile_eq_self_iff.mpr hall, List.dropWhile_eq_nil_iff.mpr hall]

/-- Every URL with a marker is one of the two. -/
theorem splitUrl_cases (url : List Char) : (splitUrl url = none ∧ ¬ "://".toList <:+: url) ∨
    ∃ scheme host, ¬ "://".toList <:+: scheme ∧ '/' ∉ host ∧
      (url = scheme ++ ("://".toList ++ host) ∨
        ∃ rest, url = scheme ++ ("://".toList ++ (host ++ '/' :: rest))) := by
  cases hbreak : breakOn "://".toList url with
  | none => exact .inl ⟨by rw [splitUrl, hbreak, Option.map_none], breakOn_eq_none_iff.mp hbreak⟩
  | some parts =>
    obtain ⟨scheme, rest⟩ := parts
    have hurl := eq_of_breakOn hbreak
    rw [List.append_assoc] at hurl
    refine .inr ?_
    by_cases hslash : '/' ∈ rest
    · obtain ⟨host, tail, rfl, hhost⟩ := List.eq_append_cons_of_mem hslash
      exact ⟨scheme, host, not_marker_of_breakOn hbreak, hhost, .inr ⟨tail, hurl⟩⟩
    · exact ⟨scheme, rest, not_marker_of_breakOn hbreak, hslash, .inl hurl⟩

/-! ## Parameters -/

/-- All parameters of a query, with the tracking ones. -/
def allParams (query : List Char) : List (String × String) :=
  (query.splitOn '&').filterMap fun pair =>
    if pair.isEmpty then none
    else some (String.ofList (breakAt '=' pair).1, String.ofList (breakAt '=' pair).2)

theorem queryParams_eq (query : List Char) : queryParams toLowercase query =
    (allParams query).filter fun param => toLowercase param.1 ∉ TRACKING_PARAMS := by
  unfold queryParams allParams
  rw [List.filter_filterMap]
  refine List.filterMap_congr fun pair _ => ?_
  split
  · rfl
  · dsimp only
    split
    · next htracking => simp [htracking, Option.filter]
    · next hkept => simp [hkept, Option.filter]

/-- A parameter that a query can have: its key ends at the first `=`. -/
structure Clean (param : String × String) : Prop where
  keySep : '&' ∉ param.1.toList
  keyEq : '=' ∉ param.1.toList
  valueSep : '&' ∉ param.2.toList

theorem clean_of_mem {query : List Char} {param : String × String} (h : param ∈ allParams query) :
    Clean param := by
  obtain ⟨pair, hpair, hsome⟩ := List.mem_filterMap.mp h
  have hsep : '&' ∉ pair := not_mem_of_mem_splitOn hpair
  split at hsome
  · cases hsome
  · obtain rfl := Option.some.inj hsome
    obtain ⟨heq, hbreak⟩ | ⟨key, value, rfl, hkey, hbreak⟩ := breakAt_cases '=' pair
    · rw [hbreak]
      exact ⟨by simpa using hsep, by simpa using heq, by simp⟩
    · rw [hbreak]
      simp only [List.mem_append, List.mem_cons, not_or] at hsep
      exact ⟨by simpa using hsep.1, by simpa using hkey, by simpa using hsep.2.2⟩

theorem showParam_clean {param : String × String} (h : Clean param) :
    '&' ∉ (showParam param).toList := by
  unfold showParam
  split
  · exact h.keySep
  · simp [h.keySep, h.valueSep]

/-- A parameter is read back from its text, but for the one whose text is empty. -/
theorem read_showParam {param : String × String} (h : Clean param) :
    (if (showParam param).toList.isEmpty then none
      else some (String.ofList (breakAt '=' (showParam param).toList).1,
        String.ofList (breakAt '=' (showParam param).toList).2)) =
      if param = ("", "") then none else some param := by
  obtain ⟨key, value⟩ := param
  unfold showParam
  dsimp only
  by_cases hvalue : value = ""
  · subst hvalue
    rw [if_pos rfl, breakAt_of_not_mem h.keyEq]
    by_cases hkey : key = "" <;> simp [hkey]
  · have hchars : (key ++ "=" ++ value).toList = key.toList ++ '=' :: value.toList := by simp
    rw [if_neg hvalue, hchars, breakAt_append h.keyEq]
    simp [hvalue]

/-- What is written is read back, without the parameter that is written as nothing. -/
theorem allParams_join {params : List (String × String)} (h : ∀ param ∈ params, Clean param) :
    allParams (join '&' (params.map showParam)).toList = params.filter (· ≠ ("", "")) := by
  by_cases hnone : params = []
  · subst hnone
    decide
  · have hpieces : (join '&' (params.map showParam)).toList.splitOn '&' =
        params.map fun param => (showParam param).toList := by
      have hclean : ∀ piece ∈ params.map showParam, '&' ∉ piece.toList := by
        intro piece hpiece
        obtain ⟨param, hparam, rfl⟩ := List.mem_map.mp hpiece
        exact showParam_clean (h param hparam)
      have hsplit := congrArg (List.map String.toList)
        (split_join (by simpa using hnone) hclean)
      simpa [split, List.map_map, Function.comp_def] using hsplit
    rw [allParams, hpieces, List.filterMap_map, ← List.filterMap_eq_filter]
    refine List.filterMap_congr fun param hparam => ?_
    rw [Function.comp_apply, read_showParam (h param hparam)]
    by_cases hempty : param = ("", "") <;> simp [hempty, Option.guard]

end

/-! ## Lower case in a URL -/

/-- White space and ASCII characters that are no letters. -/
def IsMark (c : Char) : Prop := isWhiteSpace c = true ∨ (c.toNat < 128 ∧ c.isAlpha = false)

/-- What is assumed of `str::to_lowercase`: it rewrites a text letter by letter and leaves the marks, and
a text in lower case stays as it is. -/
structure UrlLowercase (toLowercase : String → String) : Prop where
  rewrites : ∀ s, Rewrites IsMark s.toList (toLowercase s).toList
  idem : ∀ s, toLowercase (toLowercase s) = toLowercase s

theorem UrlLowercase.rewrites_ofList {toLowercase : String → String} (laws : UrlLowercase toLowercase)
    (cs : List Char) : Rewrites IsMark cs (toLowercase (String.ofList cs)).toList := by
  have hrewrites := laws.rewrites (String.ofList cs)
  rwa [String.toList_ofList] at hrewrites

theorem isMark_of_ascii {u : List Char}
    (h : u.all (fun c => decide (c.toNat < 128) && ! c.isAlpha) = true) : ∀ d ∈ u, IsMark d := by
  intro d hd
  have hd := List.all_eq_true.mp h d hd
  exact .inr (by simpa using hd)

theorem isMark_marker : ∀ d ∈ "://".toList, IsMark d := isMark_of_ascii (by decide)

theorem isMark_of_mem {d : Char} (h : d ∈ ['/', '?', '#']) : IsMark d := isMark_of_ascii (by decide) d h

theorem UrlLowercase.mem_iff {toLowercase : String → String} (laws : UrlLowercase toLowercase)
    {d : Char} (hd : d ∈ ['/', '?', '#']) (cs : List Char) :
    d ∈ (toLowercase (String.ofList cs)).toList ↔ d ∈ cs :=
  (laws.rewrites_ofList cs).mem_iff (isMark_of_mem hd)

end DSearch.Sign
