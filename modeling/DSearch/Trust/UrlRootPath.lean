import DSearch.Trust.UrlNormalForm

/-! # URLs without a path

The host is all that stands before the first slash. Where a query follows the host and no path is between
them, the query is taken for a part of the host, up to a slash in it: it is put in lower case, nothing is
left out of it, and the normal form is never the one with the root path. -/

namespace DSearch.Sign
set_option autoImplicit false
open LetterMaps

theorem noMarker_dropWhile {scheme : List Char} (h : ¬ "://".toList <:+: scheme) (p : Char → Bool) :
    ¬ "://".toList <:+: scheme.dropWhile p :=
  fun hin => h (hin.trans (List.dropWhile_suffix p).isInfix)

/-- What is left of a URL with a query: white space is before its scheme and after its query only. -/
theorem bareUrl_query {scheme mid query : List Char} (hscheme : '#' ∉ scheme) (hmid : '#' ∉ mid)
    (hquery : '#' ∉ query) :
    bareUrl (String.ofList (scheme ++ ("://".toList ++ (mid ++ '?' :: query)))) =
      scheme.dropWhile isWhiteSpace ++
        ("://".toList ++ (mid ++ '?' :: query.rdropWhile isWhiteSpace)) := by
  have hfront : (scheme ++ ("://".toList ++ (mid ++ '?' :: query))).dropWhile isWhiteSpace =
      scheme.dropWhile isWhiteSpace ++ ("://".toList ++ (mid ++ '?' :: query)) :=
    dropWhile_append_cons (c := ':') (by decide) scheme _
  have hback := rdropWhile_append_cons (p := isWhiteSpace) (c := '?') (by decide)
    (scheme.dropWhile isWhiteSpace ++ ("://".toList ++ mid)) query
  simp only [List.append_assoc] at hback
  rw [bareUrl, String.toList_ofList, trim_eq, hfront, hback, breakAt_of_not_mem]
  simp only [List.mem_append, List.mem_cons, not_or]
  exact ⟨fun hmem => hscheme ((List.dropWhile_sublist _).subset hmem), by decide, hmid, by decide,
    fun hmem => hquery ((List.rdropWhile_prefix _ _).subset hmem)⟩

section
variable (toLowercase : String → String)

/-- The question mark and the query up to its first slash are put in lower case with the host. -/
theorem normalize_noPath {scheme host query : List Char} (hscheme : '#' ∉ scheme)
    (hmarker : ¬ "://".toList <:+: scheme) (hhost : '/' ∉ host ∧ '#' ∉ host) (hquery : '#' ∉ query) :
    ∃ front tail, normalizeSourceUrl toLowercase
        (String.ofList (scheme ++ ("://".toList ++ (host ++ '?' :: query)))) =
      toLowercase (String.ofList (scheme.dropWhile isWhiteSpace ++ "://".toList)) ++
        toLowercase (String.ofList (host ++ '?' :: front)) ++ String.ofList tail := by
  have hbare := bareUrl_query hscheme hhost.2 hquery
  have hstart := noMarker_dropWhile hmarker isWhiteSpace
  by_cases hslash : '/' ∈ query.rdropWhile isWhiteSpace
  · obtain ⟨front, rest, hparts, hfront⟩ := List.eq_append_cons_of_mem hslash
    have hin : '/' ∉ host ++ '?' :: front := by simp [hhost.1, hfront]
    have hsplit := splitUrl_slash hstart hin rest
    rw [List.append_assoc, List.cons_append, ← hparts, ← hbare] at hsplit
    exact ⟨front, _, normalizeSourceUrl_some hsplit⟩
  · have hin : '/' ∉ host ++ '?' :: query.rdropWhile isWhiteSpace := by simp [hhost.1, hslash]
    have hsplit := splitUrl_noSlash hstart hin
    rw [← hbare] at hsplit
    exact ⟨_, _, normalizeSourceUrl_some hsplit⟩

theorem normalize_rootPath {scheme host query : List Char} (hscheme : '#' ∉ scheme)
    (hmarker : ¬ "://".toList <:+: scheme) (hhost : '/' ∉ host ∧ '#' ∉ host) (hquery : '#' ∉ query) :
    ∃ tail, normalizeSourceUrl toLowercase
        (String.ofList (scheme ++ ("://".toList ++ (host ++ '/' :: '?' :: query)))) =
      toLowercase (String.ofList (scheme.dropWhile isWhiteSpace ++ "://".toList)) ++
        toLowercase (String.ofList host) ++ String.ofList ('/' :: tail) := by
  have hmid : '#' ∉ host ++ ['/'] := by simp [hhost.2]
  have hbare := bareUrl_query hscheme hmid hquery
  simp only [List.append_assoc, List.singleton_append] at hbare
  have hstart := noMarker_dropWhile hmarker isWhiteSpace
  have hsplit := splitUrl_slash hstart hhost.1 ('?' :: query.rdropWhile isWhiteSpace)
  rw [← hbare] at hsplit
  obtain ⟨tail, htail⟩ := exists_normalTail toLowercase
    ('?' :: query.rdropWhile isWhiteSpace)
  exact ⟨tail, by rw [normalizeSourceUrl_some hsplit, htail]⟩

/-- Two texts that meet different marks first are different. -/
theorem append_mark_ne {c d : Char} (hcd : c ≠ d) {a b : List Char} (ha : d ∉ a) (hb : c ∉ b)
    (rest rest' : List Char) : a ++ c :: rest ≠ b ++ d :: rest' := by
  intro heq
  rcases List.append_eq_append_iff.mp heq with ⟨mid, hb', hrest⟩ | ⟨mid, ha', hrest⟩
  · cases mid with
    | nil => exact hcd (List.cons.inj hrest).1
    | cons e mid =>
      obtain ⟨rfl, -⟩ := List.cons.inj hrest
      exact hb (by simp [hb'])
  · cases mid with
    | nil => exact hcd (List.cons.inj hrest).1.symm
    | cons e mid =>
      obtain ⟨rfl, -⟩ := List.cons.inj hrest
      exact ha (by simp [ha'])

variable {toLowercase} in
/-- A URL without a path never has the normal form of the one with the root path: after the host, a
question mark comes first in the one and a slash in the other. -/
theorem normalize_noPath_ne (laws : UrlLowercase toLowercase) {scheme host query : String}
    (hmarker : ¬ "://".toList <:+: scheme.toList) (hscheme : '#' ∉ scheme.toList)
    (hhost : '/' ∉ host.toList ∧ '?' ∉ host.toList ∧ '#' ∉ host.toList) (hquery : '#' ∉ query.toList) :
    normalizeSourceUrl toLowercase (scheme ++ "://" ++ host ++ "?" ++ query) ≠
      normalizeSourceUrl toLowercase (scheme ++ "://" ++ host ++ "/?" ++ query) := by
  have hnoPath : scheme ++ "://" ++ host ++ "?" ++ query = String.ofList
      (scheme.toList ++ ("://".toList ++ (host.toList ++ '?' :: query.toList))) := by
    rw [← String.toList_inj]
    simp
  have hrootPath : scheme ++ "://" ++ host ++ "/?" ++ query = String.ofList
      (scheme.toList ++ ("://".toList ++ (host.toList ++ '/' :: '?' :: query.toList))) := by
    rw [← String.toList_inj]
    simp
  obtain ⟨front, tail, hone⟩ := normalize_noPath toLowercase hscheme hmarker
    ⟨hhost.1, hhost.2.2⟩ hquery
  obtain ⟨tail', hother⟩ := normalize_rootPath toLowercase hscheme hmarker
    ⟨hhost.1, hhost.2.2⟩ hquery
  rw [hnoPath, hrootPath, hone, hother, String.append_assoc, String.append_assoc, Ne,
    String.append_right_inj, ← String.toList_inj, String.toList_append, String.toList_append,
    String.toList_ofList, String.toList_ofList]
  obtain ⟨before, after, hlower, hbefore, -⟩ :=
    (laws.rewrites_ofList (host.toList ++ '?' :: front)).split_left (isMark_of_mem (by decide))
  have hslash : '/' ∉ before :=
    fun hmem => hhost.1 ((hbefore.mem_iff (isMark_of_mem (by decide))).mp hmem)
  have hmark : '?' ∉ (toLowercase (String.ofList host.toList)).toList :=
    fun hmem => hhost.2.1 ((laws.mem_iff (by decide) _).mp hmem)
  rw [hlower, List.append_assoc]
  exact append_mark_ne (by decide) hslash hmark _ _

end

theorem normalize_noPath_ne_tracking :
    normalizeSourceUrl Query.asciiLowercase ("https" ++ "://" ++ "H.org" ++ "?" ++ "Q=a/b&ver=1") ≠
      normalizeSourceUrl Query.asciiLowercase ("https" ++ "://" ++ "H.org" ++ "/?" ++ "Q=a/b&ver=1") :=
  normalize_noPath_ne urlLowercase_ascii (by decide) (by decide) (by decide) (by decide)

theorem normalize_noPath_keeps_tracking : ¬ ∀ toLowercase : String → String, UrlLowercase toLowercase →
    ∀ scheme host query : String, ¬ "://".toList <:+: scheme.toList → '#' ∉ scheme.toList →
      '/' ∉ host.toList ∧ '?' ∉ host.toList ∧ '#' ∉ host.toList → '#' ∉ query.toList →
      normalizeSourceUrl toLowercase (scheme ++ "://" ++ host ++ "?" ++ query) =
        normalizeSourceUrl toLowercase (scheme ++ "://" ++ host ++ "/?" ++ query) := by
  intro hclaim
  have hsame := hclaim Query.asciiLowercase urlLowercase_ascii "https" "h.org" "utm_id=1&Q=a"
    (by decide) (by decide) (by decide) (by decide)
  have hone : normalizeSourceUrl Query.asciiLowercase ("https" ++ "://" ++ "h.org" ++ "?" ++
      "utm_id=1&Q=a") = "https://h.org?utm_id=1&q=a/" := by decide +kernel
  have hother : normalizeSourceUrl Query.asciiLowercase ("https" ++ "://" ++ "h.org" ++ "/?" ++
      "utm_id=1&Q=a") = "https://h.org/?Q=a" := by decide +kernel
  rw [hone, hother] at hsame
  exact absurd hsame (by decide)

end DSearch.Sign
