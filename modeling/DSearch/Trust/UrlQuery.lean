import DSearch.Trust.UrlNormalForm

/-! # Queries of source URLs

Two queries have one normal form exactly if they have, key by key, the same parameters that are kept, since
the parameters are sorted by their keys and the sort is stable. Five of the tracking keys have capital
letters; the keys of a query are put in lower case before they are looked up, so these five are kept. -/

namespace DSearch.Sign
set_option autoImplicit false
open SeparatedText LetterMaps

/-- The parameters of one key, in the order of the query. -/
def paramsOf (key : String) (query : List Char) : List (String × String) :=
  (allParams query).filter fun param => param.1 = key

/-- The parameters that are read in the query of a normal form. -/
def readQuery (url : String) : List (String × String) := allParams (breakAt '?' url.toList).2

section
variable (toLowercase : String → String)

/-- A tracking key in any letter case. -/
def Tracking (key : String) : Prop := ∃ name ∈ TRACKING_PARAMS, toLowercase name = toLowercase key

/-- A tracking key that is not in the table in lower case. -/
def Leaked (key : String) : Prop := Tracking toLowercase key ∧ toLowercase key ∉ TRACKING_PARAMS

/-- Queries that differ in tracking parameters, in empty segments and in the order of parameters with
different keys. -/
def SameParams (query query' : List Char) : Prop :=
  ∀ key, ¬ Tracking toLowercase key → paramsOf key query = paramsOf key query'

end

/-! ## Segments -/

theorem allParams_append (a b : List Char) :
    allParams (a ++ '&' :: b) = allParams a ++ allParams b := by
  rw [allParams, List.splitOn_append_cons_self, List.filterMap_append]
  rfl

theorem allParams_segment {segment : List Char} (h : '&' ∉ segment) : allParams segment =
    if segment.isEmpty then []
    else [(String.ofList (breakAt '=' segment).1, String.ofList (breakAt '=' segment).2)] := by
  rw [allParams, List.splitOn_eq_singleton h]
  split <;> simp_all

/-- A segment that is empty or has a tracking key may stand anywhere. -/
theorem sameParams_insert (toLowercase : String → String) {segment : List Char} (h : '&' ∉ segment)
    (htracking : segment ≠ [] → Tracking toLowercase (String.ofList (breakAt '=' segment).1))
    (a b : List Char) : SameParams toLowercase (a ++ '&' :: b) (a ++ '&' :: (segment ++ '&' :: b)) := by
  intro key hkey
  have hnone : (allParams segment).filter (fun param => param.1 = key) = [] := by
    rw [allParams_segment h]
    split
    · rfl
    · next hne =>
      refine List.filter_eq_nil_iff.mpr fun param hparam => ?_
      rw [List.mem_singleton.mp hparam, decide_eq_true_eq]
      rintro rfl
      exact hkey (htracking (by simpa using hne))
  simp only [paramsOf, allParams_append, List.filter_append, hnone, List.nil_append]

/-! ## What is written -/

theorem breakAt_showParam {param : String × String} (h : Clean param) :
    breakAt '=' (showParam param).toList = (param.1.toList, param.2.toList) := by
  unfold showParam
  split
  · next hvalue => rw [breakAt_of_not_mem h.keyEq, hvalue, String.toList_empty]
  · have hchars : (param.1 ++ "=" ++ param.2).toList = param.1.toList ++ '=' :: param.2.toList := by simp
    rw [hchars, breakAt_append h.keyEq]

/-- Parameters are written in different ways. -/
theorem printParams_injective {params params' : List (String × String)}
    (hparams : ∀ param ∈ params, Clean param) (hparams' : ∀ param ∈ params', Clean param)
    (h : printParams params = printParams params') : params = params' := by
  have hread : ∀ params : List (String × String), (∀ param ∈ params, Clean param) →
      (params.map showParam).map (fun text =>
        (String.ofList (breakAt '=' text.toList).1, String.ofList (breakAt '=' text.toList).2)) =
        params := by
    intro params hclean
    rw [List.map_map]
    refine (List.map_congr_left fun param hparam => ?_).trans (List.map_id params)
    rw [Function.comp_apply, breakAt_showParam (hclean param hparam)]
    simp
  have hpieces : ∀ params : List (String × String), (∀ param ∈ params, Clean param) →
      ∀ piece ∈ params.map showParam, '&' ∉ piece.toList := by
    intro params hclean piece hpiece
    obtain ⟨param, hparam, rfl⟩ := List.mem_map.mp hpiece
    exact showParam_clean (hclean param hparam)
  unfold printParams at h
  split at h
  · next hnil =>
    split at h
    · next hnil' => rw [List.isEmpty_iff.mp hnil, List.isEmpty_iff.mp hnil']
    · cases h
  · next hne =>
    split at h
    · cases h
    · next hne' =>
      have htexts := String.toList_inj.mp (List.cons.inj h).2
      have hshown := congrArg (split '&') htexts
      rw [split_join (by simpa using hne) (hpieces params hparams),
        split_join (by simpa using hne') (hpieces params' hparams')] at hshown
      rw [← hread params hparams, hshown, hread params' hparams']

section
variable {toLowercase : String → String}

theorem clean_of_kept {query : List Char} :
    ∀ param ∈ sortParams (queryParams toLowercase query), Clean param := by
  intro param hparam
  rw [mem_sortParams, queryParams_eq] at hparam
  exact clean_of_mem (List.mem_of_mem_filter hparam)

variable (toLowercase) in
/-- The kept parameters of a key are all of them or none. -/
theorem filter_queryParams (key : String) (query : List Char) :
    (queryParams toLowercase query).filter (fun param => param.1 = key) =
      if toLowercase key ∈ TRACKING_PARAMS then [] else paramsOf key query := by
  rw [queryParams_eq, List.filter_filter, paramsOf]
  split
  · next htracking =>
    refine List.filter_eq_nil_iff.mpr fun param _ => ?_
    simp only [Bool.and_eq_true, decide_eq_true_eq, not_and, not_not]
    rintro rfl
    exact htracking
  · next hkept =>
    refine List.filter_congr fun param _ => ?_
    by_cases hkey : param.1 = key
    · simp [hkey, hkept]
    · simp [hkey]

theorem sortParams_eq_iff (query query' : List Char) :
    sortParams (queryParams toLowercase query) = sortParams (queryParams toLowercase query') ↔
      ∀ key, toLowercase key ∉ TRACKING_PARAMS → paramsOf key query = paramsOf key query' := by
  unfold sortParams
  rw [StableSort.insertionSort_eq_iff Prod.fst]
  simp only [filter_queryParams]
  constructor
  · intro h key hkey
    simpa [hkey] using h key
  · intro h key
    split
    · rfl
    · next hkey => exact h key hkey

/-! ## The normal form of a URL with a query -/

/-- A URL of which a scheme, a host, an explicit path and a query are left. -/
structure HasQuery (url : String) (scheme host path query : List Char) : Prop where
  parts : bareUrl url = scheme ++ ("://".toList ++ (host ++ '/' :: (path ++ '?' :: query)))
  noMarker : ¬ "://".toList <:+: scheme
  scheme : '?' ∉ scheme
  host : '/' ∉ host ∧ '?' ∉ host
  path : '?' ∉ path

/-- What stands before the query in the normal form. -/
def normalFront (toLowercase : String → String) (scheme host path : List Char) : List Char :=
  (toLowercase (String.ofList (scheme ++ "://".toList))).toList ++
    (toLowercase (String.ofList host)).toList ++ stripSlash ('/' :: path)

variable {url url' : String} {scheme host path query query' : List Char}

theorem HasQuery.normalize (h : HasQuery url scheme host path query) :
    normalizeSourceUrl toLowercase url = String.ofList (normalFront toLowercase scheme host path ++
      printParams (sortParams (queryParams toLowercase query))) := by
  have hsplit := splitUrl_slash h.noMarker h.host.1 (path ++ '?' :: query)
  rw [← h.parts] at hsplit
  have hbreak : breakAt '?' ('/' :: (path ++ '?' :: query)) = ('/' :: path, query) :=
    breakAt_append (a := '/' :: path) (by simp [h.path]) query
  rw [normalizeSourceUrl_some hsplit, normalTail, hbreak, ← String.toList_inj]
  simp [normalFront, String.toList_append]

theorem HasQuery.mark_not_mem (laws : UrlLowercase toLowercase)
    (h : HasQuery url scheme host path query) : '?' ∉ normalFront toLowercase scheme host path := by
  simp only [normalFront, List.mem_append, not_or]
  refine ⟨⟨fun hmem => ?_, fun hmem => ?_⟩, not_mem_stripSlash (by simp [h.path])⟩
  · rcases List.mem_append.mp ((laws.mem_iff (by decide) _).mp hmem) with hmem | hmem
    · exact h.scheme hmem
    · exact absurd hmem (by decide)
  · exact h.host.2 ((laws.mem_iff (by decide) _).mp hmem)

/-- Two normal forms are equal exactly if the kept parameters are, key by key. -/
theorem HasQuery.normalize_eq_iff (h : HasQuery url scheme host path query)
    (h' : HasQuery url' scheme host path query') :
    normalizeSourceUrl toLowercase url = normalizeSourceUrl toLowercase url' ↔
      ∀ key, toLowercase key ∉ TRACKING_PARAMS → paramsOf key query = paramsOf key query' := by
  rw [h.normalize, h'.normalize, String.ofList_inj, List.append_cancel_left_eq, ← sortParams_eq_iff]
  exact ⟨printParams_injective clean_of_kept clean_of_kept, congrArg printParams⟩

/-- The parameters are read back from the normal form, without those that are written as nothing. -/
theorem HasQuery.readQuery_normalize (laws : UrlLowercase toLowercase)
    (h : HasQuery url scheme host path query) :
    readQuery (normalizeSourceUrl toLowercase url) =
      (sortParams (queryParams toLowercase query)).filter (· ≠ ("", "")) := by
  rw [readQuery, h.normalize, String.toList_ofList, breakAt_printParams (h.mark_not_mem laws)]
  exact allParams_join clean_of_kept

theorem tracking_of_mem (laws : UrlLowercase toLowercase) {key : String}
    (h : toLowercase key ∈ TRACKING_PARAMS) : Tracking toLowercase key :=
  ⟨toLowercase key, h, laws.idem key⟩

theorem empty_not_tracking (laws : UrlLowercase toLowercase) : ¬ Tracking toLowercase "" := by
  rintro ⟨name, hname, heq⟩
  have hempty := (laws.rewrites "").of_marks (by simp)
  have hrewrites := laws.rewrites name
  rw [heq, hempty] at hrewrites
  obtain rfl : name = "" := by simpa using hrewrites.eq_nil
  exact absurd hname (by decide)

/-- A parameter is lost exactly if it has neither key nor value. -/
theorem HasQuery.lost_none_iff (laws : UrlLowercase toLowercase)
    (h : HasQuery url scheme host path query) :
    (∀ key, ¬ Tracking toLowercase key →
      (readQuery (normalizeSourceUrl toLowercase url)).filter (fun param => param.1 = key) =
        paramsOf key query) ↔ ['='] ∉ query.splitOn '&' := by
  have hread : ∀ key, ¬ Tracking toLowercase key →
      (readQuery (normalizeSourceUrl toLowercase url)).filter (fun param => param.1 = key) =
        (paramsOf key query).filter (· ≠ ("", "")) := by
    intro key hkey
    have hkept := filter_queryParams toLowercase key query
    rw [if_neg fun hmem => hkey (tracking_of_mem laws hmem)] at hkept
    rw [h.readQuery_normalize laws, List.filter_comm, sortParams,
      StableSort.filter_insertionSort Prod.fst, hkept]
  rw [← empty_mem_allParams]
  constructor
  · intro hall hmem
    have hempty := hall "" (empty_not_tracking laws)
    rw [hread "" (empty_not_tracking laws)] at hempty
    have hlost : ("", "") ∈ paramsOf "" query := List.mem_filter.mpr ⟨hmem, by simp⟩
    rw [← hempty] at hlost
    simpa using List.of_mem_filter hlost
  · intro hmem key hkey
    rw [hread key hkey, List.filter_eq_self]
    intro param hparam
    refine decide_eq_true fun heq => hmem ?_
    rw [← heq]
    exact List.mem_of_mem_filter hparam

/-- Queries that differ in tracking parameters only have one normal form, and no other parameter is lost,
exactly if they do not differ in leaked ones and `=` is no segment. -/
theorem normalize_query_iff (laws : UrlLowercase toLowercase) (h : HasQuery url scheme host path query)
    (h' : HasQuery url' scheme host path query') (hsame : SameParams toLowercase query query') :
    (normalizeSourceUrl toLowercase url = normalizeSourceUrl toLowercase url' ∧
      ∀ key, ¬ Tracking toLowercase key →
        (readQuery (normalizeSourceUrl toLowercase url)).filter (fun param => param.1 = key) =
          paramsOf key query) ↔
      (∀ key, Leaked toLowercase key → paramsOf key query = paramsOf key query') ∧
        ['='] ∉ query.splitOn '&' := by
  rw [h.normalize_eq_iff h', h.lost_none_iff laws]
  refine and_congr_left fun _ => ⟨fun hkept key hkey => hkept key hkey.2, fun hleaked key hkey => ?_⟩
  by_cases htracking : Tracking toLowercase key
  · exact hleaked key ⟨htracking, hkey⟩
  · exact hsame key htracking

end

theorem normalize_query_iff_inserted :
    normalizeSourceUrl Query.asciiLowercase "https://h.org/p?b=2&A=1" =
      normalizeSourceUrl Query.asciiLowercase "https://h.org/p?b=2&UTM_id=3&A=1" := by
  have hquery : HasQuery "https://h.org/p?b=2&A=1" "https".toList "h.org".toList "p".toList
      ("b=2".toList ++ '&' :: "A=1".toList) :=
    ⟨by decide +kernel, by decide, by decide, by decide, by decide⟩
  have hinserted : HasQuery "https://h.org/p?b=2&UTM_id=3&A=1" "https".toList "h.org".toList
      "p".toList ("b=2".toList ++ '&' :: ("UTM_id=3".toList ++ '&' :: "A=1".toList)) :=
    ⟨by decide +kernel, by decide, by decide, by decide, by decide⟩
  have hsame := sameParams_insert Query.asciiLowercase (show '&' ∉ "UTM_id=3".toList by decide)
    (fun _ => ⟨"utm_id", by decide, by decide +kernel⟩) "b=2".toList "A=1".toList
  refine ((normalize_query_iff urlLowercase_ascii hquery hinserted hsame).mpr ⟨?_, by decide⟩).1
  intro key hkey
  -- the key of the inserted parameter is left out in any letter case
  have hnone : paramsOf key "UTM_id=3".toList = [] := by
    have hparams : allParams "UTM_id=3".toList = [("UTM_id", "3")] := by decide +kernel
    rw [paramsOf, hparams, List.filter_eq_nil_iff]
    rintro param hparam hname
    obtain rfl := List.mem_singleton.mp hparam
    obtain rfl := of_decide_eq_true hname
    exact hkey.2 (by decide +kernel)
  rw [paramsOf] at hnone ⊢
  rw [paramsOf, allParams_append, allParams_append, allParams_append, List.filter_append,
    List.filter_append, List.filter_append, hnone, List.nil_append]

theorem normalize_query_keeps_hsCtaTracking : ¬ ∀ toLowercase : String → String,
    UrlLowercase toLowercase → ∀ (url url' : String) (scheme host path query query' : List Char),
      HasQuery url scheme host path query → HasQuery url' scheme host path query' →
      SameParams toLowercase query query' →
      normalizeSourceUrl toLowercase url = normalizeSourceUrl toLowercase url' ∧
        ∀ key, ¬ Tracking toLowercase key →
          (readQuery (normalizeSourceUrl toLowercase url)).filter (fun param => param.1 = key) =
            paramsOf key query := by
  intro hclaim
  have hquery : HasQuery "https://h.org/p?b=2&a=1" "https".toList "h.org".toList "p".toList
      ("b=2".toList ++ '&' :: "a=1".toList) :=
    ⟨by decide +kernel, by decide, by decide, by decide, by decide⟩
  have hinserted : HasQuery "https://h.org/p?b=2&hsCtaTracking=3&a=1" "https".toList "h.org".toList
      "p".toList ("b=2".toList ++ '&' :: ("hsCtaTracking=3".toList ++ '&' :: "a=1".toList)) :=
    ⟨by decide +kernel, by decide, by decide, by decide, by decide⟩
  have hsame := sameParams_insert Query.asciiLowercase
    (show '&' ∉ "hsCtaTracking=3".toList by decide)
    (fun _ => ⟨"hsCtaTracking", by decide, by decide +kernel⟩) "b=2".toList "a=1".toList
  have hforms := (hclaim _ urlLowercase_ascii _ _ _ _ _ _ _ hquery hinserted hsame).1
  have hone : normalizeSourceUrl Query.asciiLowercase "https://h.org/p?b=2&a=1" =
      "https://h.org/p?a=1&b=2" := by decide +kernel
  have hother : normalizeSourceUrl Query.asciiLowercase "https://h.org/p?b=2&hsCtaTracking=3&a=1" =
      "https://h.org/p?a=1&b=2&hsCtaTracking=3" := by decide +kernel
  rw [hone, hother] at hforms
  exact absurd hforms (by decide)

end DSearch.Sign
