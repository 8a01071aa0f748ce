import DSearch.Search.Query
import DSearch.Trust.UrlParts

/-! # Normal forms of source URLs

The normal form of a URL is not always its own normal form: one slash is taken from the end of a path,
white space is trimmed before the fragment and the slash are taken off, and a parameter without key and
value is written as nothing. Each of these makes the next normal form shorter, and nothing else
changes. -/

namespace DSearch.Sign
set_option autoImplicit false
open SeparatedText LetterMaps

/-! ## Lengths -/

theorem length_stripSlash_le (path : List Char) : (stripSlash path).length ≤ path.length := by
  unfold stripSlash
  split
  · rw [List.length_dropLast]
    exact Nat.sub_le _ 1
  · exact le_refl _

theorem stripSlash_eq_of_length {path : List Char} (h : path.length ≤ (stripSlash path).length) :
    stripSlash path = path := by
  unfold stripSlash at h ⊢
  split at h
  · next hslash =>
    have hlong : path.length > 1 := of_decide_eq_true (Bool.and_eq_true_iff.mp hslash).1
    rw [List.length_dropLast] at h
    omega
  · next hplain => rw [if_neg hplain]

/-- What a parameter takes of a query: its text and the separator before it. -/
def paramLength (param : String × String) : ℕ := (showParam param).toList.length + 1

theorem length_printParams (params : List (String × String)) :
    (printParams params).length = (params.map paramLength).sum := by
  unfold printParams
  cases params with
  | nil => rfl
  | cons param params =>
    have hjoin : ∀ (param : String × String) (params : List (String × String)),
        (join '&' ((param :: params).map showParam)).toList.length + 1 =
          ((param :: params).map paramLength).sum := by
      intro param params
      induction params generalizing param with
      | nil => simp [join, paramLength]
      | cons next params ih =>
        have hnext := ih next
        simp only [List.map_cons, List.sum_cons, join, String.toList_ofList, List.intercalate_cons_cons,
          List.length_append, List.length_cons, List.length_nil, paramLength] at hnext ⊢
        omega
    rw [if_neg (by simp), List.length_cons]
    exact hjoin param params

theorem length_splitOn (sep : Char) (cs : List Char) :
    ((cs.splitOn sep).map fun piece => piece.length + 1).sum = cs.length + 1 := by
  induction cs using piece_induction sep with
  | one a ha => simp [List.splitOn_eq_singleton ha]
  | more a b ha ih =>
    rw [List.splitOn_append_cons_self, List.splitOn_eq_singleton ha]
    simp only [List.singleton_append, List.map_cons, List.sum_cons, ih, List.length_append,
      List.length_cons]
    omega

theorem length_showParam_le (pair : List Char) :
    (showParam (String.ofList (breakAt '=' pair).1, String.ofList (breakAt '=' pair).2)).toList.length ≤
      pair.length := by
  obtain ⟨-, hbreak⟩ | ⟨key, value, rfl, -, hbreak⟩ := breakAt_cases '=' pair
  · simp [hbreak, showParam]
  · rw [hbreak, showParam]
    split
    · simp
    · simp

theorem length_allParams_le (query : List Char) :
    ((allParams query).map paramLength).sum ≤ query.length + 1 := by
  have hpieces : ∀ pieces : List (List Char), ((pieces.filterMap fun pair =>
      if pair.isEmpty then none
      else some (String.ofList (breakAt '=' pair).1, String.ofList (breakAt '=' pair).2)).map
        paramLength).sum ≤ (pieces.map fun piece => piece.length + 1).sum := by
    intro pieces
    induction pieces with
    | nil => exact le_refl _
    | cons pair pieces ih =>
      rw [List.map_cons, List.sum_cons]
      by_cases hempty : pair.isEmpty
      · rw [List.filterMap_cons_none (by simp [hempty])]
        exact le_trans ih (Nat.le_add_left _ _)
      · rw [List.filterMap_cons_some (by rw [if_neg hempty]), List.map_cons, List.sum_cons]
        exact Nat.add_le_add (Nat.add_le_add_right (length_showParam_le pair) 1) ih
  rw [← length_splitOn '&' query]
  exact hpieces _

theorem sum_written_le (params : List (String × String)) :
    ((params.filter (· ≠ ("", ""))).map paramLength).sum ≤ (params.map paramLength).sum :=
  (List.filter_sublist.map paramLength).sum_le_sum fun _ _ => Nat.zero_le _

/-- An empty parameter takes its separator. -/
theorem sum_written_lt {params : List (String × String)} (h : ("", "") ∈ params) :
    ((params.filter (· ≠ ("", ""))).map paramLength).sum < (params.map paramLength).sum := by
  obtain ⟨front, back, rfl⟩ := List.append_of_mem h
  have hfront := sum_written_le front
  have hback := sum_written_le back
  have hone : paramLength ("", "") = 1 := rfl
  rw [List.filter_append, List.filter_cons_of_neg (by simp), List.map_append, List.map_append,
    List.sum_append, List.sum_append, List.map_cons, List.sum_cons, hone]
  omega

section
variable (toLowercase : String → String)

theorem length_printParams_le (query : List Char) :
    (printParams (sortParams (queryParams toLowercase query))).length ≤ query.length + 1 := by
  have hperm := (List.perm_insertionSort (fun a b : String × String => a.1 ≤ b.1)
    (queryParams toLowercase query)).map paramLength
  have hsub : ((queryParams toLowercase query).map paramLength).Sublist
      ((allParams query).map paramLength) := by
    rw [queryParams_eq]
    exact List.filter_sublist.map _
  rw [length_printParams, sortParams, hperm.sum_eq]
  exact (hsub.sum_le_sum fun _ _ => Nat.zero_le _).trans (length_allParams_le query)

theorem normalTail_of_not_mem {tail : List Char} (h : '?' ∉ tail) :
    normalTail toLowercase tail = stripSlash tail := by
  rw [normalTail, breakAt_of_not_mem h]
  exact List.append_nil _

theorem length_normalTail_le (tail : List Char) : (normalTail toLowercase tail).length ≤ tail.length := by
  obtain ⟨hnone, -⟩ | ⟨path, query, rfl, -, hbreak⟩ := breakAt_cases '?' tail
  · rw [normalTail_of_not_mem toLowercase hnone]
    exact length_stripSlash_le tail
  · rw [normalTail, hbreak, List.length_append, List.length_append, List.length_cons]
    exact Nat.add_le_add (length_stripSlash_le path) (length_printParams_le toLowercase query)

/-! ## The normal form of a tail that is one -/

theorem breakAt_printParams {path : List Char} (h : '?' ∉ path) (params : List (String × String)) :
    breakAt '?' (path ++ printParams params) =
      (path, (join '&' (params.map showParam)).toList) := by
  unfold printParams
  cases params with
  | nil =>
    rw [if_pos List.isEmpty_nil, List.append_nil, breakAt_of_not_mem h]
    rfl
  | cons param params =>
    rw [if_neg (by simp), breakAt_append h]

theorem pairwise_sortParams (params : List (String × String)) :
    (sortParams params).Pairwise fun a b => a.1 ≤ b.1 :=
  StableSort.sorted_insertionSort Prod.fst params

theorem mem_sortParams {params : List (String × String)} {param : String × String} :
    param ∈ sortParams params ↔ param ∈ params := List.mem_insertionSort _

/-- Parameters that were kept and sorted are kept and sorted again. -/
theorem sortParams_read (query : List Char) :
    sortParams (queryParams toLowercase (join '&'
      ((sortParams (queryParams toLowercase query)).map showParam)).toList) =
      (sortParams (queryParams toLowercase query)).filter (· ≠ ("", "")) := by
  have hkept : ∀ param ∈ sortParams (queryParams toLowercase query),
      Clean param ∧ toLowercase param.1 ∉ TRACKING_PARAMS := by
    intro param hparam
    rw [mem_sortParams, queryParams_eq] at hparam
    obtain ⟨hmem, hname⟩ := List.mem_filter.mp hparam
    exact ⟨clean_of_mem hmem, of_decide_eq_true hname⟩
  rw [queryParams_eq, allParams_join fun param hparam => (hkept param hparam).1,
    List.filter_eq_self.mpr, sortParams]
  · exact ((pairwise_sortParams _).filter _).insertionSort_eq
  · intro param hparam
    exact decide_eq_true (hkept param (List.mem_of_mem_filter hparam)).2

/-- A normal tail is its own normal tail exactly if its path has no slash to lose and no parameter is
empty. -/
theorem normalTail_eq_self_iff {path : List Char} (h : '?' ∉ path) (query : List Char) :
    normalTail toLowercase (path ++ printParams (sortParams (queryParams toLowercase query))) =
        path ++ printParams (sortParams (queryParams toLowercase query)) ↔
      stripSlash path = path ∧ ("", "") ∉ queryParams toLowercase query := by
  rw [normalTail, breakAt_printParams h]
  dsimp only
  rw [sortParams_read]
  constructor
  · intro hsame
    have hlen := congrArg List.length hsame
    rw [List.length_append, List.length_append, length_printParams, length_printParams] at hlen
    have hpath := length_stripSlash_le path
    have hparams := sum_written_le (sortParams (queryParams toLowercase query))
    refine ⟨stripSlash_eq_of_length (by omega), fun hempty => ?_⟩
    have hlost := sum_written_lt (mem_sortParams.mpr hempty)
    omega
  · rintro ⟨hpath, hempty⟩
    rw [hpath, List.filter_eq_self.mpr]
    intro param hparam
    refine decide_eq_true fun heq => hempty ?_
    rw [← heq]
    exact mem_sortParams.mp hparam

end

/-! ## Characters of a normal form -/

theorem mem_of_mem_breakAt {c d : Char} {cs : List Char} (h : d ∉ cs) :
    d ∉ (breakAt c cs).1 ∧ d ∉ (breakAt c cs).2 := by
  obtain ⟨-, hbreak⟩ | ⟨a, b, rfl, -, hbreak⟩ := breakAt_cases c cs
  · simp [hbreak, h]
  · rw [hbreak]
    simp only [List.mem_append, List.mem_cons, not_or] at h
    exact ⟨h.1, h.2.2⟩

theorem not_mem_stripSlash {d : Char} {path : List Char} (h : d ∉ path) : d ∉ stripSlash path := by
  unfold stripSlash
  split
  · exact fun hd => h (List.dropLast_subset path hd)
  · exact h

theorem not_mem_showParam {d : Char} (hd : d ≠ '=') {query : List Char} (h : d ∉ query)
    {param : String × String} (hparam : param ∈ allParams query) : d ∉ (showParam param).toList := by
  obtain ⟨pair, hpair, hsome⟩ := List.mem_filterMap.mp hparam
  have hchars : d ∉ pair := fun hmem => h ((infix_of_mem_splitOn hpair).subset hmem)
  have hparts := mem_of_mem_breakAt (c := '=') hchars
  split at hsome
  · cases hsome
  · obtain rfl := Option.some.inj hsome
    unfold showParam
    split
    · simpa using hparts.1
    · simpa [hd] using hparts

theorem not_mem_join {d sep : Char} (hd : d ≠ sep) {pieces : List String}
    (h : ∀ piece ∈ pieces, d ∉ piece.toList) : d ∉ (join sep pieces).toList := by
  rw [join, String.toList_ofList]
  induction pieces with
  | nil => simp
  | cons piece pieces ih =>
    have hfirst := h piece List.mem_cons_self
    have hrest := ih fun piece hpiece => h piece (List.mem_cons_of_mem _ hpiece)
    cases pieces with
    | nil => simpa using hfirst
    | cons next pieces =>
      rw [List.map_cons, List.map_cons, List.intercalate_cons_cons]
      rw [List.map_cons] at hrest
      simp only [List.mem_append, List.mem_singleton, not_or]
      exact ⟨⟨hfirst, hd⟩, hrest⟩

section
variable {toLowercase : String → String}

theorem not_mem_normalTail {d : Char} (hd : d ∉ ['?', '&', '=']) {tail : List Char} (h : d ∉ tail) :
    d ∉ normalTail toLowercase tail := by
  simp only [List.mem_cons, List.not_mem_nil, or_false, not_or] at hd
  have hparts := mem_of_mem_breakAt (c := '?') h
  rw [normalTail, List.mem_append, not_or]
  refine ⟨not_mem_stripSlash hparts.1, ?_⟩
  unfold printParams
  split
  · simp
  · rw [List.mem_cons, not_or]
    refine ⟨hd.1, not_mem_join hd.2.1 ?_⟩
    intro piece hpiece
    obtain ⟨param, hparam, rfl⟩ := List.mem_map.mp hpiece
    rw [mem_sortParams, queryParams_eq] at hparam
    exact not_mem_showParam hd.2.2 hparts.2 (List.mem_of_mem_filter hparam)

theorem exists_stripSlash (path : List Char) : ∃ rest, stripSlash ('/' :: path) = '/' :: rest := by
  unfold stripSlash
  split
  · next hslash =>
    have hlong : ('/' :: path).length > 1 := of_decide_eq_true (Bool.and_eq_true_iff.mp hslash).1
    cases path with
    | nil => simp at hlong
    | cons c path => exact ⟨_, List.dropLast_cons_cons⟩
  · exact ⟨path, rfl⟩

theorem breakAt_slash (rest : List Char) :
    (breakAt '?' ('/' :: rest)).1 = '/' :: rest.takeWhile (· ≠ '?') := by
  change ('/' :: rest).takeWhile (· ≠ '?') = _
  exact List.takeWhile_cons_of_pos (by decide)

variable (toLowercase) in
theorem exists_normalTail (rest : List Char) :
    ∃ rest', normalTail toLowercase ('/' :: rest) = '/' :: rest' := by
  obtain ⟨stripped, hstripped⟩ := exists_stripSlash (rest.takeWhile (· ≠ '?'))
  rw [normalTail, breakAt_slash, hstripped]
  exact ⟨_, rfl⟩

/-! ## The second normal form -/

theorem not_mem_bareUrl (url : String) : '#' ∉ bareUrl url := by
  obtain ⟨hnone, hbreak⟩ | ⟨a, b, -, ha, hbreak⟩ := breakAt_cases '#' (trim url.toList)
  · rw [bareUrl, hbreak]
    exact hnone
  · rw [bareUrl, hbreak]
    exact ha

/-- No white space stands before what is left of a URL. -/
theorem dropWhile_bareUrl (url : String) : (bareUrl url).dropWhile isWhiteSpace = bareUrl url := by
  have hprefix : bareUrl url <+: url.toList.dropWhile isWhiteSpace := by
    rw [bareUrl, trim_eq]
    exact (List.takeWhile_prefix _).trans (List.rdropWhile_prefix _ _)
  cases hbare : bareUrl url with
  | nil => rfl
  | cons c cs =>
    rw [hbare] at hprefix
    obtain ⟨rest, hrest⟩ := hprefix
    have hne : url.toList.dropWhile isWhiteSpace ≠ [] := by
      rw [← hrest]
      exact List.cons_ne_nil _ _
    have hc := List.head_dropWhile_not isWhiteSpace hne
    simp only [← hrest, List.cons_append, List.head_cons] at hc
    exact List.dropWhile_cons_of_neg (by simp [hc])

theorem bareUrl_ofList {cs : List Char} (hhash : '#' ∉ cs) (hhead : cs.dropWhile isWhiteSpace = cs) :
    bareUrl (String.ofList cs) = cs.rdropWhile isWhiteSpace := by
  rw [bareUrl, String.toList_ofList, trim_eq, hhead, breakAt_of_not_mem]
  exact fun hmem => hhash ((List.rdropWhile_prefix isWhiteSpace cs).subset hmem)

theorem rdropWhile_slash (cs : List Char) :
    ('/' :: cs).rdropWhile isWhiteSpace = '/' :: cs.rdropWhile isWhiteSpace :=
  rdropWhile_append_cons (by decide) [] cs

/-- What is known of the parts of what is left of a URL. -/
structure Parts (url : String) (scheme host tail : List Char) : Prop where
  noMarker : ¬ "://".toList <:+: scheme
  noSlash : '/' ∉ host
  slash : ∃ rest, tail = '/' :: rest
  noHash : '#' ∉ scheme ∧ '#' ∉ host ∧ '#' ∉ tail
  starts : ∃ rest, bareUrl url = scheme ++ ("://".toList ++ rest)

theorem parts_of_splitUrl {url : String} {scheme host tail : List Char}
    (h : splitUrl (bareUrl url) = some (scheme, host, tail)) : Parts url scheme host tail := by
  have hhash := not_mem_bareUrl url
  obtain ⟨hnone, -⟩ | ⟨scheme', host', hscheme, hhost, hurl | ⟨rest, hurl⟩⟩ := splitUrl_cases (bareUrl url)
  · cases hnone.symm.trans h
  · rw [hurl, splitUrl_noSlash hscheme hhost] at h
    obtain ⟨rfl, rfl, rfl⟩ : scheme' = scheme ∧ host' = host ∧ ['/'] = tail := by simpa using h
    rw [hurl] at hhash
    simp only [List.mem_append, not_or] at hhash
    exact ⟨hscheme, hhost, ⟨[], rfl⟩, ⟨hhash.1, hhash.2.2, by decide⟩, ⟨_, hurl⟩⟩
  · rw [hurl, splitUrl_slash hscheme hhost] at h
    obtain ⟨rfl, rfl, rfl⟩ : scheme' = scheme ∧ host' = host ∧ '/' :: rest = tail := by simpa using h
    rw [hurl] at hhash
    simp only [List.mem_append, not_or] at hhash
    exact ⟨hscheme, hhost, ⟨rest, rfl⟩, ⟨hhash.1, hhash.2.2.1, hhash.2.2.2⟩, ⟨_, hurl⟩⟩

/-- White space before the new scheme would be before the old one. -/
theorem Parts.dropWhile_rewritten {url : String} {scheme host tail scheme' : List Char}
    (h : Parts url scheme host tail) (hrewrites : Rewrites IsMark scheme scheme') (rest : List Char) :
    (scheme' ++ ("://".toList ++ rest)).dropWhile isWhiteSpace =
      scheme' ++ ("://".toList ++ rest) := by
  cases scheme' with
  | nil => rfl
  | cons d scheme' =>
    refine List.dropWhile_cons_of_neg fun hspace => ?_
    cases scheme with
    | nil => exact absurd (hrewrites.of_marks (by simp)) (by simp)
    | cons c scheme =>
      obtain rfl := hrewrites.head (.inl hspace)
      obtain ⟨old, hold⟩ := h.starts
      have hfirst := dropWhile_bareUrl url
      rw [hold, List.cons_append, List.dropWhile_cons_of_pos hspace] at hfirst
      have hlen := congrArg List.length hfirst
      have hle := (List.dropWhile_sublist isWhiteSpace
        (l := scheme ++ ("://".toList ++ old))).length_le
      rw [List.length_cons] at hlen
      omega

/-- The normal form has the parts of the URL in lower case, and loses white space only from its tail. -/
theorem Parts.bareUrl_normalForm (laws : UrlLowercase toLowercase) {url : String}
    {scheme host tail : List Char} (h : Parts url scheme host tail)
    (hsplit : splitUrl (bareUrl url) = some (scheme, host, tail)) :
    ∃ scheme', (toLowercase (String.ofList (scheme ++ "://".toList))).toList =
        scheme' ++ "://".toList ∧
      ¬ "://".toList <:+: scheme' ∧
      '/' ∉ (toLowercase (String.ofList host)).toList ∧
      bareUrl (normalizeSourceUrl toLowercase url) = scheme' ++ ("://".toList ++
        ((toLowercase (String.ofList host)).toList ++
          (normalTail toLowercase tail).rdropWhile isWhiteSpace)) := by
  obtain ⟨scheme', hscheme', hrewrites⟩ :=
    (laws.rewrites_ofList (scheme ++ "://".toList)).marks_suffix (by decide) isMark_marker
  have hslash : '/' ∉ (toLowercase (String.ofList host)).toList :=
    fun hmem => h.noSlash ((laws.mem_iff (by decide) host).mp hmem)
  have hchars : normalizeSourceUrl toLowercase url = String.ofList (scheme' ++ ("://".toList ++
      ((toLowercase (String.ofList host)).toList ++ normalTail toLowercase tail))) := by
    rw [normalizeSourceUrl_some hsplit, ← String.toList_inj, String.toList_append,
      String.toList_append, hscheme']
    simp only [List.append_assoc, String.toList_ofList]
  have hhash : '#' ∉ scheme' ++ ("://".toList ++
      ((toLowercase (String.ofList host)).toList ++ normalTail toLowercase tail)) := by
    simp only [List.mem_append, not_or]
    refine ⟨fun hmem => h.noHash.1 ((hrewrites.mem_iff (isMark_of_mem (by decide))).mp hmem), by decide,
      fun hmem => h.noHash.2.1 ((laws.mem_iff (by decide) host).mp hmem),
      not_mem_normalTail (by decide) h.noHash.2.2⟩
  refine ⟨scheme', hscheme',
    fun hin => h.noMarker (hrewrites.marks_infix (by decide) isMark_marker hin), hslash, ?_⟩
  rw [hchars, bareUrl_ofList hhash (h.dropWhile_rewritten hrewrites _)]
  obtain ⟨rest, rfl⟩ := h.slash
  obtain ⟨z, hz⟩ := exists_normalTail toLowercase rest
  rw [hz, ← List.append_assoc, ← List.append_assoc, rdropWhile_append_cons (by decide), rdropWhile_slash]
  simp only [List.append_assoc]

theorem normalize_normalize (laws : UrlLowercase toLowercase) {url : String}
    {scheme host tail : List Char} (hsplit : splitUrl (bareUrl url) = some (scheme, host, tail)) :
    normalizeSourceUrl toLowercase (normalizeSourceUrl toLowercase url) =
      toLowercase (String.ofList (scheme ++ "://".toList)) ++ toLowercase (String.ofList host) ++
        String.ofList (normalTail toLowercase
          ((normalTail toLowercase tail).rdropWhile isWhiteSpace)) := by
  have hparts := parts_of_splitUrl hsplit
  obtain ⟨scheme', hscheme', hmarker, hslash, hbare⟩ := hparts.bareUrl_normalForm laws hsplit
  obtain ⟨rest, rfl⟩ := hparts.slash
  obtain ⟨z, hz⟩ := exists_normalTail toLowercase rest
  rw [hz, rdropWhile_slash] at hbare ⊢
  have hagain := hbare ▸ splitUrl_slash hmarker hslash (z.rdropWhile isWhiteSpace)
  rw [normalizeSourceUrl_some hagain, ← hscheme', String.ofList_toList, String.ofList_toList,
    laws.idem, laws.idem]

end

/-! ## ASCII texts -/

instance (c : Char) : Decidable (IsMark c) := inferInstanceAs (Decidable (_ ∨ _))

theorem not_isMark_of_isUpper {c : Char} (h : c.isUpper = true) : ¬ IsMark c ∧ ¬ IsMark c.toLower := by
  have hletters : ∀ n ∈ List.range' 65 26,
      ¬ IsMark (Char.ofNat n) ∧ ¬ IsMark (Char.ofNat n).toLower := by decide
  have hletter := hletters c.toNat
  rw [Char.ofNat_toNat] at hletter
  refine hletter (List.mem_range'_1.mpr ?_)
  simp only [Char.isUpper, decide_eq_true_eq] at h
  have hlow : 65 ≤ c.toNat := h.1
  have hhigh : c.toNat ≤ 90 := h.2
  omega

theorem urlLowercase_ascii : UrlLowercase Query.asciiLowercase where
  rewrites s := by
    rw [Query.asciiLowercase, String.toList_ofList]
    refine rewrites_map (fun c hc => ?_) (fun c hc => ?_) s.toList
    · exact Char.toLower_eq_of_not_isUpper fun hupper => (not_isMark_of_isUpper hupper).1 hc
    · exact Char.toLower_eq_of_not_isUpper fun hupper => (not_isMark_of_isUpper hupper).2 hc
  idem s := by
    simp [Query.asciiLowercase, Function.comp_def, Char.toLower_toLower_eq_toLower]

section
variable {toLowercase : String → String}

/-! ## When the second normal form is the first -/

def EndsInSpace (cs : List Char) : Prop := ∃ front c, cs = front ++ [c] ∧ isWhiteSpace c = true

theorem rdropWhile_eq_self {cs : List Char} : cs.rdropWhile isWhiteSpace = cs ↔ ¬ EndsInSpace cs := by
  induction cs using List.reverseRecOn with
  | nil => simp [EndsInSpace]
  | append_singleton front c _ =>
    have hends : EndsInSpace (front ++ [c]) ↔ isWhiteSpace c = true := by
      constructor
      · rintro ⟨front', d, heq, hd⟩
        obtain ⟨-, hlast⟩ := List.append_inj' heq rfl
        rwa [List.cons.inj hlast |>.1]
      · exact fun hc => ⟨front, c, rfl, hc⟩
    rw [hends, List.rdropWhile_eq_self_iff]
    simp

theorem endsInSpace_append {a b : List Char} (hb : b ≠ []) : EndsInSpace (a ++ b) ↔ EndsInSpace b := by
  obtain ⟨front, c, rfl⟩ := List.eq_nil_or_concat' b |>.resolve_left hb
  constructor
  · rintro ⟨front', d, heq, hd⟩
    rw [← List.append_assoc] at heq
    obtain ⟨-, hlast⟩ := List.append_inj' heq rfl
    exact ⟨front, c, rfl, by rwa [List.cons.inj hlast |>.1]⟩
  · rintro ⟨front', d, heq, hd⟩
    exact ⟨a ++ front', d, by rw [heq, List.append_assoc], hd⟩

/-- The parameter that is written last: the latest one of the greatest key. -/
def WrittenLast (params : List (String × String)) (param : String × String) : Prop :=
  ∃ front back, params = front ++ param :: back ∧ (∀ other ∈ front, other.1 ≤ param.1) ∧
    ∀ other ∈ back, other.1 < param.1

theorem WrittenLast.sortParams {params : List (String × String)} {param : String × String}
    (h : WrittenLast params param) : ∃ front, sortParams params = front ++ [param] := by
  obtain ⟨front, back, rfl, hfront, hback⟩ := h
  exact ⟨_, StableSort.insertionSort_append_last Prod.fst hfront hback⟩

theorem exists_writtenLast {params : List (String × String)} (h : params ≠ []) :
    ∃ param, WrittenLast params param := by
  obtain ⟨front, param, back, hparams⟩ := StableSort.exists_last Prod.fst h
  exact ⟨param, front, back, hparams⟩

theorem join_concat (sep : Char) (pieces : List String) (piece : String) :
    ∃ front, (join sep (pieces ++ [piece])).toList = front ++ piece.toList := by
  rw [join, String.toList_ofList]
  induction pieces with
  | nil => exact ⟨[], by simp⟩
  | cons first pieces ih =>
    obtain ⟨front, hfront⟩ := ih
    obtain ⟨next, rest, hrest⟩ := List.exists_cons_of_ne_nil
      (show (pieces ++ [piece]).map String.toList ≠ [] by simp)
    rw [List.cons_append, List.map_cons, hrest, List.intercalate_cons_cons, ← hrest, hfront]
    exact ⟨first.toList ++ [sep] ++ front, by simp⟩

theorem showParam_eq_nil {param : String × String} : (showParam param).toList = [] ↔ param = ("", "") := by
  obtain ⟨key, value⟩ := param
  unfold showParam
  dsimp only
  split
  · next hvalue => simp [hvalue]
  · next hvalue => simp [hvalue]

/-- A query ends as the parameter that is written last. -/
theorem endsInSpace_printParams (path : List Char) {params : List (String × String)}
    {param : String × String} (hlast : WrittenLast params param) (hempty : ("", "") ∉ params) :
    EndsInSpace (path ++ printParams (sortParams params)) ↔ EndsInSpace (showParam param).toList := by
  obtain ⟨front, hsorted⟩ := hlast.sortParams
  have hmem : param ∈ params := by
    rw [← mem_sortParams, hsorted]
    exact List.mem_append_right front (List.mem_singleton_self param)
  have hshown : (showParam param).toList ≠ [] :=
    fun hnil => hempty (showParam_eq_nil.mp hnil ▸ hmem)
  obtain ⟨text, htext⟩ := join_concat '&' (front.map showParam) (showParam param)
  rw [hsorted, printParams, if_neg (by simp), List.map_append, List.map_singleton, htext,
    ← List.cons_append, ← List.append_assoc, endsInSpace_append hshown]

/-- A query has a parameter without key and value where `=` stands alone between separators. -/
theorem empty_mem_allParams {query : List Char} :
    ("", "") ∈ allParams query ↔ ['='] ∈ query.splitOn '&' := by
  rw [allParams, List.mem_filterMap]
  constructor
  · rintro ⟨pair, hpair, hsome⟩
    split at hsome
    · cases hsome
    · next hne =>
      obtain ⟨hnone, hbreak⟩ | ⟨key, value, rfl, -, hbreak⟩ := breakAt_cases '=' pair
      · rw [hbreak] at hsome
        exact absurd (by simpa using hsome) hne
      · rw [hbreak] at hsome
        obtain ⟨rfl, rfl⟩ : key = [] ∧ value = [] := by simpa using hsome
        exact hpair
  · exact fun hmem => ⟨['='], hmem, by decide⟩

theorem empty_mem_queryParams (laws : UrlLowercase toLowercase) {query : List Char} :
    ("", "") ∈ queryParams toLowercase query ↔ ['='] ∈ query.splitOn '&' := by
  have hlower : toLowercase "" = "" := by
    have hnil := (laws.rewrites "").of_marks (by simp)
    simpa using hnil
  rw [queryParams_eq, List.mem_filter, empty_mem_allParams, hlower]
  exact and_iff_left (by decide)

theorem stripSlash_append_slash {path : List Char} (h : path ≠ []) : stripSlash (path ++ ['/']) = path := by
  have hlong : (path ++ ['/']).length > 1 := by
    simpa using List.length_pos_of_ne_nil h
  rw [stripSlash, if_pos (by simp [List.length_pos_of_ne_nil h])]
  exact List.dropLast_concat

theorem stripSlash_eq_self_iff {path : List Char} :
    stripSlash path = path ↔ ∀ front, path = front ++ ['/'] → front = [] := by
  constructor
  · rintro h front rfl
    by_contra hne
    rw [stripSlash_append_slash hne] at h
    simpa using congrArg List.length h
  · intro h
    unfold stripSlash
    rw [if_neg]
    intro hslash
    obtain ⟨hlong, hlast⟩ := Bool.and_eq_true_iff.mp hslash
    have hlong := of_decide_eq_true hlong
    obtain ⟨front, hfront⟩ := List.getLast?_eq_some_iff.mp (of_decide_eq_true hlast)
    rw [hfront, h front hfront] at hlong
    simp at hlong

/-- What keeps the second normal form as the first: at most one slash is at the end of the path, no
segment of the query is a lone `=`, and what is written last does not end in white space. -/
structure Settles (toLowercase : String → String) (path query : List Char) : Prop where
  oneSlash : ∀ front, path = front ++ ['/', '/'] → front = []
  noLoneSign : ['='] ∉ query.splitOn '&'
  pathEnd : queryParams toLowercase query = [] →
    ¬ EndsInSpace path ∧ ∀ front, path = front ++ ['/'] → ¬ EndsInSpace front
  queryEnd : ∀ param, WrittenLast (queryParams toLowercase query) param →
    ¬ EndsInSpace (showParam param).toList

/-- The same of a URL; without scheme, what is left of it does not end in white space. -/
def Settled (toLowercase : String → String) (url : String) : Prop :=
  match splitUrl (bareUrl url) with
  | none => ¬ EndsInSpace (bareUrl url)
  | some (_, _, tail) => Settles toLowercase (breakAt '?' tail).1 (breakAt '?' tail).2

theorem stripSlash_twice_iff {path : List Char} (h : ∃ rest, path = '/' :: rest) :
    stripSlash (stripSlash path) = stripSlash path ↔
      ∀ front, path = front ++ ['/', '/'] → front = [] := by
  rw [stripSlash_eq_self_iff]
  constructor
  · rintro hone front rfl
    rw [show front ++ ['/', '/'] = (front ++ ['/']) ++ ['/'] by simp,
      stripSlash_append_slash (by simp)] at hone
    exact hone front rfl
  · intro htwo front hfront
    by_cases hslash : ∃ path', path = path' ++ ['/'] ∧ path' ≠ []
    · obtain ⟨path', rfl, hne⟩ := hslash
      rw [stripSlash_append_slash hne] at hfront
      exact htwo front (by rw [hfront]; simp)
    · have hself : stripSlash path = path := by
        refine stripSlash_eq_self_iff.mpr fun path' hpath => ?_
        by_contra hne
        exact hslash ⟨path', hpath, hne⟩
      rw [hself] at hfront
      by_contra hne
      exact hslash ⟨front, hfront, hne⟩

theorem endsInSpace_stripSlash_iff {path : List Char} :
    EndsInSpace (stripSlash path) ↔
      ¬ (¬ EndsInSpace path ∧ ∀ front, path = front ++ ['/'] → ¬ EndsInSpace front) := by
  have hslash : ∀ front, ¬ EndsInSpace (front ++ ['/']) := by
    intro front
    rw [endsInSpace_append (List.cons_ne_nil _ _)]
    rintro ⟨front', c, heq, hc⟩
    obtain ⟨-, hlast⟩ := List.append_inj' (show ([] : List Char) ++ ['/'] = front' ++ [c] from heq) rfl
    rw [← (List.cons.inj hlast).1] at hc
    exact absurd hc (by decide)
  by_cases h : ∃ front, path = front ++ ['/'] ∧ front ≠ []
  · obtain ⟨front, rfl, hne⟩ := h
    rw [stripSlash_append_slash hne, not_and]
    constructor
    · exact fun hends _ hnone => hnone front rfl hends
    · intro hsome
      by_contra hends
      refine hsome (hslash front) fun front' heq => ?_
      obtain ⟨rfl, -⟩ := List.append_inj' heq rfl
      exact hends
  · have hshort : ∀ front, path = front ++ ['/'] → front = [] := by
      intro front hpath
      by_contra hne
      exact h ⟨front, hpath, hne⟩
    rw [stripSlash_eq_self_iff.mpr hshort, not_and]
    constructor
    · exact fun hends hnot => absurd hends hnot
    · intro hsome
      by_contra hends
      refine hsome hends fun front hpath => ?_
      rw [hshort front hpath]
      rintro ⟨front', c, heq, -⟩
      simp at heq

/-- A normal tail without white space to lose that is its own normal tail. -/
theorem settles_iff (laws : UrlLowercase toLowercase) {path query : List Char}
    (hslash : ∃ rest, path = '/' :: rest) :
    (¬ EndsInSpace (stripSlash path ++ printParams (sortParams (queryParams toLowercase query))) ∧
      stripSlash (stripSlash path) = stripSlash path ∧ ("", "") ∉ queryParams toLowercase query) ↔
      Settles toLowercase path query := by
  rw [stripSlash_twice_iff hslash, empty_mem_queryParams laws]
  by_cases hnone : queryParams toLowercase query = []
  · have hplain : printParams (sortParams ([] : List (String × String))) = [] := rfl
    rw [hnone, hplain, List.append_nil, endsInSpace_stripSlash_iff, not_not]
    constructor
    · rintro ⟨hend, hone, hsign⟩
      refine ⟨hone, hsign, fun _ => hend, fun param hlast => ?_⟩
      obtain ⟨front, back, hparams, -⟩ := hlast
      rw [hnone] at hparams
      simp at hparams
    · exact fun h => ⟨h.pathEnd hnone, h.oneSlash, h.noLoneSign⟩
  · obtain ⟨param, hlast⟩ := exists_writtenLast hnone
    constructor
    · rintro ⟨hend, hone, hsign⟩
      refine ⟨hone, hsign, fun hnil => absurd hnil hnone, fun param hlast hspace => hend ?_⟩
      have hempty := mt (empty_mem_queryParams laws).mp hsign
      exact (endsInSpace_printParams _ hlast hempty).mpr hspace
    · intro h
      have hempty := mt (empty_mem_queryParams laws).mp h.noLoneSign
      refine ⟨fun hspace => ?_, h.oneSlash, h.noLoneSign⟩
      exact h.queryEnd param hlast ((endsInSpace_printParams _ hlast hempty).mp hspace)

theorem normalize_none_iff {url : String} (h : splitUrl (bareUrl url) = none) :
    normalizeSourceUrl toLowercase (normalizeSourceUrl toLowercase url) =
      normalizeSourceUrl toLowercase url ↔ ¬ EndsInSpace (bareUrl url) := by
  have hmarker : ¬ "://".toList <:+: bareUrl url := by
    obtain ⟨-, hmarker⟩ | ⟨scheme, host, hscheme, hhost, hurl | ⟨rest, hurl⟩⟩ :=
      splitUrl_cases (bareUrl url)
    · exact hmarker
    · rw [hurl, splitUrl_noSlash hscheme hhost] at h
      cases h
    · rw [hurl, splitUrl_slash hscheme hhost] at h
      cases h
  have htrimmed := bareUrl_ofList (not_mem_bareUrl url) (dropWhile_bareUrl url)
  have hnone : splitUrl (bareUrl (String.ofList (bareUrl url))) = none := by
    rw [htrimmed, splitUrl, Option.map_eq_none_iff, breakOn_eq_none_iff]
    exact fun hin => hmarker (hin.trans (List.rdropWhile_prefix isWhiteSpace _).isInfix)
  rw [normalizeSourceUrl_none h, normalizeSourceUrl_none hnone, htrimmed, String.ofList_inj,
    rdropWhile_eq_self]

/-- A shorter tail has no longer normal tail, so a tail that lost white space is not met again. -/
theorem normalTail_rdropWhile_iff {tail : List Char} :
    normalTail toLowercase (tail.rdropWhile isWhiteSpace) = tail ↔
      ¬ EndsInSpace tail ∧ normalTail toLowercase tail = tail := by
  rw [← rdropWhile_eq_self]
  constructor
  · intro h
    have hprefix := List.rdropWhile_prefix isWhiteSpace tail
    have hle := length_normalTail_le toLowercase (tail.rdropWhile isWhiteSpace)
    rw [h] at hle
    have hkept := hprefix.eq_of_length_le hle
    exact ⟨hkept, by rwa [hkept] at h⟩
  · rintro ⟨hkept, hself⟩
    rw [hkept, hself]

theorem normalize_some_iff (laws : UrlLowercase toLowercase) {url : String}
    {scheme host tail : List Char} (hsplit : splitUrl (bareUrl url) = some (scheme, host, tail)) :
    normalizeSourceUrl toLowercase (normalizeSourceUrl toLowercase url) =
      normalizeSourceUrl toLowercase url ↔
      Settles toLowercase (breakAt '?' tail).1 (breakAt '?' tail).2 := by
  obtain ⟨rest, rfl⟩ := (parts_of_splitUrl hsplit).slash
  have hmark : '?' ∉ stripSlash (breakAt '?' ('/' :: rest)).1 := by
    refine not_mem_stripSlash fun hmem => ?_
    simpa using List.mem_takeWhile_imp hmem
  rw [normalize_normalize laws hsplit, normalizeSourceUrl_some hsplit, String.append_right_inj,
    String.ofList_inj, normalTail_rdropWhile_iff, ← settles_iff laws ⟨_, breakAt_slash rest⟩,
    ← normalTail_eq_self_iff toLowercase hmark]
  rfl

theorem computeSourceHash_congr (blake3 : Bytes → String) {url other : String}
    (h : normalizeSourceUrl toLowercase url = normalizeSourceUrl toLowercase other) :
    computeSourceHash blake3 toLowercase url = computeSourceHash blake3 toLowercase other := by
  rw [computeSourceHash, computeSourceHash, h]

/-- The normal form is its own normal form exactly if nothing of it is left to take off. -/
theorem normalize_twice_iff (laws : UrlLowercase toLowercase) (blake3 : Bytes → String) (url : String) :
    (normalizeSourceUrl toLowercase (normalizeSourceUrl toLowercase url) =
        normalizeSourceUrl toLowercase url ∧
      computeSourceHash blake3 toLowercase (normalizeSourceUrl toLowercase url) =
        computeSourceHash blake3 toLowercase url) ↔ Settled toLowercase url := by
  rw [and_iff_left_of_imp (computeSourceHash_congr blake3)]
  unfold Settled
  cases hsplit : splitUrl (bareUrl url) with
  | none => exact normalize_none_iff hsplit
  | some parts => exact normalize_some_iff laws hsplit

end

theorem normalize_twice_iff_article :
    normalizeSourceUrl Query.asciiLowercase " HTTPS://H.org/a/?b=2&ver=1&a=3#top" =
        "https://h.org/a?a=3&b=2" ∧
      Settled Query.asciiLowercase " HTTPS://H.org/a/?b=2&ver=1&a=3#top" := by
  have hform : normalizeSourceUrl Query.asciiLowercase " HTTPS://H.org/a/?b=2&ver=1&a=3#top" =
      "https://h.org/a?a=3&b=2" := by decide +kernel
  have hsame : normalizeSourceUrl Query.asciiLowercase (normalizeSourceUrl Query.asciiLowercase
      " HTTPS://H.org/a/?b=2&ver=1&a=3#top") =
        normalizeSourceUrl Query.asciiLowercase " HTTPS://H.org/a/?b=2&ver=1&a=3#top" := by
    rw [hform]
    decide +kernel
  have hiff := normalize_twice_iff urlLowercase_ascii (fun _ => "")
    " HTTPS://H.org/a/?b=2&ver=1&a=3#top"
  have hsettled := hiff.mp ⟨hsame, computeSourceHash_congr _ hsame⟩
  exact And.intro hform hsettled

/-- Two slashes at the end of a path are taken off in two turns. -/
theorem normalize_twice_twoSlashes : ¬ ∀ (toLowercase : String → String) (blake3 : Bytes → String),
    UrlLowercase toLowercase → ∀ url,
      normalizeSourceUrl toLowercase (normalizeSourceUrl toLowercase url) =
          normalizeSourceUrl toLowercase url ∧
        computeSourceHash blake3 toLowercase (normalizeSourceUrl toLowercase url) =
          computeSourceHash blake3 toLowercase url := by
  intro hclaim
  have hsame := (hclaim Query.asciiLowercase (fun _ => "") urlLowercase_ascii "s://h/a//").1
  revert hsame
  decide +kernel

end DSearch.Sign
