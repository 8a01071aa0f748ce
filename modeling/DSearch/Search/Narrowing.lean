import DSearch.Search.OrChains
import DSearch.Search.Tokens

/-! # One more token

What a token adds to a query is another condition on the records, unless it is a filter for which the
query has a value already: a field has one value, and so have the two dates, and the last one counts. -/

namespace DSearch.Query
set_option autoImplicit false
open RustText Sign

section
variable (toLowercase : String → String)

/-- The record meets the conditions of the query, each for itself. -/
structure Meets (record : ContentRecord) (query : ParsedQuery) : Prop where
  fields : ∀ field value, query.fields[field]? = some value →
    matchesField toLowercase record field value = true
  since : ∀ since, query.since = some since → since ≤ record.createdAt
  before : ∀ before, query.before = some before → record.createdAt < before
  excludes : ∀ exc ∈ query.excludes,
    contains (buildSearchableText toLowercase record) exc = false
  phrases : ∀ phrase ∈ query.phrases,
    contains (buildSearchableText toLowercase record) phrase = true
  terms : ∀ group ∈ orGroups query.terms, ∃ w ∈ group,
    contains (buildSearchableText toLowercase record) w = true

theorem matchesQuery_iff (record : ContentRecord) (query : ParsedQuery) :
    matchesQuery toLowercase record query = true ↔ Meets toLowercase record query := by
  have hrows : (query.fields.toList.all fun row => matchesField toLowercase record row.1 row.2) = true ↔
      ∀ field value, query.fields[field]? = some value →
        matchesField toLowercase record field value = true := by
    rw [List.all_eq_true]
    constructor
    · intro hall field value hrow
      exact hall (field, value) (Std.ExtTreeMap.mem_toList_iff_getElem?_eq_some.mpr hrow)
    · intro hall row hrow
      exact hall row.1 row.2 (Std.ExtTreeMap.mem_toList_iff_getElem?_eq_some.mp hrow)
  unfold matchesQuery
  simp only [Bool.and_eq_true, hrows, Option.all_eq_true]
  constructor
  · rintro ⟨⟨⟨⟨⟨hfields, hsince⟩, hbefore⟩, hexcludes⟩, hphrases⟩, hterms⟩
    exact ⟨hfields, by simpa using hsince, by simpa using hbefore, by simpa using hexcludes,
      by simpa using hphrases, by simpa using hterms⟩
  · rintro ⟨hfields, hsince, hbefore, hexcludes, hphrases, hterms⟩
    exact ⟨⟨⟨⟨⟨hfields, by simpa using hsince⟩, by simpa using hbefore⟩, by simpa using hexcludes⟩,
      by simpa using hphrases⟩, by simpa using hterms⟩

/-- The record meets what the query asks for under the name of this field: the condition that a filter
with the same name replaces. -/
structure MeetsFilter (record : ContentRecord) (query : ParsedQuery) (field : String) : Prop where
  value : ∀ value, query.fields[field]? = some value →
    matchesField toLowercase record field value = true
  since : field = "since" → ∀ since, query.since = some since → since ≤ record.createdAt
  before : field = "before" → ∀ before, query.before = some before → record.createdAt < before

variable {toLowercase}

theorem Meets.meetsFilter {record : ContentRecord} {query : ParsedQuery}
    (h : Meets toLowercase record query) (field : String) :
    MeetsFilter toLowercase record query field :=
  ⟨h.fields field, fun _ => h.since, fun _ => h.before⟩

/-! ## What a token does to a query -/

theorem meets_insertFilter {record : ContentRecord} {query : ParsedQuery} {field value : String}
    (h : Meets toLowercase record (insertFilter toLowercase query field value))
    (hold : MeetsFilter toLowercase record query field) : Meets toLowercase record query := by
  unfold insertFilter at h
  split at h
  · split at h
    · exact ⟨h.fields, h.since, h.before, h.excludes, h.phrases, h.terms⟩
    · exact h
  · split at h
    · next hfield =>
      exact ⟨h.fields, hold.since hfield, h.before, h.excludes, h.phrases, h.terms⟩
    · split at h
      · next hfield =>
        exact ⟨h.fields, h.since, hold.before hfield, h.excludes, h.phrases, h.terms⟩
      · refine ⟨fun field' value' hrow => ?_, h.since, h.before, h.excludes, h.phrases, h.terms⟩
        by_cases hfield : field = field'
        · subst hfield
          exact hold.value value' hrow
        · exact h.fields field' value' (OrderedTable.get_insert_eq_some.mpr (.inr ⟨hfield, hrow⟩))

theorem orGroups_concat {term : String} (h : strippedTerm term = none) (terms : List String) :
    orGroups (terms ++ [term]) = orGroups terms ++ [[term]] := by
  rw [orGroups_eq, orGroups_eq, List.foldl_append, List.foldl_cons, List.foldl_nil, groupStep, h]
  rfl

theorem meets_insertToken (hlaws : LowercaseLaws toLowercase) {record : ContentRecord}
    {query : ParsedQuery} {token : String}
    (h : Meets toLowercase record (insertToken toLowercase query token))
    (hold : ∀ field value, parseFieldFilter token = some (field, value) →
      MeetsFilter toLowercase record query field) : Meets toLowercase record query := by
  unfold insertToken at h
  dsimp only at h
  split at h
  · exact ⟨h.fields, h.since, h.before, fun exc hexc => h.excludes exc (List.mem_append_left _ hexc),
      h.phrases, h.terms⟩
  · split at h
    · exact ⟨h.fields, h.since, h.before, h.excludes,
        fun phrase hphrase => h.phrases phrase (List.mem_append_left _ hphrase), h.terms⟩
    · split at h
      · next field value hfilter => exact meets_insertFilter h (hold field value hfilter)
      · refine ⟨h.fields, h.since, h.before, h.excludes, h.phrases, fun group hgroup => ?_⟩
        refine h.terms group ?_
        dsimp only
        rw [orGroups_concat (hlaws.strippedTerm token)]
        exact List.mem_append_left _ hgroup

/-- If no `OR` is left open, the loop ends with the last token. -/
theorem parseTokens_concat {tokens : List String} (hlast : tokens.getLast? ≠ some "OR")
    {token : String} (hor : token ≠ "OR") (query : ParsedQuery) :
    parseTokens toLowercase (tokens ++ [token]) query =
      insertToken toLowercase (parseTokens toLowercase tokens query) token := by
  have hrest : ∀ {first : String} {rest : List String}, (first :: rest).getLast? ≠ some "OR" →
      rest.getLast? ≠ some "OR" := by
    intro first rest h hrest
    exact h (by rw [List.getLast?_cons, hrest]; rfl)
  induction tokens, query using parseTokens.induct toLowercase with
  | case1 query => exact parseTokens_cons _ (fun h => hor h.1) []
  | case2 first query hopen =>
    rw [hopen.1] at hlast
    exact absurd rfl hlast
  | case3 first query hopen next tokens ih =>
    rw [List.cons_append, List.cons_append, parseTokens_or _ hopen, parseTokens_or _ hopen]
    exact ih (hrest (hrest hlast))
  | case4 first tokens query hclosed ih =>
    rw [List.cons_append, parseTokens_cons _ hclosed, parseTokens_cons _ hclosed]
    exact ih (hrest hlast)

/-- A record that is accepted with one more token, which is not `OR`, is accepted without it exactly if
it meets the condition that the token replaces. -/
theorem accepted_without_token_iff (hlaws : LowercaseLaws toLowercase) {q t : String}
    (hbalanced : QuotesBalanced q) (hlast : (tokenize q).getLast? ≠ some "OR")
    (ht : tokenize t = [t]) (hor : t ≠ "OR") {record : ContentRecord}
    (haccepted : matchesQuery toLowercase record
      (parseQuery toLowercase (q ++ " " ++ t)) = true) :
    matchesQuery toLowercase record (parseQuery toLowercase q) = true ↔
      ∀ field value, parseFieldFilter t = some (field, value) →
        MeetsFilter toLowercase record (parseQuery toLowercase q) field := by
  rw [matchesQuery_iff] at haccepted ⊢
  constructor
  · intro hmeets field value _
    exact hmeets.meetsFilter field
  · intro hold
    rw [parseQuery, tokenize_append_space hbalanced, ht, parseTokens_concat hlast hor] at haccepted
    exact meets_insertToken hlaws haccepted hold

end

theorem accepted_without_token_iff_tag :
    matchesQuery asciiLowercase (textRecord "rust") (parseQuery asciiLowercase "rust -go") = true ↔
      ∀ field value, parseFieldFilter "tag:test" = some (field, value) →
        MeetsFilter asciiLowercase (textRecord "rust") (parseQuery asciiLowercase "rust -go") field :=
  accepted_without_token_iff lowercaseLaws_ascii (by decide) (by decide) (by decide) (by decide)
    (by decide +kernel)

/-- The second filter of a field takes the place of the first. -/
theorem second_filter_replaces : ¬ ∀ toLowercase : String → String, LowercaseLaws toLowercase →
    ∀ q t : String, QuotesBalanced q → (tokenize q).getLast? ≠ some "OR" → tokenize t = [t] →
      t ≠ "OR" → ∀ record, matchesQuery toLowercase record
        (parseQuery toLowercase (q ++ " " ++ t)) = true →
          matchesQuery toLowercase record (parseQuery toLowercase q) = true := by
  intro hclaim
  have hmatch := hclaim asciiLowercase lowercaseLaws_ascii "schema:rust" "schema:wiki" (by decide)
    (by decide) (by decide) (by decide) (textRecord "rust")
    (by decide +kernel)
  revert hmatch
  decide +kernel

end DSearch.Query
