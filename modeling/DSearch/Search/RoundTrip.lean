import DSearch.Foundations.SeparatedText
import DSearch.Search.Tokens

/-! # Items written and read back

A query that is written item by item is parsed into what the items say. -/

namespace DSearch.Query
set_option autoImplicit false
open SeparatedText Sign

namespace Item

/-- The items with single spaces between them. -/
def render (items : List Item) : String := join ' ' (items.map token)

theorem render_cons (item next : Item) (items : List Item) :
    render (item :: next :: items) = item.token ++ " " ++ render (next :: items) := by
  simp [render, join, ← String.toList_inj, List.intercalate_cons_cons]

theorem tokenize_render {items : List Item} (h : ∀ item ∈ items, item.WellFormed) :
    tokenize (render items) = items.map token := by
  induction items with
  | nil => rfl
  | cons item items ih =>
    have hitem := h item List.mem_cons_self
    have hitems := ih fun later hlater => h later (List.mem_cons_of_mem item hlater)
    cases items with
    | nil =>
      have hrender : render [item] = item.token := by simp [render, join]
      rw [hrender, hitem.tokenize]
      rfl
    | cons next items =>
      rw [render_cons, tokenize_append_space hitem.balanced, hitem.tokenize, hitems]
      rfl

/-- The parser adds the items one after the other. -/
theorem parseQuery_render {items : List Item} (h : ∀ item ∈ items, item.WellFormed)
    (toLowercase : String → String) : parseQuery toLowercase (render items) =
      items.foldl (insert toLowercase) .default := by
  have hloop : ∀ query, parseTokens toLowercase (items.map token) query =
      items.foldl (insert toLowercase) query := by
    induction items with
    | nil => exact fun _ => rfl
    | cons item items ih =>
      intro query
      have hitem := h item List.mem_cons_self
      rw [List.map_cons, parseTokens_cons _ fun hor => hitem.ne_or hor.1, hitem.insertToken,
        ih fun later hlater => h later (List.mem_cons_of_mem item hlater)]
      rfl
  rw [parseQuery, tokenize_render h, hloop]

/-! ## What the items say -/

def TEXT_FIELDS : List String := ["title", "tag", "schema", "source", "scraped", "refresh"]

def asWord : Item → Option String
  | .word w => some w
  | _ => none

def asPhrase : Item → Option String
  | .phrase text => some text
  | _ => none

def asExclude : Item → Option String
  | .exclude w => some w
  | _ => none

def field : Item → Option String
  | .filter field _ => some field
  | _ => none

end Item

/-- The query has what the items say, in their order, and nothing else. -/
structure ParsedQuery.Says (toLowercase : String → String) (query : ParsedQuery)
    (items : List Item) : Prop where
  terms : query.terms = (items.filterMap Item.asWord).map toLowercase
  phrases : query.phrases = (items.filterMap Item.asPhrase).map toLowercase
  excludes : query.excludes = (items.filterMap Item.asExclude).map toLowercase
  fields : ∀ field value, query.fields[field]? = some value ↔
    ∃ given, Item.filter field given ∈ items ∧ toLowercase given = value
  limit : query.limit = none
  since : query.since = none
  before : query.before = none

namespace Item
variable {toLowercase : String → String}

theorem insertFilter_text {field : String} (h : field ∈ TEXT_FIELDS) (value : String)
    (query : ParsedQuery) : insertFilter toLowercase query field value =
      { query with fields := query.fields.insert field (toLowercase value) } := by
  have hother : field ≠ "limit" ∧ field ≠ "since" ∧ field ≠ "before" := by
    refine ⟨?_, ?_, ?_⟩ <;> rintro rfl <;> exact absurd h (by decide)
  rw [insertFilter, if_neg hother.1, if_neg hother.2.1, if_neg hother.2.2]

theorem says_insert {query : ParsedQuery} {items : List Item} {item : Item}
    (h : query.Says toLowercase items)
    (htext : ∀ field value, item = .filter field value → field ∈ TEXT_FIELDS)
    (hnew : ∀ field, item.field = some field → field ∉ items.filterMap Item.field) :
    (item.insert toLowercase query).Says toLowercase (items ++ [item]) := by
  cases item with
  | filter field value =>
    rw [Item.insert, insertFilter_text (htext field value rfl)]
    refine ⟨?_, ?_, ?_, fun field' value' => ?_, h.limit, h.since, h.before⟩
    · simp [h.terms, asWord]
    · simp [h.phrases, asPhrase]
    · simp [h.excludes, asExclude]
    · have hfresh : ∀ given, Item.filter field given ∉ items := by
        intro given hmem
        exact hnew field rfl (List.mem_filterMap.mpr ⟨_, hmem, rfl⟩)
      rw [OrderedTable.get_insert_eq_some, h.fields]
      simp only [List.mem_append, List.mem_singleton, Item.filter.injEq]
      constructor
      · rintro (⟨rfl, rfl⟩ | ⟨-, given, hmem, rfl⟩)
        · exact ⟨value, .inr ⟨rfl, rfl⟩, rfl⟩
        · exact ⟨given, .inl hmem, rfl⟩
      · rintro ⟨given, hmem | ⟨rfl, rfl⟩, rfl⟩
        · refine .inr ⟨?_, given, hmem, rfl⟩
          rintro rfl
          exact hfresh given hmem
        · exact .inl ⟨rfl, rfl⟩
  | _ =>
    refine ⟨?_, ?_, ?_, ?_, h.limit, h.since, h.before⟩
    · simp [Item.insert, h.terms, asWord]
    · simp [Item.insert, h.phrases, asPhrase]
    · simp [Item.insert, h.excludes, asExclude]
    · simp [Item.insert, h.fields]

theorem says_foldl {items : List Item}
    (htext : ∀ field value, Item.filter field value ∈ items → field ∈ TEXT_FIELDS)
    (hfields : (items.filterMap Item.field).Nodup) :
    (items.foldl (insert toLowercase) .default).Says toLowercase items := by
  induction items using List.reverseRecOn with
  | nil => exact ⟨rfl, rfl, rfl, by simp [ParsedQuery.default], rfl, rfl, rfl⟩
  | append_singleton items item ih =>
    rw [List.filterMap_append, List.nodup_append] at hfields
    rw [List.foldl_append, List.foldl_cons, List.foldl_nil]
    refine says_insert (ih ?_ hfields.1) ?_ ?_
    · exact fun field value hmem => htext field value (List.mem_append_left _ hmem)
    · rintro field value rfl
      exact htext field value (by simp)
    · intro field hfield hmem
      exact hfields.2.2 field hmem field (List.mem_filterMap.mpr ⟨item, by simp, hfield⟩) rfl

/-- Words, phrases, excluded words and text filters, each field at most once, are read back as they are
written, in lower case. -/
theorem parseQuery_says (toLowercase : String → String) {items : List Item}
    (h : ∀ item ∈ items, item.WellFormed)
    (htext : ∀ field value, Item.filter field value ∈ items → field ∈ TEXT_FIELDS)
    (hfields : (items.filterMap Item.field).Nodup) :
    (parseQuery toLowercase (render items)).Says toLowercase items := by
  rw [parseQuery_render h]
  exact says_foldl htext hfields

end Item

def someItems : List Item :=
  [.word "Rust", .phrase "a  b: -c", .filter "title" "x:y", .exclude "go", .word "async"]

theorem parseQuery_says_someItems :
    (parseQuery asciiLowercase (Item.render someItems)).Says asciiLowercase someItems := by
  have hword : ∀ {w : String}, w ≠ "" → w.toList.all (fun c => ! isWhiteSpace c && c != '"') = true →
      ':' ∉ w.toList → w.toList.head? ≠ some '-' → w ≠ "OR" → BareWord w :=
    fun hne hplain hcolon hdash hor => ⟨unbroken_of hne hplain, hcolon, hdash, hor⟩
  refine Item.parseQuery_says asciiLowercase ?_ ?_ (by decide)
  · intro item hitem
    simp only [someItems, List.mem_cons, List.not_mem_nil, or_false] at hitem
    rcases hitem with rfl | rfl | rfl | rfl | rfl
    · exact hword (by decide) (by decide) (by decide) (by decide) (by decide)
    · exact (by decide : '"' ∉ "a  b: -c".toList)
    · exact ⟨by decide, by simp [isWhiteSpace], by decide⟩
    · exact hword (by decide) (by decide) (by decide) (by decide) (by decide)
    · exact hword (by decide) (by decide) (by decide) (by decide) (by decide)
  · intro field value hmem
    simp only [someItems, List.mem_cons, reduceCtorEq, List.not_mem_nil, or_false, false_or,
      Item.filter.injEq] at hmem
    rw [hmem.1]
    decide

example : Item.render someItems = "Rust \"a  b: -c\" title:x:y -go async" := by decide

end DSearch.Query
