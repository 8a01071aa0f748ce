import DSearch.Api.Content
import DSearch.Node.MessageLoop
import DSearch.Search.Tokens

/-! # One search, two ways in

`SearchQuery` on the wire and `GET /search` end in the same call. The HTTP handler puts the schema in
front of the query as a filter; the message loop does not look at the `schema` of the message. -/

namespace DSearch
set_option autoImplicit false
open Transaction

/-! ## A filter at the head of a query -/

namespace Query
open RustText
variable (toLowercase : String → String)

/-- The first token of the tokens and the rest begins with `schema:`. -/
def Tokenizer.Opens (t : Tokenizer) : Prop :=
  ∃ value : List Char, (t.tokens = [] ∧ t.current = "schema:".toList ++ value) ∨
    ∃ rest, t.tokens = String.ofList ("schema:".toList ++ value) :: rest

theorem Tokenizer.Opens.flush {t : Tokenizer} (h : t.Opens) :
    ∃ value rest, t.flush = String.ofList ("schema:".toList ++ value) :: rest := by
  obtain ⟨value, ⟨htokens, hcurrent⟩ | ⟨rest, htokens⟩⟩ := h
  · refine ⟨value, [], ?_⟩
    rw [Tokenizer.flush, htokens, hcurrent]
    rfl
  · unfold Tokenizer.flush
    rw [htokens]
    split
    · exact ⟨value, rest, rfl⟩
    · exact ⟨value, rest ++ [String.ofList t.current], rfl⟩

theorem Tokenizer.Opens.step {t : Tokenizer} (h : t.Opens) (ch : Char) : (t.step ch).Opens := by
  obtain ⟨first, rest, hflush⟩ := h.flush
  have hflushed : ∀ (current : List Char) (inQuotes : Bool),
      (⟨t.flush, current, inQuotes⟩ : Tokenizer).Opens := fun _ _ => ⟨first, .inr ⟨rest, hflush⟩⟩
  have hkept : ∀ inQuotes, (⟨t.tokens, t.current ++ [ch], inQuotes⟩ : Tokenizer).Opens := by
    intro inQuotes
    obtain ⟨value, ⟨htokens, hcurrent⟩ | ⟨rest, htokens⟩⟩ := h
    · exact ⟨value ++ [ch], .inl ⟨htokens, by rw [hcurrent, List.append_assoc]⟩⟩
    · exact ⟨value, .inr ⟨rest, htokens⟩⟩
  unfold Tokenizer.step
  split
  · split
    · exact hkept false
    · exact hflushed [ch] true
  · split
    · exact hflushed [] t.inQuotes
    · exact hkept t.inQuotes

theorem tokenize_schema (s : String) :
    ∃ value rest, tokenize ("schema:" ++ s) = String.ofList ("schema:".toList ++ value) :: rest := by
  have hopens : ∀ (cs : List Char) (t : Tokenizer), t.Opens → (cs.foldl Tokenizer.step t).Opens := by
    intro cs
    induction cs with
    | nil => exact fun _ h => h
    | cons c cs ih => exact fun t h => ih _ (h.step c)
  have hstart : ("schema:".toList.foldl Tokenizer.step ⟨[], [], false⟩).Opens :=
    ⟨[], .inl (by decide)⟩
  unfold tokenize
  rw [String.toList_append, List.foldl_append]
  exact (hopens s.toList _ hstart).flush

theorem insertToken_schema (query : ParsedQuery) (value : List Char) :
    insertToken toLowercase query (String.ofList ("schema:".toList ++ value)) =
      { query with fields := query.fields.insert "schema" (toLowercase (String.ofList value)) } := by
  have hfilter : parseFieldFilter (String.ofList ("schema:".toList ++ value)) =
      some ("schema", String.ofList value) := by
    rw [parseFieldFilter, String.toList_ofList]
    rfl
  unfold insertToken
  rw [String.toList_ofList, hfilter]
  rfl

theorem insertToken_keepsSchema {query : ParsedQuery}
    (h : query.fields["schema"]?.isSome = true) (token : String) :
    (insertToken toLowercase query token).fields["schema"]?.isSome = true := by
  unfold insertToken
  dsimp only
  split
  · exact h
  · split
    · exact h
    · split
      · next field value hfilter =>
        unfold insertFilter
        split
        · split <;> exact h
        · split
          · exact h
          · split
            · exact h
            · dsimp only
              rw [OrderedTable.get_insert]
              split
              · rfl
              · exact h
      · exact h

theorem parseTokens_keepsSchema (tokens : List String) {query : ParsedQuery}
    (h : query.fields["schema"]?.isSome = true) :
    (parseTokens toLowercase tokens query).fields["schema"]?.isSome = true := by
  induction tokens, query using parseTokens.induct toLowercase with
  | case1 query => exact h
  | case2 token query hor =>
    rw [parseTokens.eq_def]
    dsimp only
    rw [if_pos hor]
    exact h
  | case3 token query hor next tokens ih =>
    rw [parseTokens_or toLowercase hor]
    exact ih h
  | case4 token tokens query hor ih =>
    rw [parseTokens_cons toLowercase hor]
    exact ih (insertToken_keepsSchema toLowercase h token)

/-- A query with `schema:` in front asks for some schema. -/
theorem parseQuery_schema (s : String) :
    (parseQuery toLowercase ("schema:" ++ s)).fields["schema"]?.isSome = true := by
  obtain ⟨value, rest, htokens⟩ := tokenize_schema s
  have hfirst : ¬ (String.ofList ("schema:".toList ++ value) = "OR" ∧
      ParsedQuery.default.terms ≠ []) := fun h => h.2 rfl
  rw [parseQuery, htokens, parseTokens_cons toLowercase hfirst, insertToken_schema]
  apply parseTokens_keepsSchema
  rw [OrderedTable.get_insert, if_pos rfl]
  rfl

end Query

/-! ## The two handlers -/

namespace Content

/-- The records that `handle_search` answers with. -/
def searchResults (env : NodeEnv) (req : HttpRequest) : Client NodeState (List ContentRecord) :=
  NodeState.searchRecords env (effectiveQuery req (req.query["q"]?.getD "")) (queryLimit req 20)

def searchResponse (nodeId query : String) (results : List ContentRecord) : HttpResponse :=
  (jsonReply nodeId [
    ("count", JsonText.ofNat results.length),
    ("query", JsonText.ofString query),
    ("results", JsonText.ofArray (results.map ContentRecord.valueJson))]).withRecordCount
      results.length

theorem search_run (env : NodeEnv) (nodeId : String) (req : HttpRequest) (s : NodeState) :
    ((search env nodeId req).run s).2 =
      searchResponse nodeId (req.query["q"]?.getD "") ((searchResults env req).run s).2 := by
  unfold search
  rw [Client.run_bind]
  rfl

end Content

theorem handleFrame_searchQuery {ed : Ed25519} (read : PayloadReader)
    (fromStr : Bytes → Except String ContentRecord) (store : Store ed) (peerNodeId : String)
    (env : LoopEnv) {f : Frame} {message : SearchQuery} (htype : f.msgType = .searchQuery)
    (hread : read.searchQuery f.payload = .ok message) (s : NodeState) :
    ((handleFrame read fromStr (some store) peerNodeId env f).run s).2 =
      .ok (.reply (Frame.new .searchReply (searchReply peerNodeId message.query
        ((NodeState.searchRecords env.nodeEnv message.query message.limit).run s).2).toJson)) := by
  unfold handleFrame decodePayload
  rw [htype]
  simp only [hread]
  rw [Client.run_bind]
  rfl

def searchMessage (query : String) (schema : Option String) (limit : UInt32) : SearchQuery where
  query := query
  schema := schema
  limit := limit.toNat
  requesterId := ""
  replyTo := ""

/-- `GET /search` with the same fields. -/
def searchRequest (query : String) (schema : Option String) (limit : UInt32) : HttpRequest where
  method := "GET"
  path := "/search"
  query :=
    let params := ((∅ : Table String).insert "q" query).insert "limit" (toString limit.toNat)
    match schema with
    | some s => params.insert "schema" s
    | none => params
  headers := ∅
  body := ""

section
variable (query : String) (schema : Option String) (limit : UInt32)

theorem searchRequest_q : (searchRequest query schema limit).query["q"]?.getD "" = query := by
  have hparam : (searchRequest query schema limit).query["q"]? = some query := by
    unfold searchRequest
    cases schema with
    | none => rw [OrderedTable.get_insert, if_neg (by decide), OrderedTable.get_insert, if_pos rfl]
    | some s =>
      rw [OrderedTable.get_insert, if_neg (by decide), OrderedTable.get_insert, if_neg (by decide),
        OrderedTable.get_insert, if_pos rfl]
  rw [hparam]
  rfl

theorem searchRequest_schema : (searchRequest query schema limit).query["schema"]? = schema := by
  unfold searchRequest
  cases schema <;> simp

theorem searchRequest_limit :
    Content.queryLimit (searchRequest query schema limit) 20 = limit.toNat := by
  have hparam : (searchRequest query schema limit).query["limit"]? = some (toString limit.toNat) := by
    unfold searchRequest
    cases schema with
    | none => rw [OrderedTable.get_insert, if_pos rfl]
    | some s => rw [OrderedTable.get_insert, if_neg (by decide), OrderedTable.get_insert, if_pos rfl]
  have hbound : limit.toNat < 2 ^ 64 := lt_trans limit.toNat_lt (by decide)
  rw [Content.queryLimit, hparam, Option.bind_some, RustText.parseUnsigned_toString hbound]
  rfl

end

section
variable (env : NodeEnv)

/-- What a search finds that is not answered from the cache. -/
def rankedResults (db : Db) (queryStr : String) (limit : ℕ) : List ContentRecord :=
  let parsed := Query.parseQuery env.toLowercase queryStr
  let effectiveLimit := parsed.limit.getD limit
  let allRecords := Records.listRecords db parsed.fields["schema"]? (effectiveLimit * 10 % 2 ^ 64)
  let matched := (allRecords.filter fun record =>
      Query.matchesQuery env.toLowercase record parsed).map fun record =>
    (record, Query.scoreRecord env.toLowercase record parsed 1 env.now)
  ((matched.insertionSort fun a b => ¬ a.2 < b.2).take effectiveLimit).map Prod.fst

/-- The state of a node whose search cache is cold. -/
def NodeState.cold (s : NodeState) : NodeState :=
  { s with searchCache := .new (30 * NANOS_PER_SEC) 256 }

theorem searchRecords_cold (queryStr : String) (limit : ℕ) (s : NodeState) :
    ((NodeState.searchRecords env queryStr limit).run s.cold).2 =
      rankedResults env s.db queryStr limit := by
  unfold NodeState.searchRecords
  dsimp only
  rw [Client.run_atomically]
  have hmiss : (s.cold.searchCache.get (queryStr ++ ":" ++ toString limit) env.instant).2 = none := by
    simp [NodeState.cold, SearchCache.get, SearchCache.new]
  rw [hmiss]
  rfl

/-- The record ids of the reply to a `SearchQuery`. -/
def quicSearchIds (peerNodeId : String) (message : SearchQuery) (s : NodeState) : List String :=
  (searchReply peerNodeId message.query
    ((NodeState.searchRecords env message.query message.limit).run s).2).results.map
      SearchResultEntry.recordId

/-- The record ids of the response to `GET /search`. -/
def httpSearchIds (query : String) (schema : Option String) (limit : UInt32) (s : NodeState) :
    List String :=
  ((Content.searchResults env (searchRequest query schema limit)).run s).2.map ContentRecord.id

theorem quicSearchIds_cold (peerNodeId : String) (message : SearchQuery) (s : NodeState) :
    quicSearchIds env peerNodeId message s.cold =
      (rankedResults env s.db message.query message.limit).map ContentRecord.id := by
  rw [quicSearchIds, searchRecords_cold, searchReply, List.map_map]
  rfl

theorem httpSearchIds_cold (query : String) (schema : Option String) (limit : UInt32)
    (s : NodeState) : httpSearchIds env query schema limit s.cold =
      (rankedResults env s.db (Content.effectiveQuery (searchRequest query schema limit) query)
        limit.toNat).map ContentRecord.id := by
  rw [httpSearchIds, Content.searchResults, searchRequest_q, searchRequest_limit, searchRecords_cold]

/-- The schema adds nothing to the query: there is none, it is empty, or the query has a `schema:`
filter of its own that comes after it. -/
def SchemaInert (toLowercase : String → String) (query : String) (schema : Option String) : Prop :=
  ∀ s ∈ schema, s ≠ "" →
    Query.parseQuery toLowercase ("schema:" ++ s ++ " " ++ query) = Query.parseQuery toLowercase query

theorem effectiveQuery_searchRequest (query s : String) (limit : UInt32) (hs : s ≠ "") :
    Content.effectiveQuery (searchRequest query (some s) limit) query =
      "schema:" ++ s ++ " " ++ query := by
  rw [Content.effectiveQuery, searchRequest_schema]
  exact if_neg hs

theorem rankedResults_congr {queryStr queryStr' : String}
    (h : Query.parseQuery env.toLowercase queryStr = Query.parseQuery env.toLowercase queryStr')
    (db : Db) (limit : ℕ) :
    rankedResults env db queryStr limit = rankedResults env db queryStr' limit := by
  unfold rankedResults
  rw [h]

theorem searchIds_eq_of_inert {query : String} {schema : Option String}
    (hinert : SchemaInert env.toLowercase query schema) (peerNodeId : String) (limit : UInt32)
    (s : NodeState) :
    quicSearchIds env peerNodeId (searchMessage query schema limit) s.cold =
      httpSearchIds env query schema limit s.cold := by
  rw [quicSearchIds_cold, httpSearchIds_cold]
  cases schema with
  | none =>
    rw [Content.effectiveQuery, searchRequest_schema]
    rfl
  | some given =>
    by_cases hempty : given = ""
    · rw [Content.effectiveQuery, searchRequest_schema]
      simp only [hempty, if_true]
      rfl
    · rw [effectiveQuery_searchRequest query given limit hempty,
        rankedResults_congr env (hinert given rfl hempty)]
      rfl

/-! ### A schema that is ignored -/

/-- A store with one record, of this schema. -/
def oneOfSchema (schema : String) : NodeState :=
  .new { Db.empty with
    records := (∅ : Table ContentRecord).insert "r1"
      { makeRecord "r1" "src" 1 0 with schema := schema } }

theorem toList_oneOfSchema (recordSchema : String) :
    (oneOfSchema recordSchema).db.records.toList.map Prod.snd =
      [{ makeRecord "r1" "src" 1 0 with schema := recordSchema }] := by
  have hget : (oneOfSchema recordSchema).db.records["r1"]? =
      some { makeRecord "r1" "src" 1 0 with schema := recordSchema } :=
    (OrderedTable.get_insert _ _ _ _).trans (if_pos rfl)
  have hrest : ((oneOfSchema recordSchema).db.records.erase "r1").toList = [] := by
    have herase := OrderedTable.erase_insert_self (∅ : Table ContentRecord) "r1"
      { makeRecord "r1" "src" 1 0 with schema := recordSchema }
    rw [show (oneOfSchema recordSchema).db.records.erase "r1" = _ from herase,
      OrderedTable.erase_of_get_eq_none (by simp)]
    simp
  have hperm := OrderedTable.toList_perm_of_get hget
  rw [hrest] at hperm
  rw [List.perm_singleton.mp hperm]
  rfl

theorem listRecords_all (recordSchema : String) :
    Records.listRecords (oneOfSchema recordSchema).db none (1 * 10 % 2 ^ 64) =
      [{ makeRecord "r1" "src" 1 0 with schema := recordSchema }] := by
  rw [Records.listRecords, toList_oneOfSchema]
  rfl

theorem listRecords_otherSchema {recordSchema wanted : String} (h : recordSchema ≠ wanted) (limit : ℕ) :
    Records.listRecords (oneOfSchema recordSchema).db (some wanted) limit = [] := by
  rw [Records.listRecords, toList_oneOfSchema]
  simp [Records.listRows, h]

theorem matchesQuery_empty (toLowercase : String → String) (record : ContentRecord) :
    Query.matchesQuery toLowercase record .default = true := by
  have hgroups : Query.orGroups [] = [] := rfl
  simp [Query.matchesQuery, Query.ParsedQuery.default, hgroups]

/-- The empty query finds the record, whatever its schema. -/
theorem rankedResults_all (recordSchema : String) :
    (rankedResults env (oneOfSchema recordSchema).db "" 1).map ContentRecord.id = ["r1"] := by
  have hparse : Query.parseQuery env.toLowercase "" = .default := rfl
  have hfields : Query.ParsedQuery.default.fields["schema"]? = none := by
    simp [Query.ParsedQuery.default]
  have hlimit : Query.ParsedQuery.default.limit = none := rfl
  rw [rankedResults, hparse]
  simp only [hfields, hlimit, Option.getD_none, listRecords_all, List.filter_cons,
    matchesQuery_empty, if_true]
  rfl

/-- A query for another schema finds nothing. -/
theorem rankedResults_otherSchema {recordSchema wanted queryStr : String}
    (hwanted : (Query.parseQuery env.toLowercase queryStr).fields["schema"]? = some wanted)
    (hother : recordSchema ≠ wanted) (limit : ℕ) :
    rankedResults env (oneOfSchema recordSchema).db queryStr limit = [] := by
  rw [rankedResults, hwanted]
  simp only [listRecords_otherSchema hother, List.filter_nil, List.map_nil, List.insertionSort_nil,
    List.take_nil]

theorem exists_schema_not_found (given : String) :
    ∃ recordSchema,
      rankedResults env (oneOfSchema recordSchema).db ("schema:" ++ given ++ " " ++ "") 1 = [] := by
  have hasked := Query.parseQuery_schema env.toLowercase (given ++ " " ++ "")
  rw [← String.append_assoc, ← String.append_assoc] at hasked
  obtain ⟨wanted, hwanted⟩ := Option.isSome_iff_exists.mp hasked
  have hother : wanted ++ "x" ≠ wanted := by
    intro hsame
    have hlength := congrArg String.length hsame
    rw [String.length_append] at hlength
    have hx : "x".length = 1 := rfl
    omega
  exact ⟨wanted ++ "x", rankedResults_otherSchema env hwanted hother 1⟩

/-- The ids agree wherever the schema is inert. A schema that is not empty is not inert for all queries:
for each there is a store on which the ids differ. -/
theorem searches_agree (peerNodeId : String) :
    (∀ query schema, SchemaInert env.toLowercase query schema → ∀ limit s,
      quicSearchIds env peerNodeId (searchMessage query schema limit) (NodeState.cold s) =
        httpSearchIds env query schema limit s.cold) ∧
    ∀ schema, (∀ query limit s,
      quicSearchIds env peerNodeId (searchMessage query schema limit) (NodeState.cold s) =
        httpSearchIds env query schema limit s.cold) ↔ schema = none ∨ schema = some "" := by
  refine ⟨fun query schema hinert limit s => searchIds_eq_of_inert env hinert peerNodeId limit s,
    fun schema => ⟨fun hagree => ?_, fun hschema query limit s => ?_⟩⟩
  · by_contra hgiven
    obtain ⟨hnone, hempty⟩ := not_or.mp hgiven
    obtain ⟨given, rfl⟩ := Option.ne_none_iff_exists'.mp hnone
    have hne : given ≠ "" := fun h => hempty (congrArg some h)
    obtain ⟨recordSchema, hmissed⟩ := exists_schema_not_found env given
    have hids := hagree "" 1 (oneOfSchema recordSchema)
    rw [quicSearchIds_cold, httpSearchIds_cold, effectiveQuery_searchRequest "" given 1 hne] at hids
    have hfound := rankedResults_all env recordSchema
    have hlost := congrArg (List.map ContentRecord.id) hmissed
    exact absurd (hfound.symm.trans (hids.trans hlost)) (by simp)
  · refine searchIds_eq_of_inert env ?_ peerNodeId limit s
    rintro given hgiven hne
    rcases hschema with rfl | rfl
    · cases hgiven
    · exact absurd (Option.some.inj hgiven).symm hne

end

/-- A node whose lower case is the text itself. -/
def NodeEnv.plain : NodeEnv where
  now := 0
  instant := 0
  order := .sorted
  toLowercase := id

/-- The schema `kv/pair` is dropped on the way in over QUIC. -/
theorem schema_lost_over_quic :
    quicSearchIds .plain "p" (searchMessage "" (some "kv/pair") 1) (oneOfSchema "text/html").cold =
        ["r1"] ∧
      httpSearchIds .plain "" (some "kv/pair") 1 (oneOfSchema "text/html").cold = [] := by
  rw [quicSearchIds_cold, httpSearchIds_cold, effectiveQuery_searchRequest "" "kv/pair" 1 (by decide)]
  have hwanted : (Query.parseQuery NodeEnv.plain.toLowercase
      ("schema:" ++ "kv/pair" ++ " " ++ "")).fields["schema"]? = some "kv/pair" := by
    decide +kernel
  have hmissed := rankedResults_otherSchema .plain hwanted (by decide : "text/html" ≠ "kv/pair") 1
  refine ⟨rankedResults_all .plain "text/html", ?_⟩
  exact congrArg (List.map ContentRecord.id) hmissed

end DSearch
