import DSearch.Node.SearchAgreement

/-! # What a search does not look at

`search_records` matches the records that `list_records` gives it: the first ones in the order of their
ids, ten times as many as it may return, and with a schema filter only those of exactly that schema.
Records beyond the scan, or with a schema that the filter is a part of, are not found. -/

namespace DSearch
set_option autoImplicit false
open Transaction

/-! ## The records of a scan -/

namespace Records

def storedRecords (db : Db) : List ContentRecord := db.records.toList.map Prod.snd

theorem listRows_eq (schema : Option String) (limit : ℕ) (results rows : List ContentRecord)
    (h : results.length < max 1 limit) : listRows schema limit results rows =
      results ++ (rows.filter fun record => ! schema.any (record.schema ≠ ·)).take
        (max 1 limit - results.length) := by
  induction rows generalizing results with
  | nil => simp [listRows]
  | cons record rows ih =>
    rw [listRows, List.filter_cons]
    by_cases hother : schema.any (record.schema ≠ ·) = true
    · rw [if_pos hother, ih results h, hother]
      rfl
    · have hroom : max 1 limit - results.length =
          max 1 limit - (results ++ [record]).length + 1 := by
        rw [List.length_append, List.length_singleton]
        omega
      rw [if_neg hother, Bool.eq_false_of_not_eq_true hother, Bool.not_false, if_pos rfl, hroom,
        List.take_succ_cons]
      dsimp only
      by_cases hfull : (results ++ [record]).length ≥ limit
      · -- the limit is reached with this record
        have hnone : max 1 limit - (results ++ [record]).length = 0 := by
          rw [List.length_append, List.length_singleton] at hfull ⊢
          omega
        rw [if_pos hfull, hnone, List.take_zero]
      · rw [if_neg hfull, ih (results ++ [record]) (by omega), List.append_assoc]
        rfl

/-- The loop adds a record before it looks at the limit, so it finds one even with a limit of 0. -/
theorem listRecords_eq (db : Db) (schema : Option String) (limit : ℕ) :
    listRecords db schema limit =
      ((storedRecords db).filter fun record => ! schema.any (record.schema ≠ ·)).take
        (max 1 limit) := by
  have hrows := listRows_eq schema limit [] (storedRecords db) (by simp)
  rw [List.nil_append, List.length_nil, Nat.sub_zero] at hrows
  exact hrows

theorem listRecords_none (db : Db) (limit : ℕ) :
    listRecords db none limit = (storedRecords db).take (max 1 limit) := by
  rw [listRecords_eq]
  simp

theorem mem_listRecords_some {db : Db} {schema : String} {limit : ℕ}
    (hlimit : (storedRecords db).length ≤ limit) {record : ContentRecord} :
    record ∈ listRecords db (some schema) limit ↔
      record ∈ storedRecords db ∧ record.schema = schema := by
  have hall : ((storedRecords db).filter fun record => ! (some schema).any (record.schema ≠ ·)).length ≤
      max 1 limit :=
    (List.length_filter_le _ _).trans (hlimit.trans (le_max_right 1 limit))
  rw [listRecords_eq, List.take_of_length_le hall]
  simp [List.mem_filter]

end Records

/-! ## Searches without a schema filter -/

section
variable (env : NodeEnv)

/-- The limit that a search goes by: that of the query, if it has one. -/
def effectiveLimit (queryStr : String) (limit : ℕ) : ℕ :=
  (Query.parseQuery env.toLowercase queryStr).limit.getD limit

def accepted (queryStr : String) (records : List ContentRecord) : List ContentRecord :=
  records.filter fun record =>
    Query.matchesQuery env.toLowercase record (Query.parseQuery env.toLowercase queryStr)

/-- The records that a search without a schema filter looks at. -/
def scanned (db : Db) (queryStr : String) (limit : ℕ) : List ContentRecord :=
  (Records.storedRecords db).take (max 1 (effectiveLimit env queryStr limit * 10 % 2 ^ 64))

/-- The scan has enough of the matching records, or all of them. -/
def ScanSuffices (db : Db) (queryStr : String) (limit : ℕ) : Prop :=
  effectiveLimit env queryStr limit ≤ (accepted env queryStr (scanned env db queryStr limit)).length ∨
    accepted env queryStr (scanned env db queryStr limit) =
      accepted env queryStr (Records.storedRecords db)

theorem rankedResults_perm {db : Db} {queryStr : String}
    (hschema : (Query.parseQuery env.toLowercase queryStr).fields["schema"]? = none) (limit : ℕ) :
    ∃ ranked : List ContentRecord,
      ranked.Perm (accepted env queryStr (scanned env db queryStr limit)) ∧
        rankedResults env db queryStr limit = ranked.take (effectiveLimit env queryStr limit) := by
  unfold rankedResults
  dsimp only
  rw [hschema, Records.listRecords_none]
  refine ⟨List.map Prod.fst (List.insertionSort _ _), ?_, List.map_take⟩
  refine ((List.perm_insertionSort _ _).map Prod.fst).trans ?_
  rw [List.map_map]
  exact List.Perm.of_eq (List.map_id _)

/-- With a cold cache, a search without a schema filter returns as many records as it may, or as there
are, exactly where the scan suffices. -/
theorem search_complete_iff (queryStr : String) (limit : ℕ) (s : NodeState)
    (hschema : (Query.parseQuery env.toLowercase queryStr).fields["schema"]? = none) :
    let results := ((NodeState.searchRecords env queryStr limit).run s.cold).2
    let matching := accepted env queryStr (Records.storedRecords s.db)
    (results.length = min (effectiveLimit env queryStr limit) matching.length ∧
        ∀ record ∈ results, record ∈ matching) ↔
      ScanSuffices env s.db queryStr limit := by
  obtain ⟨ranked, hperm, hresults⟩ := @rankedResults_perm env s.db queryStr hschema limit
  have hsublist : (accepted env queryStr (scanned env s.db queryStr limit)).Sublist
      (accepted env queryStr (Records.storedRecords s.db)) :=
    (List.take_sublist _ _).filter _
  have hmatching : ∀ record ∈ ranked.take (effectiveLimit env queryStr limit),
      record ∈ accepted env queryStr (Records.storedRecords s.db) := by
    intro record hrecord
    exact hsublist.subset (hperm.subset (List.mem_of_mem_take hrecord))
  have hwhole : (accepted env queryStr (scanned env s.db queryStr limit)).length =
      (accepted env queryStr (Records.storedRecords s.db)).length ↔
        accepted env queryStr (scanned env s.db queryStr limit) =
          accepted env queryStr (Records.storedRecords s.db) :=
    ⟨hsublist.eq_of_length, congrArg List.length⟩
  have hle := hsublist.length_le
  dsimp only
  rw [searchRecords_cold, hresults, and_iff_left hmatching, List.length_take, hperm.length_eq, ScanSuffices, ← hwhole]
  omega

end

/-- Ten records without the word, and after them in the order of their ids one that has it. -/
def tenBefore : NodeState :=
  .new { Db.empty with
    records := (["a0", "a1", "a2", "a3", "a4", "a5", "a6", "a7", "a8", "a9"].foldl
        (fun table id => table.insert id (makeRecord id id 1 0)) (∅ : Table ContentRecord)).insert "b"
      { makeRecord "b" "src" 1 0 with body := "a needle" } }

theorem parseQuery_needle :
    Query.orGroups (Query.parseQuery NodeEnv.plain.toLowercase "needle").terms = [["needle"]] ∧
      (Query.parseQuery NodeEnv.plain.toLowercase "needle").limit = none ∧
      (Query.parseQuery NodeEnv.plain.toLowercase "needle").fields["schema"]? = none := by
  decide +kernel

theorem not_matches_needle {id : String} (h : 'n' ∉ id.toList) :
    Query.matchesQuery NodeEnv.plain.toLowercase (makeRecord id id 1 0)
      (Query.parseQuery NodeEnv.plain.toLowercase "needle") = false := by
  have htext : (Query.buildSearchableText NodeEnv.plain.toLowercase (makeRecord id id 1 0)).toList =
      id.toList ++ " https://example.com wiki/article test Hello world".toList := by
    simp [Query.buildSearchableText, makeRecord, NodeEnv.plain, String.join]
  have hmisses : RustText.contains
      (Query.buildSearchableText NodeEnv.plain.toLowercase (makeRecord id id 1 0)) "needle" = false := by
    refine decide_eq_false fun hpart => ?_
    have hletter : 'n' ∈ "needle".toList := by decide
    have hmem := hpart.subset hletter
    rw [htext, List.mem_append] at hmem
    exact hmem.elim h (by decide)
  unfold Query.matchesQuery
  dsimp only
  rw [parseQuery_needle.1, List.all_cons, List.any_cons, hmisses]
  simp

theorem storedRecords_tenBefore : Records.storedRecords tenBefore.db =
    ["a0", "a1", "a2", "a3", "a4", "a5", "a6", "a7", "a8", "a9"].map (fun id => makeRecord id id 1 0) ++
      [{ makeRecord "b" "src" 1 0 with body := "a needle" }] := by
  decide +kernel

theorem effectiveLimit_needle (limit : ℕ) : effectiveLimit .plain "needle" limit = limit := by
  rw [effectiveLimit, parseQuery_needle.2.1, Option.getD_none]

theorem search_misses_record :
    ((NodeState.searchRecords .plain "needle" 1).run tenBefore.cold).2 = [] ∧
      effectiveLimit .plain "needle" 1 = 1 ∧
      (accepted .plain "needle" (Records.storedRecords tenBefore.db)).length = 1 := by
  have hnone : accepted .plain "needle"
      (["a0", "a1", "a2", "a3", "a4", "a5", "a6", "a7", "a8", "a9"].map
        fun id => makeRecord id id 1 0) = [] := by
    have hids : ∀ id ∈ ["a0", "a1", "a2", "a3", "a4", "a5", "a6", "a7", "a8", "a9"],
        'n' ∉ id.toList := by decide
    rw [accepted, List.filter_eq_nil_iff]
    intro record hrecord
    obtain ⟨id, hid, rfl⟩ := List.mem_map.mp hrecord
    rw [not_matches_needle (hids id hid)]
    exact Bool.false_ne_true
  refine ⟨?_, effectiveLimit_needle 1, ?_⟩
  · obtain ⟨ranked, hperm, hresults⟩ := @rankedResults_perm .plain tenBefore.db "needle"
      parseQuery_needle.2.2 1
    have hscanned : scanned .plain tenBefore.db "needle" 1 =
        ["a0", "a1", "a2", "a3", "a4", "a5", "a6", "a7", "a8", "a9"].map
          fun id => makeRecord id id 1 0 := by
      have hten : max 1 (1 * 10 % 2 ^ 64) = (["a0", "a1", "a2", "a3", "a4", "a5", "a6", "a7", "a8",
          "a9"].map fun id => makeRecord id id 1 0).length := by decide
      rw [scanned, effectiveLimit_needle, storedRecords_tenBefore, hten]
      exact List.take_left
    rw [hscanned, hnone] at hperm
    rw [searchRecords_cold, hresults, hperm.eq_nil, List.take_nil]
  · have hneedle : Query.matchesQuery NodeEnv.plain.toLowercase
        { makeRecord "b" "src" 1 0 with body := "a needle" }
        (Query.parseQuery NodeEnv.plain.toLowercase "needle") = true := by decide +kernel
    rw [storedRecords_tenBefore, accepted, List.filter_append, ← accepted, hnone,
      List.filter_singleton, hneedle]
    rfl

theorem search_complete_iff_needle :
    (((NodeState.searchRecords .plain "needle" 2).run tenBefore.cold).2.length =
        min (effectiveLimit .plain "needle" 2)
          (accepted .plain "needle" (Records.storedRecords tenBefore.db)).length ∧
      ∀ record ∈ ((NodeState.searchRecords .plain "needle" 2).run tenBefore.cold).2,
        record ∈ accepted .plain "needle" (Records.storedRecords tenBefore.db)) ↔
      ScanSuffices .plain tenBefore.db "needle" 2 :=
  search_complete_iff .plain "needle" 2 tenBefore parseQuery_needle.2.2

/-! ## Searches with a schema filter -/

section
variable (env : NodeEnv)

/-- Of a query with a schema filter: the prefilter keeps every record that the matcher accepts exactly
where these records have the filter's value as their schema. -/
theorem prefilter_keeps_iff {query : Query.ParsedQuery} {wanted : String}
    (hwanted : query.fields["schema"]? = some wanted) (db : Db) :
    (∃ enough, ∀ limit, enough ≤ limit → ∀ record ∈ Records.storedRecords db,
        Query.matchesQuery env.toLowercase record query = true →
          record ∈ Records.listRecords db query.fields["schema"]? limit) ↔
      ∀ record ∈ Records.storedRecords db,
        Query.matchesQuery env.toLowercase record query = true → record.schema = wanted := by
  rw [hwanted]
  constructor
  · rintro ⟨enough, hkept⟩ record hstored hmatches
    have hlisted := hkept (max enough (Records.storedRecords db).length) (le_max_left _ _) record
      hstored hmatches
    exact ((Records.mem_listRecords_some (le_max_right _ _)).mp hlisted).2
  · intro hexact
    refine ⟨(Records.storedRecords db).length, fun limit hlimit record hstored hmatches => ?_⟩
    exact (Records.mem_listRecords_some hlimit).mpr ⟨hstored, hexact record hstored hmatches⟩

end

def articleRecord : ContentRecord := { makeRecord "r1" "src" 1 0 with schema := "wiki/article" }

/-- `schema:wiki` is a filter that the matcher accepts for the schema `wiki/article`, and the prefilter
does not. -/
theorem prefilter_drops_record :
    (Query.parseQuery id "schema:wiki").fields["schema"]? = some "wiki" ∧
      articleRecord ∈ Records.storedRecords (oneOfSchema "wiki/article").db ∧
      Query.matchesQuery id articleRecord (Query.parseQuery id "schema:wiki") = true ∧
      ∀ limit, articleRecord ∉
        Records.listRecords (oneOfSchema "wiki/article").db (some "wiki") limit := by
  refine ⟨by decide +kernel, ?_, by decide +kernel, fun limit => ?_⟩
  · rw [Records.storedRecords, toList_oneOfSchema]
    exact List.mem_singleton.mpr rfl
  · rw [listRecords_otherSchema (by decide)]
    exact List.not_mem_nil

theorem prefilter_keeps_iff_wiki :
    (∃ enough, ∀ limit, enough ≤ limit →
        ∀ record ∈ Records.storedRecords (oneOfSchema "wiki/article").db,
          Query.matchesQuery id record (Query.parseQuery id "schema:wiki") = true → record ∈
            Records.listRecords (oneOfSchema "wiki/article").db
              (Query.parseQuery id "schema:wiki").fields["schema"]? limit) ↔
      ∀ record ∈ Records.storedRecords (oneOfSchema "wiki/article").db,
        Query.matchesQuery id record (Query.parseQuery id "schema:wiki") = true →
          record.schema = "wiki" :=
  prefilter_keeps_iff .plain (by decide +kernel) (oneOfSchema "wiki/article").db

end DSearch
