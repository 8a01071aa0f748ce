import DSearch.Storage.Index

/-! # Searching the inverted index

`search_index` goes through the whole table and takes the rows whose key begins with the text made
from the filter. With a tag value the text has no separator at its end, so a longer value begins with
it too, and a value without a tag key is not looked at. -/

namespace DSearch.Index
set_option autoImplicit false
open Transaction SeparatedText

/-- The text with which the keys of the wanted rows begin. -/
def searchStart (schema : String) (tagKey tagValue : Option String) : String :=
  match tagKey, tagValue with
  | some tk, some tv => keyOf schema tk tv
  | some tk, none => schema ++ "\x00" ++ tk ++ "\x00"
  | none, none => schema ++ "\x00"
  | none, some _ => schema ++ "\x00"

def pushId (results : List String) (id : String) : List String :=
  if id ≠ "" ∧ id ∉ results then results ++ [id] else results

def searchRow (start : String) (results : List String) (row : String × String) : List String :=
  if start.toList.isPrefixOf row.1.toList then (split ',' row.2).foldl pushId results else results

def searchIndex (db : Db) (schema : String) (tagKey tagValue : Option String) : List String :=
  db.invertedIndex.toList.foldl (searchRow (searchStart schema tagKey tagValue)) []

/-! ## What a search lists -/

theorem nodup_foldl_pushId (ids : List String) {results : List String} (h : results.Nodup) :
    (ids.foldl pushId results).Nodup := by
  induction ids generalizing results with
  | nil => exact h
  | cons id ids ih =>
    refine ih ?_
    unfold pushId
    split
    · next hnew =>
      rw [List.nodup_append_comm, List.singleton_append]
      exact List.nodup_cons.mpr ⟨hnew.2, h⟩
    · exact h

theorem mem_foldl_pushId (ids results : List String) (id : String) :
    id ∈ ids.foldl pushId results ↔ id ∈ results ∨ (id ≠ "" ∧ id ∈ ids) := by
  induction ids generalizing results with
  | nil => simp
  | cons first ids ih =>
    rw [List.foldl_cons, ih, pushId]
    by_cases hnew : first ≠ "" ∧ first ∉ results
    · rw [if_pos hnew, List.mem_append, List.mem_singleton, List.mem_cons]
      constructor
      · rintro ((hold | rfl) | ⟨hne, hmem⟩)
        · exact .inl hold
        · exact .inr ⟨hnew.1, .inl rfl⟩
        · exact .inr ⟨hne, .inr hmem⟩
      · rintro (hold | ⟨hne, rfl | hmem⟩)
        · exact .inl (.inl hold)
        · exact .inl (.inr rfl)
        · exact .inr ⟨hne, hmem⟩
    · rw [if_neg hnew, List.mem_cons]
      by_cases hid : id = first
      · subst hid
        by_cases hempty : id = ""
        · simp [hempty]
        · have hold : id ∈ results := by simpa [hempty] using hnew
          simp [hold]
      · simp [hid]

theorem nodup_foldl_searchRow (start : String) (rows : List (String × String))
    {results : List String} (h : results.Nodup) :
    (rows.foldl (searchRow start) results).Nodup := by
  induction rows generalizing results with
  | nil => exact h
  | cons row rows ih =>
    refine ih ?_
    unfold searchRow
    split
    · exact nodup_foldl_pushId _ h
    · exact h

theorem mem_foldl_searchRow (start : String) (rows : List (String × String)) (id : String)
    (results : List String) : id ∈ rows.foldl (searchRow start) results ↔ id ∈ results ∨
      (id ≠ "" ∧ ∃ row ∈ rows, start.toList <+: row.1.toList ∧ id ∈ split ',' row.2) := by
  induction rows generalizing results with
  | nil => simp
  | cons row rows ih =>
    rw [List.foldl_cons, ih, searchRow]
    simp only [List.mem_cons, exists_eq_or_imp]
    by_cases hrow : start.toList <+: row.1.toList
    · rw [if_pos (List.isPrefixOf_iff_prefix.mpr hrow), mem_foldl_pushId]
      simp only [hrow, true_and]
      tauto
    · rw [if_neg (fun h => hrow (List.isPrefixOf_iff_prefix.mp h))]
      simp only [hrow, false_and, false_or]

theorem mem_searchIndex (db : Db) (schema : String) (tagKey tagValue : Option String)
    (id : String) : id ∈ searchIndex db schema tagKey tagValue ↔ id ≠ "" ∧
      ∃ key, (searchStart schema tagKey tagValue).toList <+: key.toList ∧ id ∈ idsUnder db key := by
  unfold searchIndex
  simp only [mem_foldl_searchRow, List.not_mem_nil, false_or, and_congr_right_iff]
  intro _
  constructor
  · rintro ⟨⟨key, value⟩, hrow, hstart, hid⟩
    rw [Std.ExtTreeMap.mem_toList_iff_getElem?_eq_some] at hrow
    refine ⟨key, hstart, ?_⟩
    rw [idsUnder, hrow]
    exact hid
  · rintro ⟨key, hstart, hid⟩
    unfold idsUnder at hid
    cases hrow : db.invertedIndex[key]? with
    | none => simp [hrow] at hid
    | some value =>
      rw [hrow] at hid
      exact ⟨(key, value), Std.ExtTreeMap.mem_toList_iff_getElem?_eq_some.mpr hrow, hstart, hid⟩

/-! ## What was indexed -/

structure IndexCall where
  recordId : String
  schema : String
  tags : List String

/-- The content of the index after some calls. A call that panics keeps what it has committed. -/
def indexCalls (calls : List IndexCall) (db : Db) : Db :=
  calls.foldl (fun db call => ((indexRecord call.recordId call.schema call.tags).run db).1) db

/-- One tag under which a record was indexed. -/
structure Posting where
  recordId : String
  schema : String
  tag : String

def Posting.key (p : Posting) : String := indexKey p.schema p.tag

/-- The tags of one call under which it put the id: all of them, or those before the panic. -/
def postings (recordId schema : String) : List String → Db → List Posting
  | [], _ => []
  | tag :: tags, db =>
    match indexTagTx recordId (indexKey schema tag) db with
    | (db', .ok ()) => ⟨recordId, schema, tag⟩ :: postings recordId schema tags db'
    | (_, _) => []

def allPostings : List IndexCall → Db → List Posting
  | [], _ => []
  | call :: calls, db => postings call.recordId call.schema call.tags db ++
    allPostings calls ((indexRecord call.recordId call.schema call.tags).run db).1

/-- The filter as it is meant: this schema, and the tag key and the tag value where they are
given. -/
def Posting.Matches (schema : String) (tagKey tagValue : Option String) (p : Posting) : Prop :=
  p.schema = schema ∧ (∀ tk, tagKey = some tk → (parseTag p.tag).1 = tk) ∧
    ∀ tv, tagValue = some tv → (parseTag p.tag).2 = tv

/-- A posting that the filter does not mean and the search takes. -/
def Posting.Strays (schema : String) (tagKey tagValue : Option String) (p : Posting) : Prop :=
  (searchStart schema tagKey tagValue).toList <+: p.key.toList ∧ ¬ p.Matches schema tagKey tagValue

theorem mem_split_withId {db : Db} {key recordId id : String} (hid : id ≠ "") :
    id ∈ split ',' (withId db key recordId) ↔ id ∈ split ',' recordId ∨ id ∈ idsUnder db key := by
  have hblank : id ∉ split ',' "" := by
    rw [split_eq_singleton (by simp), List.mem_singleton]
    exact hid
  unfold withId idsUnder
  cases db.invertedIndex[key]? with
  | none => simp
  | some current =>
    by_cases hempty : current = ""
    · subst hempty
      simp [hblank]
    · simp only [Option.getD_some, hempty, if_false]
      rw [show ("," : String) = String.singleton ',' from rfl, split_append, List.mem_append, or_comm]

theorem mem_idsUnder_postings (recordId schema : String) (tags : List String) (db : Db)
    {id : String} (hid : id ≠ "") (key : String) :
    id ∈ idsUnder ((indexRecord recordId schema tags).run db).1 key ↔ id ∈ idsUnder db key ∨
      ∃ p ∈ postings recordId schema tags db, p.key = key ∧ id ∈ split ',' p.recordId := by
  induction tags generalizing db with
  | nil => simp [indexRecord_run_nil, postings]
  | cons tag tags ih =>
    rw [indexRecord_run_cons]
    by_cases hlisted : recordId ∈ idsUnder db (indexKey schema tag)
    · rw [if_pos hlisted, postings, indexTagTx_listed hlisted]
      simp
    · rw [if_neg hlisted, ih, postings, indexTagTx_unlisted hlisted]
      simp only [idsUnder_insert, List.mem_cons, exists_eq_or_imp, Posting.key]
      by_cases hkey : indexKey schema tag = key
      · subst hkey
        rw [if_pos rfl, mem_split_withId hid]
        tauto
      · simp only [hkey, if_false, false_and, false_or]

theorem mem_idsUnder_indexCalls (calls : List IndexCall) (db : Db) {id : String} (hid : id ≠ "")
    (key : String) : id ∈ idsUnder (indexCalls calls db) key ↔ id ∈ idsUnder db key ∨
      ∃ p ∈ allPostings calls db, p.key = key ∧ id ∈ split ',' p.recordId := by
  induction calls generalizing db with
  | nil => simp [indexCalls, allPostings]
  | cons call calls ih =>
    rw [show indexCalls (call :: calls) db = indexCalls calls
      ((indexRecord call.recordId call.schema call.tags).run db).1 from rfl, ih,
      mem_idsUnder_postings _ _ _ _ hid, allPostings]
    simp only [List.mem_append, or_and_right, exists_or, or_assoc]

/-- A search of an index that started empty lists the pieces of the ids whose postings it takes. -/
theorem mem_searchIndex_indexCalls (calls : List IndexCall) (schema : String)
    (tagKey tagValue : Option String) (id : String) :
    id ∈ searchIndex (indexCalls calls Db.empty) schema tagKey tagValue ↔ id ≠ "" ∧
      ∃ p ∈ allPostings calls Db.empty, (searchStart schema tagKey tagValue).toList <+: p.key.toList ∧
        id ∈ split ',' p.recordId := by
  have hempty : ∀ key, id ∉ idsUnder Db.empty key := by
    intro key
    simp [idsUnder, Db.empty]
  rw [mem_searchIndex, and_congr_right_iff]
  intro hid
  simp only [mem_idsUnder_indexCalls _ _ hid, hempty, false_or]
  constructor
  · rintro ⟨_, hstart, p, hp, rfl, hpiece⟩
    exact ⟨p, hp, hstart, hpiece⟩
  · rintro ⟨p, hp, hstart, hpiece⟩
    exact ⟨p.key, hstart, p, hp, rfl, hpiece⟩

/-! ## When a search is exact -/

theorem Posting.Matches.starts {schema : String} {tagKey tagValue : Option String} {p : Posting}
    (h : p.Matches schema tagKey tagValue) :
    (searchStart schema tagKey tagValue).toList <+: p.key.toList := by
  obtain ⟨rfl, htk, htv⟩ := h
  unfold Posting.key indexKey keyOf searchStart
  cases tagKey with
  | none => cases tagValue <;> simp
  | some tk =>
    cases htk tk rfl
    cases tagValue with
    | none => simp
    | some tv =>
      cases htv tv rfl
      exact List.prefix_rfl

/-- The search lists no id twice, and the ids that were indexed as the filter says. -/
def SearchExact (calls : List IndexCall) (schema : String) (tagKey tagValue : Option String) :
    Prop :=
  (searchIndex (indexCalls calls Db.empty) schema tagKey tagValue).Nodup ∧
    ∀ id, id ∈ searchIndex (indexCalls calls Db.empty) schema tagKey tagValue ↔
      ∃ p ∈ allPostings calls Db.empty, p.Matches schema tagKey tagValue ∧ p.recordId = id

/-- A search is exact exactly if the ids that the filter means are not empty and have no comma, and
every posting that strays into it brings only ids that the filter means. -/
theorem searchExact_iff (calls : List IndexCall) (schema : String)
    (tagKey tagValue : Option String) : SearchExact calls schema tagKey tagValue ↔
      (∀ p ∈ allPostings calls Db.empty, p.Matches schema tagKey tagValue →
        p.recordId ≠ "" ∧ ',' ∉ p.recordId.toList) ∧
      ∀ p ∈ allPostings calls Db.empty, p.Strays schema tagKey tagValue →
        ∀ piece ∈ split ',' p.recordId, piece ≠ "" →
          ∃ q ∈ allPostings calls Db.empty, q.Matches schema tagKey tagValue ∧ q.recordId = piece := by
  unfold SearchExact
  simp only [mem_searchIndex_indexCalls]
  constructor
  · rintro ⟨-, hexact⟩
    constructor
    · intro p hp hmatch
      obtain ⟨hne, q, -, -, hpiece⟩ := (hexact p.recordId).mpr ⟨p, hp, hmatch, rfl⟩
      exact ⟨hne, not_mem_of_mem_split hpiece⟩
    · intro p hp hstray piece hpiece hne
      exact (hexact piece).mp ⟨hne, p, hp, hstray.1, hpiece⟩
  · rintro ⟨hids, hstrays⟩
    refine ⟨nodup_foldl_searchRow _ _ List.nodup_nil, fun id => ⟨?_, ?_⟩⟩
    · rintro ⟨hne, p, hp, hstart, hpiece⟩
      by_cases hmatch : p.Matches schema tagKey tagValue
      · rw [split_eq_singleton (hids p hp hmatch).2, List.mem_singleton] at hpiece
        exact ⟨p, hp, hmatch, hpiece.symm⟩
      · exact hstrays p hp ⟨hstart, hmatch⟩ id hpiece hne
    · rintro ⟨p, hp, hmatch, rfl⟩
      obtain ⟨hne, hcomma⟩ := hids p hp hmatch
      refine ⟨hne, p, hp, hmatch.starts, ?_⟩
      rw [split_eq_singleton hcomma]
      exact List.mem_singleton_self _

/-- The filter is for `net`, the tag is `networking`. -/
theorem searchIndex_takes_longer_values : ¬ ∀ (calls : List IndexCall) (schema : String)
    (tagKey tagValue : Option String), SearchExact calls schema tagKey tagValue := by
  intro hclaim
  have hlisted : "r1" ∈ searchIndex
      (indexCalls [⟨"r1", "wiki/article", ["category:networking"]⟩] Db.empty) "wiki/article"
      (some "category") (some "net") := by decide +kernel
  obtain ⟨-, hexact⟩ := hclaim [⟨"r1", "wiki/article", ["category:networking"]⟩] "wiki/article"
    (some "category") (some "net")
  obtain ⟨p, hp, hmatch, -⟩ := (hexact "r1").mp hlisted
  have hvalue : ∀ p ∈ allPostings [⟨"r1", "wiki/article", ["category:networking"]⟩] Db.empty,
      (parseTag p.tag).2 ≠ "net" := by decide +kernel
  exact hvalue p hp (hmatch.2.2 "net" rfl)

/-- Without NUL in the texts, what begins a key is read piece by piece. -/
theorem searchStart_prefix_iff {schema s k v : String} {tagKey tagValue : Option String}
    (hschema : '\x00' ∉ schema.toList) (htagKey : ∀ tk ∈ tagKey, '\x00' ∉ tk.toList)
    (hs : '\x00' ∉ s.toList) (hk : '\x00' ∉ k.toList) :
    (searchStart schema tagKey tagValue).toList <+: (keyOf s k v).toList ↔ schema = s ∧
      ∀ tk, tagKey = some tk → tk = k ∧ ∀ tv, tagValue = some tv → tv.toList <+: v.toList := by
  have hkeyOf : ∀ s k v : String,
      (keyOf s k v).toList = s.toList ++ '\x00' :: (k.toList ++ '\x00' :: v.toList) := by
    intro s k v
    simp [keyOf]
  cases tagKey with
  | none =>
    have hstart : (searchStart schema none tagValue).toList = schema.toList ++ '\x00' :: [] := by
      cases tagValue <;> simp [searchStart]
    rw [hkeyOf, hstart, append_sep_prefix_iff hschema hs, String.toList_inj]
    simp
  | some tk =>
    have htk := htagKey tk rfl
    cases tagValue with
    | none =>
      have hstart : (searchStart schema (some tk) none).toList =
          schema.toList ++ '\x00' :: (tk.toList ++ '\x00' :: []) := by
        simp [searchStart]
      rw [hkeyOf, hstart, append_sep_prefix_iff hschema hs, append_sep_prefix_iff htk hk,
        String.toList_inj, String.toList_inj]
      simp
    | some tv =>
      rw [searchStart, hkeyOf, hkeyOf, append_sep_prefix_iff hschema hs,
        append_sep_prefix_iff htk hk, String.toList_inj, String.toList_inj]
      simp

/-- Without NUL in the texts: a stray has another tag value than the wanted one, which goes on after
the wanted one if a tag key is given too. -/
theorem Posting.strays_iff {schema : String} {tagKey tagValue : Option String} {p : Posting}
    (hschema : '\x00' ∉ schema.toList) (htagKey : ∀ tk ∈ tagKey, '\x00' ∉ tk.toList)
    (hp : '\x00' ∉ p.schema.toList) (htag : '\x00' ∉ p.tag.toList) :
    p.Strays schema tagKey tagValue ↔ p.schema = schema ∧
      ∃ tv, tagValue = some tv ∧ (parseTag p.tag).2 ≠ tv ∧
        ∀ tk, tagKey = some tk →
          (parseTag p.tag).1 = tk ∧ tv.toList <+: (parseTag p.tag).2.toList := by
  rw [Posting.Strays, Posting.key, indexKey,
    searchStart_prefix_iff hschema htagKey hp (parseTag_not_mem htag).1, Posting.Matches]
  cases tagValue with
  | none =>
    simp only [reduceCtorEq, false_and, exists_false, and_false, false_implies, implies_true,
      and_true, iff_false]
    rintro ⟨⟨rfl, hkey⟩, hother⟩
    exact hother ⟨rfl, fun tk htk => (hkey tk htk).symm⟩
  | some tv =>
    simp only [Option.some.injEq, forall_eq', exists_eq_left']
    constructor
    · rintro ⟨⟨rfl, hkey⟩, hother⟩
      refine ⟨rfl, fun hvalue => hother ⟨rfl, fun tk htk => (hkey tk htk).1.symm, hvalue⟩, ?_⟩
      exact fun tk htk => ⟨(hkey tk htk).1.symm, (hkey tk htk).2⟩
    · rintro ⟨rfl, hvalue, hkey⟩
      refine ⟨⟨rfl, fun tk htk => ⟨(hkey tk htk).1.symm, (hkey tk htk).2⟩⟩, ?_⟩
      exact fun hmatch => hvalue hmatch.2.2

end DSearch.Index
