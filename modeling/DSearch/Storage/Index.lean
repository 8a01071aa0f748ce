import DSearch.Foundations.SeparatedText
import DSearch.Storage.Records

/-! # The inverted index of `storage/index.rs`

A row of `inverted_index` is the comma-separated list of the ids that carry one tag of one schema;
`idsUnder` is that list. `index_record` and `deindex_record` run one write transaction a tag. Indexing
an id that is already listed ends in the `unreachable!()` arm: the code signals that case by
`Some(None)` and skips on `None`. -/

namespace DSearch.Index
set_option autoImplicit false
open Transaction SeparatedText

def parseTag (tag : String) : String × String :=
  match tag.toList.dropWhile (· ≠ ':') with
  | [] => ("", tag)
  | _ :: value => (String.ofList (tag.toList.takeWhile (· ≠ ':')), String.ofList value)

example : parseTag "category:networking" = ("category", "networking") ∧
    parseTag "networking" = ("", "networking") ∧ parseTag "a:b:c" = ("a", "b:c") := by
  decide +kernel

/-- The key of a row: `schema\0tag_key\0tag_value`. -/
def keyOf (schema tagKey tagValue : String) : String :=
  schema ++ "\x00" ++ tagKey ++ "\x00" ++ tagValue

def indexKey (schema tag : String) : String := keyOf schema (parseTag tag).1 (parseTag tag).2

/-- What `index_record` reads under a key: `some none` if the id is listed there already. -/
def existingIds (db : Db) (key recordId : String) : Option (Option String) :=
  match db.invertedIndex[key]? with
  | some current =>
    if recordId ∈ split ',' current then some none else some (some current)
  | none => some (some "")

def indexTagTx (recordId key : String) (db : Db) : Db × Outcome Unit :=
  match existingIds db key recordId with
  | none => (db, .ok ())
  | some (some current) =>
    if current = "" then
      ({ db with invertedIndex := db.invertedIndex.insert key recordId }, .ok ())
    else
      ({ db with invertedIndex := db.invertedIndex.insert key (current ++ "," ++ recordId) }, .ok ())
  | some none => (db, .panic)

def indexRecord (recordId schema : String) : List String → Client Db (Outcome Unit)
  | [] => .done (.ok ())
  | tag :: tags =>
    (Client.atomically (indexTagTx recordId (indexKey schema tag)) .done).andThen fun _ =>
      indexRecord recordId schema tags

def deindexTagTx (recordId key : String) (db : Db) : Db :=
  match db.invertedIndex[key]? with
  | some current =>
    let ids := (split ',' current).filter (· ≠ recordId)
    if ids.isEmpty then { db with invertedIndex := db.invertedIndex.erase key }
    else { db with invertedIndex := db.invertedIndex.insert key (join ',' ids) }
  | none => db

def deindexRecord (recordId schema : String) : List String → Client Db (Outcome Unit)
  | [] => .done (.ok ())
  | tag :: tags =>
    .write (deindexTagTx recordId (indexKey schema tag)) (deindexRecord recordId schema tags)

/-! ## The ids under a key -/

def idsUnder (db : Db) (key : String) : List String :=
  match db.invertedIndex[key]? with
  | some current => split ',' current
  | none => []

theorem indexTagTx_listed {db : Db} {recordId key : String} (h : recordId ∈ idsUnder db key) :
    indexTagTx recordId key db = (db, .panic) := by
  unfold idsUnder at h
  unfold indexTagTx existingIds
  cases hrow : db.invertedIndex[key]? with
  | none => simp [hrow] at h
  | some current => simp_all

/-- The row of a key after `recordId` was added; a row with the value `""` counts as no row. -/
def withId (db : Db) (key recordId : String) : String :=
  let current := db.invertedIndex[key]?.getD ""
  if current = "" then recordId else current ++ "," ++ recordId

theorem indexTagTx_unlisted {db : Db} {recordId key : String} (h : recordId ∉ idsUnder db key) :
    indexTagTx recordId key db =
      ({ db with invertedIndex := db.invertedIndex.insert key (withId db key recordId) },
        .ok ()) := by
  unfold idsUnder at h
  unfold indexTagTx existingIds withId
  cases hrow : db.invertedIndex[key]? with
  | none => rfl
  | some current =>
    rw [hrow] at h
    simp only [h, if_false, Option.getD_some]
    split <;> rfl

theorem idsUnder_insert (db : Db) (key value key' : String) :
    idsUnder { db with invertedIndex := db.invertedIndex.insert key value } key' =
      if key = key' then split ',' value else idsUnder db key' := by
  unfold idsUnder
  rw [OrderedTable.get_insert]
  by_cases hkey : key = key' <;> simp [hkey]

theorem idsUnder_erase (db : Db) (key key' : String) :
    idsUnder { db with invertedIndex := db.invertedIndex.erase key } key' =
      if key = key' then [] else idsUnder db key' := by
  unfold idsUnder
  rw [OrderedTable.get_erase]
  by_cases hkey : key = key' <;> simp [hkey]

/-- Adding an id without a comma appends it to the list of a row that is not `""`. -/
theorem split_withId {db : Db} {key recordId : String} (hcomma : ',' ∉ recordId.toList) :
    split ',' (withId db key recordId) =
      (if db.invertedIndex[key]? = some "" then [] else idsUnder db key) ++ [recordId] := by
  unfold withId idsUnder
  cases hrow : db.invertedIndex[key]? with
  | none => simp [split_eq_singleton hcomma]
  | some current =>
    by_cases hempty : current = ""
    · simp [hempty, split_eq_singleton hcomma]
    · simp only [Option.getD_some, hempty, if_false, Option.some.injEq]
      rw [show ("," : String) = String.singleton ',' from rfl, split_append,
        split_eq_singleton hcomma]

theorem mem_idsUnder_indexTagTx {db : Db} {key recordId : String} (hcomma : ',' ∉ recordId.toList)
    (h : recordId ∉ idsUnder db key) (key' : String) :
    recordId ∈ idsUnder (indexTagTx recordId key db).1 key' ↔
      key = key' ∨ recordId ∈ idsUnder db key' := by
  rw [indexTagTx_unlisted h, idsUnder_insert, split_withId hcomma]
  by_cases hkey : key = key' <;> simp [hkey]

theorem not_mem_idsUnder_of_comma {db : Db} {recordId key : String} (h : ',' ∈ recordId.toList) :
    recordId ∉ idsUnder db key := by
  unfold idsUnder
  cases db.invertedIndex[key]? with
  | none => simp
  | some current => exact fun hmem => not_mem_of_mem_split hmem h

theorem idsUnder_deindexTagTx (db : Db) (recordId key key' : String) :
    idsUnder (deindexTagTx recordId key db) key' =
      if key = key' then (idsUnder db key).filter (· ≠ recordId) else idsUnder db key' := by
  unfold deindexTagTx
  cases hrow : db.invertedIndex[key]? with
  | none =>
    by_cases hkey : key = key'
    · subst hkey
      simp [idsUnder, hrow]
    · simp [hkey]
  | some current =>
    have hids : idsUnder db key = split ',' current := by simp [idsUnder, hrow]
    rw [hids]
    dsimp only
    split
    · next hempty => rw [idsUnder_erase, List.isEmpty_iff.mp hempty]
    · next hne =>
      rw [idsUnder_insert, split_join (by simpa using hne) fun piece hpiece =>
        not_mem_of_mem_split (List.mem_of_mem_filter hpiece)]

/-! ## Runs over the tags of a record -/

theorem indexRecord_run_nil (recordId schema : String) (db : Db) :
    (indexRecord recordId schema []).run db = (db, .ok ()) := rfl

theorem indexRecord_run_cons (recordId schema tag : String) (tags : List String) (db : Db) :
    (indexRecord recordId schema (tag :: tags)).run db =
      if recordId ∈ idsUnder db (indexKey schema tag) then (db, .panic)
      else (indexRecord recordId schema tags).run
        (indexTagTx recordId (indexKey schema tag) db).1 := by
  rw [indexRecord, Client.run_andThen, Client.run_atomically]
  by_cases h : recordId ∈ idsUnder db (indexKey schema tag)
  · simp only [indexTagTx_listed h, Client.run_done, if_pos h]
  · simp only [indexTagTx_unlisted h, Client.run_done, if_neg h]

/-- Indexing an id without a comma succeeds exactly if the tags have different keys and the id is
under none of them. -/
theorem indexRecord_ok_iff {recordId : String} (hcomma : ',' ∉ recordId.toList) (schema : String)
    (tags : List String) (db : Db) :
    ((indexRecord recordId schema tags).run db).2 = .ok () ↔
      (tags.map (indexKey schema)).Nodup ∧
        ∀ tag ∈ tags, recordId ∉ idsUnder db (indexKey schema tag) := by
  induction tags generalizing db with
  | nil => simp [indexRecord_run_nil]
  | cons tag tags ih =>
    rw [indexRecord_run_cons]
    split
    · next h => simp [h]
    · next h =>
      rw [ih]
      simp only [mem_idsUnder_indexTagTx hcomma h, not_or, List.map_cons, List.nodup_cons, List.mem_map, not_exists,
        not_and, List.mem_cons, forall_eq_or_imp, h, not_false_eq_true, true_and]
      constructor
      · rintro ⟨hnodup, hfresh⟩
        have hnew : ∀ t ∈ tags, ¬ indexKey schema t = indexKey schema tag := by
          intro t ht heq
          exact (hfresh t ht).1 heq.symm
        exact ⟨⟨hnew, hnodup⟩, fun t ht => (hfresh t ht).2⟩
      · rintro ⟨⟨hnew, hnodup⟩, hfresh⟩
        have hother : ∀ t ∈ tags, ¬ indexKey schema tag = indexKey schema t := by
          intro t ht heq
          exact hnew t ht heq.symm
        exact ⟨hnodup, fun t ht => ⟨hother t ht, hfresh t ht⟩⟩

theorem indexRecord_ne_err (recordId schema : String) (tags : List String) (db : Db) (e : String) :
    ((indexRecord recordId schema tags).run db).2 ≠ .err e := by
  induction tags generalizing db with
  | nil => simp [indexRecord_run_nil]
  | cons tag tags ih =>
    rw [indexRecord_run_cons]
    split
    · simp
    · exact ih _

def OnlyIndexChanged (db db' : Db) : Prop := { db' with invertedIndex := db.invertedIndex } = db

theorem OnlyIndexChanged.records {db db' : Db} (h : OnlyIndexChanged db db') :
    db'.records = db.records := by
  unfold OnlyIndexChanged at h
  rw [← h]

theorem OnlyIndexChanged.trans {s t u : Db} (hst : OnlyIndexChanged s t)
    (htu : OnlyIndexChanged t u) : OnlyIndexChanged s u := by
  unfold OnlyIndexChanged at hst htu ⊢
  rw [← hst, ← htu]

theorem indexTagTx_onlyIndexChanged (recordId key : String) (db : Db) :
    OnlyIndexChanged db (indexTagTx recordId key db).1 := by
  by_cases h : recordId ∈ idsUnder db key
  · rw [indexTagTx_listed h]; rfl
  · rw [indexTagTx_unlisted h]; rfl

theorem indexRecord_guarantees {R : Db → Db → Prop} {recordId : String}
    (htag : ∀ key db, R db (indexTagTx recordId key db).1) (schema : String) (tags : List String) :
    (indexRecord recordId schema tags).Guarantees R := by
  induction tags with
  | nil => exact .done _
  | cons tag tags ih =>
    refine Client.Within.andThen ?_ fun _ => ih
    exact Client.Within.atomically (fun db _ => htag (indexKey schema tag) db) fun _ => .done _

theorem indexRecord_onlyIndexChanged (recordId schema : String) (tags : List String) (db : Db) :
    OnlyIndexChanged db ((indexRecord recordId schema tags).run db).1 :=
  (indexRecord_guarantees (indexTagTx_onlyIndexChanged recordId) schema tags).run (fun _ => rfl)
    (fun _ _ _ => .trans) db

/-- A successful run appends the id to the list of each of its keys. -/
theorem indexRecord_idsUnder {recordId schema : String} (hcomma : ',' ∉ recordId.toList)
    {tags : List String} {db : Db} (hok : ((indexRecord recordId schema tags).run db).2 = .ok ())
    (hrows : ∀ tag ∈ tags, db.invertedIndex[indexKey schema tag]? ≠ some "") (key : String) :
    idsUnder ((indexRecord recordId schema tags).run db).1 key =
      if key ∈ tags.map (indexKey schema) then idsUnder db key ++ [recordId]
      else idsUnder db key := by
  induction tags generalizing db with
  | nil => simp [indexRecord_run_nil]
  | cons tag tags ih =>
    obtain ⟨hnodup, hfresh⟩ := (indexRecord_ok_iff hcomma schema _ db).mp hok
    have hfirst := hfresh tag List.mem_cons_self
    obtain ⟨hnew, -⟩ := List.nodup_cons.mp hnodup
    rw [indexRecord_run_cons, if_neg hfirst] at hok ⊢
    rw [ih hok]
    · rw [indexTagTx_unlisted hfirst, idsUnder_insert, split_withId hcomma,
        if_neg (hrows tag List.mem_cons_self)]
      by_cases hkey : indexKey schema tag = key
      · subst hkey
        simp [hnew]
      · simp [hkey, Ne.symm hkey]
    · intro tag' htag'
      have hne : indexKey schema tag ≠ indexKey schema tag' := fun heq =>
        hnew (heq ▸ List.mem_map_of_mem htag')
      rw [indexTagTx_unlisted hfirst, OrderedTable.get_insert, if_neg hne]
      exact hrows tag' (List.mem_cons_of_mem tag htag')

theorem listed_indexRecord {recordId schema tag : String} {tags : List String} {db : Db}
    (hcomma : ',' ∉ recordId.toList)
    (hok : ((indexRecord recordId schema (tag :: tags)).run db).2 = .ok ()) :
    recordId ∈ idsUnder ((indexRecord recordId schema (tag :: tags)).run db).1
      (indexKey schema tag) := by
  -- once listed, an id stays listed
  have hkept : (indexRecord recordId schema tags).Guarantees fun db db' =>
      recordId ∈ idsUnder db (indexKey schema tag) →
        recordId ∈ idsUnder db' (indexKey schema tag) := by
    refine indexRecord_guarantees (fun key db hlisted => ?_) schema tags
    by_cases hother : recordId ∈ idsUnder db key
    · rw [indexTagTx_listed hother]
      exact hlisted
    · exact (mem_idsUnder_indexTagTx hcomma hother _).mpr (.inr hlisted)
  have hfirst := ((indexRecord_ok_iff hcomma schema _ db).mp hok).2 tag List.mem_cons_self
  rw [indexRecord_run_cons, if_neg hfirst]
  refine hkept.run (fun _ h => h) (fun _ _ _ hst htu hs => htu (hst hs)) _ ?_
  exact (mem_idsUnder_indexTagTx hcomma hfirst _).mpr (.inl rfl)

theorem deindexTagTx_onlyIndexChanged (recordId key : String) (db : Db) :
    OnlyIndexChanged db (deindexTagTx recordId key db) := by
  unfold deindexTagTx
  cases db.invertedIndex[key]? with
  | none => rfl
  | some current =>
    dsimp only
    split <;> rfl

theorem deindexRecord_onlyIndexChanged (recordId schema : String) (tags : List String) (db : Db) :
    OnlyIndexChanged db ((deindexRecord recordId schema tags).run db).1 := by
  induction tags generalizing db with
  | nil => rfl
  | cons tag tags ih =>
    rw [deindexRecord, Client.run_write]
    exact OnlyIndexChanged.trans (deindexTagTx_onlyIndexChanged recordId (indexKey schema tag) db) (ih _)

theorem deindexRecord_ok (recordId schema : String) (tags : List String) (db : Db) :
    ((deindexRecord recordId schema tags).run db).2 = .ok () := by
  induction tags generalizing db with
  | nil => rfl
  | cons tag tags ih => exact ih _

theorem deindexRecord_idsUnder (recordId schema : String) (tags : List String) (db : Db)
    (key : String) : idsUnder ((deindexRecord recordId schema tags).run db).1 key =
      if key ∈ tags.map (indexKey schema) then (idsUnder db key).filter (· ≠ recordId)
      else idsUnder db key := by
  induction tags generalizing db with
  | nil => rfl
  | cons tag tags ih =>
    rw [deindexRecord, Client.run_write, ih, idsUnder_deindexTagTx]
    by_cases hkey : indexKey schema tag = key
    · subst hkey
      simp
    · simp [hkey, Ne.symm hkey]

/-! ## Keys -/

theorem split_keyOf (schema tagKey tagValue : String) :
    split '\x00' (keyOf schema tagKey tagValue) =
      split '\x00' schema ++ split '\x00' tagKey ++ split '\x00' tagValue := by
  rw [keyOf, show ("\x00" : String) = String.singleton '\x00' from rfl, split_append, split_append]

/-- A key of three parts without NUL is the key of no other three parts. -/
theorem keyOf_inj {schema tagKey tagValue s k v : String} (hschema : '\x00' ∉ schema.toList)
    (hkey : '\x00' ∉ tagKey.toList) (hvalue : '\x00' ∉ tagValue.toList)
    (h : keyOf s k v = keyOf schema tagKey tagValue) :
    s = schema ∧ k = tagKey ∧ v = tagValue := by
  have hsplit := congrArg (split '\x00') h
  rw [split_keyOf, split_keyOf, split_eq_singleton hschema, split_eq_singleton hkey,
    split_eq_singleton hvalue] at hsplit
  -- three pieces in all, and each part gives at least one
  obtain ⟨a, as, ha⟩ := List.exists_cons_of_ne_nil (split_ne_nil '\x00' s)
  obtain ⟨b, bs, hb⟩ := List.exists_cons_of_ne_nil (split_ne_nil '\x00' k)
  obtain ⟨c, cs, hc⟩ := List.exists_cons_of_ne_nil (split_ne_nil '\x00' v)
  have hlen := congrArg List.length hsplit
  simp only [ha, hb, hc, List.length_append, List.length_cons, List.length_nil] at hlen
  obtain rfl : as = [] := List.eq_nil_of_length_eq_zero (by omega)
  obtain rfl : bs = [] := List.eq_nil_of_length_eq_zero (by omega)
  obtain rfl : cs = [] := List.eq_nil_of_length_eq_zero (by omega)
  rw [ha, hb, hc] at hsplit
  simp only [List.cons_append, List.nil_append, List.cons.injEq, and_true] at hsplit
  obtain ⟨rfl, rfl, rfl⟩ := hsplit
  rw [← split_eq_singleton hschema] at ha
  rw [← split_eq_singleton hkey] at hb
  rw [← split_eq_singleton hvalue] at hc
  exact ⟨split_injective ha, split_injective hb, split_injective hc⟩

theorem parseTag_not_mem {tag : String} {c : Char} (h : c ∉ tag.toList) :
    c ∉ (parseTag tag).1.toList ∧ c ∉ (parseTag tag).2.toList := by
  unfold parseTag
  split
  · exact ⟨by simp, h⟩
  · next first value hdrop =>
    rw [String.toList_ofList, String.toList_ofList]
    constructor
    · intro hmem
      exact h ((List.takeWhile_sublist _).subset hmem)
    · intro hmem
      have hdropped : c ∈ tag.toList.dropWhile (· ≠ ':') := by
        rw [hdrop]
        exact List.mem_cons_of_mem first hmem
      exact h ((List.dropWhile_sublist _).subset hdropped)

/-- If a record's schema and tags have no NUL, the keys of its tags are its keys only. -/
theorem mem_keys_iff {schema s k v : String} {tags : List String} (hschema : '\x00' ∉ schema.toList)
    (htags : ∀ tag ∈ tags, '\x00' ∉ tag.toList) :
    keyOf s k v ∈ tags.map (indexKey schema) ↔ schema = s ∧ ∃ tag ∈ tags, parseTag tag = (k, v) := by
  constructor
  · intro hmem
    obtain ⟨tag, htag, hkey⟩ := List.mem_map.mp hmem
    obtain ⟨hk, hv⟩ := parseTag_not_mem (htags tag htag)
    obtain ⟨rfl, rfl, rfl⟩ := keyOf_inj hschema hk hv hkey.symm
    exact ⟨rfl, tag, htag, rfl⟩
  · rintro ⟨rfl, tag, htag, hparse⟩
    refine List.mem_map.mpr ⟨tag, htag, ?_⟩
    rw [indexKey, hparse]

/-! ## Indexing twice -/

def rowLength (db : Db) (key : String) : ℕ := (db.invertedIndex[key]?.getD "").length

theorem rowLength_indexTagTx (recordId key key' : String) (db : Db) :
    rowLength db key' ≤ rowLength (indexTagTx recordId key db).1 key' := by
  by_cases h : recordId ∈ idsUnder db key
  · rw [indexTagTx_listed h]
  · rw [indexTagTx_unlisted h]
    unfold rowLength
    rw [OrderedTable.get_insert]
    by_cases hkey : key = key'
    · subst hkey
      rw [if_pos rfl, Option.getD_some, withId]
      split
      · next hempty => simp [hempty]
      · simp only [String.length_append]; omega
    · rw [if_neg hkey]

theorem rowLength_indexRecord (recordId schema : String) (tags : List String) (db : Db)
    (key : String) :
    rowLength db key ≤ rowLength ((indexRecord recordId schema tags).run db).1 key := by
  have hgrows : (indexRecord recordId schema tags).Guarantees fun db db' =>
      rowLength db key ≤ rowLength db' key :=
    indexRecord_guarantees (fun tagKey db => rowLength_indexTagTx recordId tagKey key db) schema tags
  exact hgrows.run (fun _ => le_refl _) (fun _ _ _ => le_trans) db

theorem rowLength_first_lt {recordId schema tag : String} {tags : List String} {db : Db}
    (hid : recordId ≠ "") (hfirst : recordId ∉ idsUnder db (indexKey schema tag)) :
    rowLength db (indexKey schema tag) <
      rowLength ((indexRecord recordId schema (tag :: tags)).run db).1 (indexKey schema tag) := by
  rw [indexRecord_run_cons, if_neg hfirst]
  refine lt_of_lt_of_le ?_ (rowLength_indexRecord recordId schema tags _ _)
  have hlen : 0 < recordId.length := by
    rw [Nat.pos_iff_ne_zero, ne_eq, String.length_eq_zero_iff]
    exact hid
  rw [indexTagTx_unlisted hfirst]
  unfold rowLength
  rw [OrderedTable.get_insert, if_pos rfl, Option.getD_some, withId]
  split
  · next hempty => simpa [hempty] using hlen
  · simp only [String.length_append]; omega

/-- Indexing succeeds, and indexing again changes nothing. -/
def IndexesOnce (db : Db) (recordId schema : String) (tags : List String) : Prop :=
  ∃ db', (indexRecord recordId schema tags).run db = (db', .ok ()) ∧
    ((indexRecord recordId schema tags).run db').1.invertedIndex = db'.invertedIndex

theorem indexesOnce_iff (db : Db) (recordId schema : String) (tags : List String) :
    IndexesOnce db recordId schema tags ↔
      tags = [] ∨ (',' ∉ recordId.toList ∧ (tags.map (indexKey schema)).Nodup ∧
        ∀ tag ∈ tags, recordId ∉ idsUnder db (indexKey schema tag)) := by
  cases tags with
  | nil => exact iff_of_true ⟨db, rfl, rfl⟩ (.inl rfl)
  | cons tag tags =>
    simp only [reduceCtorEq, false_or]
    by_cases hcomma : ',' ∈ recordId.toList
    · -- an id with a comma is appended again and again
      refine iff_of_false ?_ fun h => h.1 hcomma
      rintro ⟨db', -, hsame⟩
      have hid : recordId ≠ "" := by
        rintro rfl
        simp at hcomma
      have hlt : rowLength db' (indexKey schema tag) <
          rowLength ((indexRecord recordId schema (tag :: tags)).run db').1 (indexKey schema tag) :=
        rowLength_first_lt hid (not_mem_idsUnder_of_comma hcomma)
      rw [rowLength, rowLength, hsame] at hlt
      exact lt_irrefl _ hlt
    · have hok := indexRecord_ok_iff hcomma schema (tag :: tags) db
      constructor
      · rintro ⟨db', hrun, -⟩
        exact ⟨hcomma, hok.mp (by rw [hrun])⟩
      · rintro ⟨-, hfresh⟩
        refine ⟨_, Client.run_eq (hok.mpr hfresh), ?_⟩
        -- the second run stops at the first tag
        have hlisted := listed_indexRecord hcomma (hok.mpr hfresh)
        rw [indexRecord_run_cons, if_pos hlisted]

end DSearch.Index
