import DSearch.Storage.Store

/-! # The inverted index over runs of the store

`Store::delete_record` de-indexes what it deletes. The other calls that take a record out of the
table (an insert that replaces or overwrites it, a sweep, an eviction) leave its id in the index. -/

namespace DSearch
set_option autoImplicit false
open Transaction Index

/-- After any run of the store's calls, indexing succeeds and is idempotent exactly if there is
nothing to index, or the id has no comma, the tags have different keys and the id is under none of
them. -/
theorem exec_indexesOnce {ed : Ed25519} (store : Store ed) (ops : List StoreOp)
    (recordId schema : String) (tags : List String) :
    IndexesOnce (StoreOp.exec store ops Db.empty) recordId schema tags ↔
      tags = [] ∨ (',' ∉ recordId.toList ∧ (tags.map (indexKey schema)).Nodup ∧
        ∀ tag ∈ tags, recordId ∉ idsUnder (StoreOp.exec store ops Db.empty) (indexKey schema tag)) :=
  indexesOnce_iff _ _ _ _

theorem indexRecord_panics_on_listed :
    ¬ ∀ (ed : Ed25519) (store : Store ed) (ops : List StoreOp) (recordId schema : String)
      (tags : List String), IndexesOnce (StoreOp.exec store ops Db.empty) recordId schema tags := by
  intro hclaim
  obtain ⟨db', hrun, -⟩ := hclaim .checksum plainStore [.insert (makeRecord "r1" "sh1" 1000 5000)]
    "r1" "wiki/article" ["test"]
  have hout : ((indexRecord "r1" "wiki/article" ["test"]).run (StoreOp.exec plainStore
      [.insert (makeRecord "r1" "sh1" 1000 5000)] Db.empty)).2 = .ok () := congrArg Prod.snd hrun
  revert hout
  decide +kernel

/-! ## Exactness -/

/-- A record is stored under `id` that has this schema and a tag that parses to this key and
value. -/
def Carries (db : Db) (schema tagKey tagValue id : String) : Prop :=
  ∃ record : ContentRecord, db.records[id]? = some record ∧ record.schema = schema ∧
    ∃ tag ∈ record.tags, parseTag tag = (tagKey, tagValue)

/-- Every list of the index has exactly the ids of the records that carry its tag, each once. -/
def IndexExact (db : Db) : Prop :=
  ∀ schema tagKey tagValue : String, (idsUnder db (keyOf schema tagKey tagValue)).Nodup ∧
    ∀ id, id ∈ idsUnder db (keyOf schema tagKey tagValue) ↔ Carries db schema tagKey tagValue id

def KeyedById (db : Db) : Prop :=
  ∀ (key : String) (record : ContentRecord), db.records[key]? = some record → record.id = key

/-- The calls that keep the index exact: an insert writes a record whose id fits a comma-separated
list, whose tags fit a NUL-separated key and whose lists are not the text `""`, and no call but a
delete takes a record with tags out of the table. -/
def IndexSafe {ed : Ed25519} (store : Store ed) (db : Db) : StoreOp → Prop
  | .insert record => ¬ store.Refuses db record → ¬ Store.Skips db record →
    (record.tags ≠ [] → ',' ∉ record.id.toList ∧ '\x00' ∉ record.schema.toList) ∧
    (∀ tag ∈ record.tags, '\x00' ∉ tag.toList ∧
      db.invertedIndex[indexKey record.schema tag]? ≠ some "") ∧
    ∀ (id : String) (old : ContentRecord), db.records[id]? = some old →
      Store.Displaces db record id → old.tags = []
  | .sweep now => ∀ (id : String) (record : ContentRecord), db.records[id]? = some record →
    Records.Expired db now id → record.tags = []
  | .evict needed => ∀ (id : String) (record : ContentRecord), db.records[id]? = some record →
    Quota.Evictable db needed id → record.tags = []
  | _ => True

theorem Carries.congr {db db' : Db} (h : db'.records = db.records) (s k v id : String) :
    Carries db' s k v id ↔ Carries db s k v id := by
  rw [Carries, h, Carries]

namespace IndexExact
variable {db : Db}

theorem empty : IndexExact Db.empty := by
  intro s k v
  simp [idsUnder, Carries, Db.empty]

theorem rows_removed (h : IndexExact db) {db' : Db} (hindex : db'.invertedIndex = db.invertedIndex)
    (hsub : ∀ (id : String) (record : ContentRecord), db'.records[id]? = some record →
      db.records[id]? = some record)
    (htags : ∀ (id : String) (record : ContentRecord), db.records[id]? = some record →
      db'.records[id]? = some record ∨ record.tags = []) : IndexExact db' := by
  intro s k v
  have hids : idsUnder db' (keyOf s k v) = idsUnder db (keyOf s k v) := by
    rw [idsUnder, hindex, idsUnder]
  rw [hids]
  refine ⟨(h s k v).1, fun id => ((h s k v).2 id).trans ⟨?_, ?_⟩⟩
  · rintro ⟨record, hrecord, hschema, tag, htag, hparse⟩
    rcases htags id record hrecord with hkept | hnone
    · exact ⟨record, hkept, hschema, tag, htag, hparse⟩
    · rw [hnone] at htag
      cases htag
  · rintro ⟨record, hrecord, hrest⟩
    exact ⟨record, hsub id record hrecord, hrest⟩

theorem removeRows (h : IndexExact db) {rows : List (String × String)}
    (htags : ∀ (id : String) (record : ContentRecord), db.records[id]? = some record →
      id ∈ rows.map Prod.fst → record.tags = []) : IndexExact (Records.removeRows rows db) := by
  refine h.rows_removed (Records.removeRows_invertedIndex rows db)
    (fun id record hrecord => (Records.removeRows_records_eq_some.mp hrecord).2)
    fun id record hrecord => ?_
  by_cases hgone : id ∈ rows.map Prod.fst
  · exact .inr (htags id record hrecord hgone)
  · exact .inl (Records.removeRows_records_eq_some.mpr ⟨hgone, hrecord⟩)

theorem deleted (h : IndexExact db) {record : ContentRecord}
    (hrecord : db.records[record.id]? = some record) :
    IndexExact ((deindexRecord record.id record.schema record.tags).run
      (Records.deleteRecordTx record.id record.sourceHash db)).1 := by
  intro s k v
  have hkept := (deindexRecord_onlyIndexChanged record.id record.schema record.tags
    (Records.deleteRecordTx record.id record.sourceHash db)).records
  have hids : ∀ key, idsUnder (Records.deleteRecordTx record.id record.sourceHash db) key =
      idsUnder db key := fun _ => rfl
  have hcarries : ∀ id, Carries (Records.deleteRecordTx record.id record.sourceHash db) s k v id ↔
      record.id ≠ id ∧ Carries db s k v id := by
    intro id
    unfold Carries
    simp only [Records.deleteRecordTx, Records.removeRow_records]
    by_cases hid : record.id = id <;> simp [hid]
  obtain ⟨hnodup, hmem⟩ := h s k v
  rw [deindexRecord_idsUnder, hids]
  simp only [Carries.congr hkept, hcarries, ← hmem]
  split
  · refine ⟨hnodup.filter _, fun id => ?_⟩
    rw [List.mem_filter, decide_eq_true_eq, and_comm, ne_comm]
  · next hkey =>
    -- a record listed under this key has the key among its own
    have hother : record.id ∉ idsUnder db (keyOf s k v) := by
      intro hlisted
      obtain ⟨stored, hstored, rfl, tag, htag, hparse⟩ := (hmem _).mp hlisted
      obtain rfl := Option.some.inj (hrecord.symm.trans hstored)
      apply hkey
      apply List.mem_map.mpr
      exact ⟨tag, htag, by rw [indexKey, hparse]⟩
    refine ⟨hnodup, fun id => ⟨fun hlisted => ⟨?_, hlisted⟩, And.right⟩⟩
    rintro rfl
    exact hother hlisted

/-- A written record brings its own tags, and takes none away if what it displaces has none. -/
theorem carries_written {ed : Ed25519} {store : Store ed} {record : ContentRecord} {db₁ : Db}
    {s k v : String} (hwritten : store.Written db record db₁)
    (hdisplaced : ∀ (id : String) (old : ContentRecord), db.records[id]? = some old →
      Store.Displaces db record id → old.tags = []) (id : String) :
    Carries db₁ s k v id ↔
      (id = record.id ∧ record.schema = s ∧ ∃ tag ∈ record.tags, parseTag tag = (k, v)) ∨
        Carries db s k v id := by
  constructor
  · rintro ⟨r, hr, hschema, htag⟩
    by_cases hid : id = record.id
    · rw [hid, hwritten.stored] at hr
      obtain rfl := Option.some.inj hr
      rw [store.signed_schema] at hschema
      rw [store.signed_tags] at htag
      exact .inl ⟨hid, hschema, htag⟩
    · rw [hwritten.others id hid] at hr
      split at hr
      · cases hr
      · exact .inr ⟨r, hr, hschema, htag⟩
  · rintro (⟨rfl, hschema, htag⟩ | ⟨old, hold, hschema, tag, htag, hparse⟩)
    · refine ⟨_, hwritten.stored, ?_, ?_⟩
      · rw [store.signed_schema]
        exact hschema
      · rw [store.signed_tags]
        exact htag
    · have hstays : ¬ Store.Displaces db record id := by
        intro hgone
        rw [hdisplaced id old hold hgone] at htag
        cases htag
      refine ⟨old, ?_, hschema, tag, htag, hparse⟩
      rw [hwritten.others id fun hid => hstays (.inl hid), if_neg hstays]
      exact hold

theorem written {ed : Ed25519} {store : Store ed} (h : IndexExact db) {record : ContentRecord}
    {db₁ : Db} (hwritten : store.Written db record db₁)
    (hfits : record.tags ≠ [] → ',' ∉ record.id.toList ∧ '\x00' ∉ record.schema.toList)
    (htags : ∀ tag ∈ record.tags, '\x00' ∉ tag.toList ∧
      db.invertedIndex[indexKey record.schema tag]? ≠ some "")
    (hdisplaced : ∀ (id : String) (old : ContentRecord), db.records[id]? = some old →
      Store.Displaces db record id → old.tags = [])
    (hok : ((indexRecord record.id record.schema record.tags).run db₁).2 = .ok ()) :
    IndexExact ((indexRecord record.id record.schema record.tags).run db₁).1 := by
  intro s k v
  have hkept := (indexRecord_onlyIndexChanged record.id record.schema record.tags db₁).records
  have hids : ∀ key, idsUnder db₁ key = idsUnder db key := by
    intro key
    rw [idsUnder, hwritten.invertedIndex, idsUnder]
  have hcarries := carries_written (s := s) (k := k) (v := v) hwritten hdisplaced
  obtain ⟨hnodup, hmem⟩ := h s k v
  simp only [Carries.congr hkept, hcarries, ← hmem]
  by_cases hnone : record.tags = []
  · simp [hnone, indexRecord_run_nil, hids, hnodup]
  · obtain ⟨hcomma, hschema⟩ := hfits hnone
    obtain ⟨-, hfresh⟩ := (indexRecord_ok_iff hcomma _ _ _).mp hok
    have hrows : ∀ tag ∈ record.tags, db₁.invertedIndex[indexKey record.schema tag]? ≠ some "" := by
      intro tag htag
      rw [hwritten.invertedIndex]
      exact (htags tag htag).2
    have hkeys := mem_keys_iff (s := s) (k := k) (v := v) hschema fun tag htag => (htags tag htag).1
    rw [indexRecord_idsUnder hcomma hok hrows, hids, ← hkeys]
    split
    · next hkey =>
      obtain ⟨tag, htag, heq⟩ := List.mem_map.mp hkey
      have hunlisted := hfresh tag htag
      rw [heq, hids] at hunlisted
      have happended : (idsUnder db (keyOf s k v) ++ [record.id]).Nodup := by
        apply List.nodup_append.mpr
        refine ⟨hnodup, List.nodup_singleton _, ?_⟩
        rintro id hid _ hlast rfl
        exact hunlisted (List.mem_singleton.mp hlast ▸ hid)
      refine ⟨happended, fun id => ?_⟩
      simp [hkey, or_comm]
    · next hkey =>
      refine ⟨hnodup, fun id => ?_⟩
      simp [hkey]

end IndexExact

namespace KeyedById

theorem of_subset {db db' : Db} (h : KeyedById db)
    (hsub : ∀ (key : String) (record : ContentRecord), db'.records[key]? = some record →
      db.records[key]? = some record) : KeyedById db' :=
  fun key record hrecord => h key record (hsub key record hrecord)

theorem removeRows {db : Db} (h : KeyedById db) (rows : List (String × String)) :
    KeyedById (Records.removeRows rows db) :=
  h.of_subset fun _ _ hrecord => (Records.removeRows_records_eq_some.mp hrecord).2

theorem run {ed : Ed25519} {store : Store ed} {db : Db} (h : KeyedById db) (op : StoreOp) :
    KeyedById (op.run store db).1 := by
  cases op with
  | insert record =>
    rw [StoreOp.run_insert]
    obtain ⟨-, _, heq⟩ | ⟨-, -, heq⟩ | ⟨-, -, db₁, _, hwritten, -, -, heq⟩ :=
      store.insertRecord_cases record db
    · rw [heq]
      exact h
    · rw [heq]
      exact h
    · rw [heq]
      intro key r hr
      rw [(indexRecord_onlyIndexChanged _ _ _ _).records] at hr
      by_cases hkey : key = record.id
      · rw [hkey, hwritten.stored] at hr
        obtain rfl := Option.some.inj hr
        rw [store.signed_id, hkey]
      · rw [hwritten.others key hkey] at hr
        split at hr
        · cases hr
        · exact h key r hr
  | delete id =>
    rw [StoreOp.run_delete, Store.deleteRecord_run]
    cases hrow : db.records[id]? with
    | none => exact h
    | some record =>
      refine h.of_subset fun key r hr => ?_
      dsimp only at hr
      rw [(deindexRecord_onlyIndexChanged _ _ _ _).records] at hr
      exact (OrderedTable.get_erase_eq_some.mp hr).2
  | pin id now =>
    rw [StoreOp.run_pin]
    split <;> exact h
  | unpin id => exact h
  | sweep now =>
    rw [StoreOp.run_sweep]
    exact h.removeRows _
  | evict needed =>
    rw [StoreOp.run_evict]
    exact h.removeRows _

end KeyedById

theorem IndexExact.run {ed : Ed25519} {store : Store ed} {db : Db} (h : IndexExact db)
    (hkeyed : KeyedById db) {op : StoreOp} {reply : Reply} (hok : (op.run store db).2 = .ok reply)
    (hsafe : IndexSafe store db op) : IndexExact (op.run store db).1 := by
  cases op with
  | insert record =>
    rw [StoreOp.run_insert] at hok ⊢
    obtain ⟨-, _, heq⟩ | ⟨-, -, heq⟩ |
      ⟨hnotRefused, hnotSkipped, db₁, _, hwritten, -, -, heq⟩ := store.insertRecord_cases record db
    · rw [heq]
      exact h
    · rw [heq]
      exact h
    · obtain ⟨hfits, htags, hdisplaced⟩ := hsafe hnotRefused hnotSkipped
      rw [heq] at hok ⊢
      refine h.written hwritten hfits htags hdisplaced ?_
      cases hout : ((indexRecord record.id record.schema record.tags).run db₁).2 with
      | ok _ => rfl
      | err e => simp [hout, Outcome.map] at hok
      | panic => simp [hout, Outcome.map] at hok
  | delete id =>
    rw [StoreOp.run_delete, Store.deleteRecord_run]
    cases hrow : db.records[id]? with
    | none => exact h
    | some record =>
      obtain rfl := hkeyed id record hrow
      exact h.deleted hrow
  | pin id now =>
    rw [StoreOp.run_pin]
    split <;> exact h
  | unpin id => exact h
  | sweep now =>
    rw [StoreOp.run_sweep]
    exact h.removeRows fun id record hrecord hgone =>
      hsafe id record hrecord (Records.mem_expiredRows_ids.mp hgone)
  | evict needed =>
    rw [StoreOp.run_evict]
    exact h.removeRows fun id record hrecord hgone =>
      hsafe id record hrecord (Quota.mem_victims_ids.mp hgone)

theorem IndexExact.exec {ed : Ed25519} {store : Store ed} {ops : List StoreOp} {db : Db}
    (h : IndexExact db) (hkeyed : KeyedById db)
    (hreturns : StoreOp.Along store (StoreOp.Returns store) ops db)
    (hsafe : StoreOp.Along store (IndexSafe store) ops db) {pre : List StoreOp} (hpre : pre <+: ops) :
    IndexExact (StoreOp.exec store pre db) := by
  induction ops generalizing db pre with
  | nil =>
    rw [List.prefix_nil.mp hpre]
    exact h
  | cons op ops ih =>
    obtain ⟨⟨reply, hok⟩, hreturns⟩ := hreturns
    obtain ⟨hop, hsafe⟩ := hsafe
    cases pre with
    | nil => exact h
    | cons op' pre =>
      obtain ⟨rfl, hrest⟩ := List.cons_prefix_cons.mp hpre
      exact ih (h.run hkeyed hok hop) (hkeyed.run op') hreturns hsafe hrest

/-- The index is exact after every call of a run in which each call returns and is safe. -/
theorem exec_indexExact {ed : Ed25519} (store : Store ed) (ops : List StoreOp)
    (hreturns : StoreOp.Along store (StoreOp.Returns store) ops Db.empty)
    (hsafe : StoreOp.Along store (IndexSafe store) ops Db.empty) :
    ∀ pre, pre <+: ops → IndexExact (StoreOp.exec store pre Db.empty) := by
  intro pre hpre
  have hkeyed : KeyedById Db.empty := by
    intro key record hrecord
    simp [Db.empty] at hrecord
  exact IndexExact.empty.exec hkeyed hreturns hsafe hpre

def taggedThenDeleted : List StoreOp := [.insert (makeRecord "r1" "sh1" 1000 1500), .delete "r1"]

theorem exec_indexExact_taggedThenDeleted :
    IndexExact (StoreOp.exec plainStore taggedThenDeleted Db.empty) := by
  have hreturns : StoreOp.Along plainStore (StoreOp.Returns plainStore) taggedThenDeleted Db.empty :=
    ⟨⟨.inserted .inserted, by decide +kernel⟩, ⟨.flag true, by decide +kernel⟩, trivial⟩
  have hsafe : StoreOp.Along plainStore (IndexSafe plainStore) taggedThenDeleted Db.empty := by
    refine ⟨fun _ _ => ⟨fun _ => ⟨by decide +kernel, by decide +kernel⟩, ?_, ?_⟩, trivial, trivial⟩
    · intro tag htag
      obtain rfl : tag = "test" := List.mem_singleton.mp htag
      exact ⟨by decide +kernel, by simp [Db.empty]⟩
    · intro id old hold
      simp [Db.empty] at hold
  exact exec_indexExact plainStore taggedThenDeleted hreturns hsafe _ (List.prefix_refl _)

def taggedThenSwept : List StoreOp := [.insert (makeRecord "r1" "sh1" 1000 1500), .sweep 2000]

/-- The sweep leaves the id in the index. -/
theorem swept_record_stays_indexed :
    ¬ ∀ (ed : Ed25519) (store : Store ed) (ops : List StoreOp),
      StoreOp.Along store (StoreOp.Returns store) ops Db.empty →
        ∀ pre, pre <+: ops → IndexExact (StoreOp.exec store pre Db.empty) := by
  intro hclaim
  have hexact := hclaim .checksum plainStore taggedThenSwept
    ⟨⟨.inserted .inserted, by decide +kernel⟩, ⟨.count 1, by decide +kernel⟩, trivial⟩
    _ (List.prefix_refl _) "wiki/article" "" "test"
  have hlisted : "r1" ∈ idsUnder (StoreOp.exec plainStore taggedThenSwept Db.empty)
      (keyOf "wiki/article" "" "test") := by decide +kernel
  obtain ⟨record, hrecord, -⟩ := (hexact.2 "r1").mp hlisted
  have hgone : (StoreOp.exec plainStore taggedThenSwept Db.empty).records["r1"]? = none := by
    decide +kernel
  rw [hgone] at hrecord
  cases hrecord

end DSearch
