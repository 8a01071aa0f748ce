import DSearch.Storage.SourceIndex

/-! # What a sweep of `delete_expired_records` leaves

The sweep collects in one transaction and removes in a second one. Alone, on a store whose
`source_index` names every stored record, it is told by `Expired`: exactly these records go, each with
its `source_index` entry, and nothing else changes. So a sweep that is repeated, or that comes before
a later one, makes no difference. -/

namespace DSearch
set_option autoImplicit false
open Transaction Records

/-- `db'` is `db` without the records that have expired at `now` and their `source_index` entries. -/
structure Swept (now : ℕ) (db db' : Db) : Prop where
  records : ∀ (key : String) (record : ContentRecord), db'.records[key]? = some record ↔
    db.records[key]? = some record ∧ ¬ Expired db now key
  pins : db'.pins = db.pins
  keptEntries : ∀ (key : String) (record : ContentRecord), db'.records[key]? = some record →
    db'.sourceIndex[record.sourceHash]? = some record.id
  removedEntries : ∀ (key : String) (record : ContentRecord), db.records[key]? = some record →
    Expired db now key → db'.sourceIndex[record.sourceHash]? = none
  otherEntries : ∀ (hash : String),
    (∀ (key : String) (record : ContentRecord), db.records[key]? = some record → Expired db now key →
      record.sourceHash ≠ hash) → db'.sourceIndex[hash]? = db.sourceIndex[hash]?
  announcements : db'.announcements = db.announcements
  invertedIndex : db'.invertedIndex = db.invertedIndex

theorem Db.eq_of_tables {db db' : Db} (hrecords : db.records = db'.records)
    (hsources : db.sourceIndex = db'.sourceIndex) (hpins : db.pins = db'.pins)
    (hannouncements : db.announcements = db'.announcements)
    (hindex : db.invertedIndex = db'.invertedIndex) : db = db' := by
  cases db
  cases db'
  simp only [Db.mk.injEq]
  exact ⟨hrecords, hsources, hpins, hannouncements, hindex⟩

namespace Records

theorem expiredRows_keys_nodup (now : ℕ) (db : Db) : ((expiredRows now db).map Prod.fst).Nodup := by
  have hordered : (expiredRows now db).Pairwise fun a b => compare a.1 b.1 = .lt := by
    refine OrderedTable.pairwise_filterMap db.records ?_
    rintro ⟨key, record⟩ row hrow
    dsimp only at hrow
    split at hrow
    · split at hrow
      · cases hrow
      · rw [← Option.some.inj hrow]
    · cases hrow
  apply List.pairwise_map.mpr
  exact hordered.imp fun hlt => ne_of_lt (compare_lt_iff_lt.mp hlt)

@[simp] theorem removeRows_announcements (rows : List (String × String)) (db : Db) :
    (removeRows rows db).announcements = db.announcements := by
  induction rows generalizing db with
  | nil => rfl
  | cons row rows ih =>
    rw [removeRows_cons, ih]
    rfl

/-- Rows of different stored records take one record each. -/
theorem size_removeRows {rows : List (String × String)} (db : Db)
    (hdistinct : (rows.map Prod.fst).Nodup)
    (hstored : ∀ row ∈ rows, ∃ record, db.records[row.1]? = some record) :
    (removeRows rows db).records.size + rows.length = db.records.size := by
  have hsize := OrderedTable.weight_foldl_erase (w := fun _ => 1) Prod.fst rows db.records hdistinct
  have hone : (rows.map fun row => OrderedTable.weightAt (fun _ => 1) db.records row.1) =
      rows.map fun _ => 1 := by
    apply List.map_congr_left
    intro row hrow
    obtain ⟨record, hrecord⟩ := hstored row hrow
    simp only [OrderedTable.weightAt, hrecord, Option.map_some, Option.getD_some]
  rw [← removeRows_table, OrderedTable.weight_one, OrderedTable.weight_one, hone, List.map_const',
    List.sum_replicate, smul_eq_mul, mul_one] at hsize
  omega

theorem removeRows_expired {now : ℕ} {db : Db} {key : String} {record : ContentRecord} :
    (removeRows (expiredRows now db) db).records[key]? = some record ↔
      db.records[key]? = some record ∧ ¬ Expired db now key := by
  rw [removeRows_records_eq_some, mem_expiredRows_ids, and_comm]

/-- After the sweep at `now` a later one finds the rows that expire in between. -/
theorem mem_expiredRows_later {now later : ℕ} {db : Db} {row : String × String} :
    row ∈ expiredRows later (removeRows (expiredRows now db) db) ↔
      row ∈ expiredRows later db ∧ row ∉ expiredRows now db := by
  simp only [mem_expiredRows, removeRows_expired, removeRows_pins]
  constructor
  · rintro ⟨record, ⟨hrecord, hlives⟩, hhash, hpos, hlt, hpin⟩
    refine ⟨⟨record, hrecord, hhash, hpos, hlt, hpin⟩, ?_⟩
    rintro ⟨found, hfound, -, hexpired⟩
    exact hlives ⟨found, hfound, hexpired⟩
  · rintro ⟨⟨record, hrecord, hhash, hpos, hlt, hpin⟩, hlives⟩
    refine ⟨record, ⟨hrecord, ?_⟩, hhash, hpos, hlt, hpin⟩
    rintro ⟨found, hfound, hexpired⟩
    obtain rfl := Option.some.inj (hrecord.symm.trans hfound)
    exact hlives ⟨record, hrecord, hhash, hexpired⟩

theorem expiredRows_mono {now later : ℕ} (hle : now ≤ later) {db : Db} {row : String × String}
    (hrow : row ∈ expiredRows now db) : row ∈ expiredRows later db := by
  obtain ⟨record, hrecord, hhash, hpos, hlt, hpin⟩ := mem_expiredRows.mp hrow
  exact mem_expiredRows.mpr ⟨record, hrecord, hhash, hpos, lt_of_lt_of_le hlt hle, hpin⟩

/-- The sweeps at two times leave what the later one leaves. -/
theorem removeRows_later {now later : ℕ} (hle : now ≤ later) (db : Db) :
    removeRows (expiredRows later (removeRows (expiredRows now db) db))
      (removeRows (expiredRows now db) db) = removeRows (expiredRows later db) db := by
  have hrows : ∀ row : String × String,
      (row ∉ expiredRows now db ∧ row ∉ expiredRows later (removeRows (expiredRows now db) db)) ↔
        row ∉ expiredRows later db := by
    intro row
    rw [mem_expiredRows_later]
    constructor
    · rintro ⟨hnow, hlater⟩ hrow
      exact hlater ⟨hrow, hnow⟩
    · intro hlater
      exact ⟨fun hrow => hlater (expiredRows_mono hle hrow), fun hrow => hlater hrow.1⟩
  have hids : ∀ id : String, (id ∉ (expiredRows now db).map Prod.fst ∧
      id ∉ (expiredRows later (removeRows (expiredRows now db) db)).map Prod.fst) ↔
        id ∉ (expiredRows later db).map Prod.fst := by
    intro id
    simp only [List.mem_map, not_exists, not_and]
    constructor
    · rintro ⟨hnow, hlater⟩ row hrow heq
      exact not_not.mpr hrow ((hrows row).mp
        ⟨fun hmem => hnow row hmem heq, fun hmem => hlater row hmem heq⟩)
    · intro hlater
      refine ⟨fun row hrow heq => ?_, fun row hrow heq => ?_⟩
      · exact ((hrows row).mpr fun hmem => hlater row hmem heq).1 hrow
      · exact ((hrows row).mpr fun hmem => hlater row hmem heq).2 hrow
  have hrecords : (removeRows (expiredRows later (removeRows (expiredRows now db) db))
      (removeRows (expiredRows now db) db)).records =
      (removeRows (expiredRows later db) db).records := by
    apply Std.ExtTreeMap.ext_getElem?
    intro key
    apply Option.ext
    intro record
    rw [removeRows_records_eq_some, removeRows_records_eq_some, removeRows_records_eq_some,
      ← and_assoc, ← hids key, and_comm (a := key ∉ (expiredRows later _).map Prod.fst)]
  have hentries : (removeRows (expiredRows later (removeRows (expiredRows now db) db))
      (removeRows (expiredRows now db) db)).sourceIndex =
      (removeRows (expiredRows later db) db).sourceIndex := by
    apply Std.ExtTreeMap.ext_getElem?
    intro hash
    apply Option.ext
    intro id
    rw [removeRows_sourceIndex, removeRows_sourceIndex, removeRows_sourceIndex, and_assoc, hrows]
  refine Db.eq_of_tables hrecords hentries ?_ ?_ ?_
  · rw [removeRows_pins, removeRows_pins, removeRows_pins]
  · rw [removeRows_announcements, removeRows_announcements, removeRows_announcements]
  · rw [removeRows_invertedIndex, removeRows_invertedIndex, removeRows_invertedIndex]

/-- A sweep under the invariant of `source_index`. -/
theorem swept_removeRows {db : Db} (h : SourceIndexed db) (now : ℕ) :
    Swept now db (removeRows (expiredRows now db) db) where
  records := fun _ _ => removeRows_expired
  pins := removeRows_pins _ _
  keptEntries := by
    intro key record hrecord
    obtain ⟨-, hentry⟩ := h.removeRows (expiredRows now db) key record hrecord
    exact hentry
  removedEntries := by
    rintro key record hrecord ⟨found, hfound, hexpired⟩
    obtain rfl := Option.some.inj (hrecord.symm.trans hfound)
    obtain ⟨hid, hentry⟩ := h key record hrecord
    rw [Option.eq_none_iff_forall_not_mem]
    intro id hmem
    obtain ⟨hnamed, hleft⟩ := (removeRows_sourceIndex _ _ _ _).mp hmem
    obtain rfl := Option.some.inj (hentry.symm.trans hnamed)
    apply hleft
    rw [hid]
    exact mem_expiredRows.mpr ⟨record, hrecord, rfl, hexpired⟩
  otherEntries := by
    intro hash hothers
    apply Option.ext
    intro id
    rw [removeRows_sourceIndex, and_iff_left]
    intro hrow
    obtain ⟨record, hrecord, hhash, hexpired⟩ := mem_expiredRows.mp hrow
    exact hothers id record hrecord ⟨record, hrecord, hexpired⟩ hhash
  announcements := removeRows_announcements _ _
  invertedIndex := removeRows_invertedIndex _ _

end Records

/-- A sweep alone removes the expired records with their entries and nothing else, and says how many
they were; repeating it removes nothing, and it does not change what a later sweep leaves. -/
theorem deleteExpiredRecords_sweeps (db : Db) (h : SourceIndexed db) (now : ℕ) :
    ∃ db' count, (deleteExpiredRecords now).run db = (db', .ok count) ∧ Swept now db db' ∧
      db'.records.size + count = db.records.size ∧
      (deleteExpiredRecords now).run db' = (db', .ok 0) ∧
      ∀ later, now ≤ later →
        ((deleteExpiredRecords later).run db').1 = ((deleteExpiredRecords later).run db).1 := by
  have hnone : expiredRows now (removeRows (expiredRows now db) db) = [] := by
    apply List.eq_nil_iff_forall_not_mem.mpr
    intro row hrow
    obtain ⟨hexpired, hlives⟩ := mem_expiredRows_later.mp hrow
    exact hlives hexpired
  refine ⟨removeRows (expiredRows now db) db, (expiredRows now db).length,
    deleteExpiredRecords_run now db, swept_removeRows h now, ?_, ?_, ?_⟩
  · apply size_removeRows db (expiredRows_keys_nodup now db)
    intro row hrow
    obtain ⟨record, hrecord, -⟩ := mem_expiredRows.mp hrow
    exact ⟨record, hrecord⟩
  · rw [deleteExpiredRecords_run, hnone]
    rfl
  · intro later hle
    rw [deleteExpiredRecords_run, deleteExpiredRecords_run]
    exact removeRows_later hle db

/-- A record that has expired at 2000 and one that never does, each named for its source. -/
def expiredAndKept : Db :=
  (insertRecordTx (makeRecord "r2" "sh2" 1000 0) none
    (insertRecordTx (makeRecord "r1" "sh1" 1000 1999) none Db.empty).1).1

theorem deleteExpiredRecords_sweeps_one :
    ∃ db' count, (deleteExpiredRecords 2000).run expiredAndKept = (db', .ok count) ∧
      Swept 2000 expiredAndKept db' ∧ db'.records.size + count = expiredAndKept.records.size ∧
      (deleteExpiredRecords 2000).run db' = (db', .ok 0) ∧
      ∀ later, 2000 ≤ later → ((deleteExpiredRecords later).run db').1 =
        ((deleteExpiredRecords later).run expiredAndKept).1 :=
  deleteExpiredRecords_sweeps expiredAndKept
    ((SourceIndexed.empty.insertRecordTx _ none).insertRecordTx _ none) 2000

end DSearch
