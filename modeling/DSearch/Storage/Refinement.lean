import DSearch.Foundations.NewestWins
import DSearch.Foundations.Runs
import DSearch.Storage.Expiry

/-! # The records and `source_index` tables as a map from sources to records

`SourceMap` says what the two tables are for: at most one record of each source, the newest that was
offered, and a set of pinned ids. The calls of `records.rs` refine the operations of that map, result
for result, as long as no quota is set and no id is used for two sources. -/

namespace DSearch
set_option autoImplicit false
open Transaction Records NewestWins

/-- What is kept for each `source_hash`, and the ids that are pinned. -/
structure SourceMap where
  entry : String → Option ContentRecord
  pinned : Set String

inductive SourceOp where
  | insert (record : ContentRecord)
  | delete (id : String)
  | pin (id : String) (now : ℕ)
  | unpin (id : String)
  | sweep (now : ℕ)
  deriving DecidableEq, Repr

namespace SourceMap

def empty : SourceMap := ⟨fun _ => none, ∅⟩

def Holds (m : SourceMap) (id : String) : Prop :=
  ∃ source record, m.entry source = some record ∧ record.id = id

open Classical in
noncomputable def without (m : SourceMap) (ids : Set String) (source : String) :
    Option ContentRecord :=
  (m.entry source).filter fun record => record.id ∉ ids

theorem without_eq_some {m : SourceMap} {ids : Set String} {source : String}
    {record : ContentRecord} :
    m.without ids source = some record ↔ m.entry source = some record ∧ record.id ∉ ids := by
  simp [without, Option.filter_eq_some_iff]

def expired (m : SourceMap) (now : ℕ) : Set String :=
  {source | ∃ record, m.entry source = some record ∧ 0 < record.expiresAt ∧
    record.expiresAt < now ∧ record.id ∉ m.pinned}

def insertResult (m : SourceMap) (record : ContentRecord) : InsertResult :=
  match m.entry record.sourceHash with
  | none => .inserted
  | some present =>
    if record.createdAt ≤ present.createdAt then .skippedOlder else .replacedNewer

open Classical in
noncomputable def step (m : SourceMap) : SourceOp → SourceMap × Outcome Reply
  | .insert record =>
    match record.validateSize with
    | .error e => (m, .err ("record validation: " ++ e))
    | .ok () =>
      ({ m with entry := offer ContentRecord.sourceHash ContentRecord.createdAt m.entry record },
        .ok (.inserted (m.insertResult record)))
  | .delete id =>
    if m.Holds id then
      (⟨m.without {id}, m.pinned \ {id}⟩, .ok (.flag true))
    else (m, .ok (.flag false))
  | .pin id _ =>
    if m.Holds id then ({ m with pinned := insert id m.pinned }, .ok (.flag true))
    else (m, .ok (.flag false))
  | .unpin id =>
    ({ m with pinned := m.pinned \ {id} }, .ok (.flag (decide (id ∈ m.pinned))))
  | .sweep now =>
    ({ m with entry := fun source => if source ∈ m.expired now then none else m.entry source },
      .ok (.count (m.expired now).ncard))

end SourceMap

theorem overQuota_unlimited (db : Db) (record : ContentRecord)
    {config : Option StorageConfig} (hquota : ∀ cfg, config = some cfg → cfg.quotaMb = 0) :
    overQuota db record config = false := by
  cases config with
  | none => rfl
  | some cfg => simp [overQuota, hquota cfg rfl]

theorem expiredRows_nodup (now : ℕ) (db : Db) : (expiredRows now db).Nodup :=
  (expiredRows_keys_nodup now db).of_map

def SourceOp.call (config : Option StorageConfig) : SourceOp → RecordsOp
  | .insert record => .insert record config
  | .delete id => .delete id
  | .pin id now => .pin id now
  | .unpin id => .unpin id
  | .sweep now => .sweep now

/-- The tables hold the map: `records` its records by id, `source_index` the pairs of a source and
the id of its record. -/
structure Represents (db : Db) (m : SourceMap) : Prop where
  keyed : ∀ source record, m.entry source = some record → record.sourceHash = source
  stored : ∀ (id : String) (record : ContentRecord), db.records[id]? = some record ↔
    record.id = id ∧ m.entry record.sourceHash = some record
  indexed : ∀ source id : String, db.sourceIndex[source]? = some id ↔
    ∃ record, m.entry source = some record ∧ record.id = id
  pinned : ∀ id : String, id ∈ m.pinned ↔ db.pins[id]?.isSome

namespace Represents

theorem empty : Represents Db.empty SourceMap.empty := by
  constructor <;> simp [Db.empty, SourceMap.empty]

variable {db : Db} {m : SourceMap}

theorem entry_stored (h : Represents db m) {source : String} {record : ContentRecord}
    (hentry : m.entry source = some record) : db.records[record.id]? = some record := by
  obtain rfl := h.keyed source record hentry
  exact (h.stored _ _).mpr ⟨rfl, hentry⟩

theorem holds_iff (h : Represents db m) (id : String) :
    m.Holds id ↔ ∃ record, db.records[id]? = some record := by
  constructor
  · rintro ⟨source, record, hentry, rfl⟩
    exact ⟨record, h.entry_stored hentry⟩
  · rintro ⟨record, hrecord⟩
    obtain ⟨hid, hentry⟩ := (h.stored id record).mp hrecord
    exact ⟨record.sourceHash, record, hentry, hid⟩

theorem not_holds (h : Represents db m) {id : String} (hrow : db.records[id]? = none) :
    ¬ m.Holds id := by
  rw [h.holds_iff, hrow]
  rintro ⟨_, ⟨⟩⟩

theorem dedupResult (h : Represents db m) (record : ContentRecord) :
    dedupResult db record = (m.entry record.sourceHash).map fun present =>
      (present.id, decide (present.createdAt < record.createdAt)) := by
  cases hentry : m.entry record.sourceHash with
  | none =>
    refine dedupResult_eq_none.mpr fun id hnamed => ?_
    obtain ⟨r, hr, -⟩ := (h.indexed _ _).mp hnamed
    rw [hentry] at hr
    cases hr
  | some present =>
    exact dedupResult_eq_some.mpr ⟨present, (h.indexed _ _).mpr ⟨present, hentry, rfl⟩,
      h.entry_stored hentry, rfl⟩

/-- A written record becomes the entry of its source, if nothing else was stored under its id. -/
theorem written (h : Represents db m) {record : ContentRecord} {records : Table ContentRecord}
    (hothers : ∀ (id : String) (r : ContentRecord), id ≠ record.id →
      (records[id]? = some r ↔ db.records[id]? = some r ∧ r.sourceHash ≠ record.sourceHash))
    (hids : ∀ source r, m.entry source = some r → r.id = record.id →
      r.sourceHash = record.sourceHash) :
    Represents { db with
      records := records.insert record.id record
      sourceIndex := db.sourceIndex.insert record.sourceHash record.id }
      { m with entry := Function.update m.entry record.sourceHash (some record) } where
  keyed source r hr := by
    dsimp only at hr
    by_cases hsource : source = record.sourceHash
    · subst hsource
      rw [Function.update_self] at hr
      rw [← Option.some.inj hr]
    · rw [Function.update_of_ne hsource] at hr
      exact h.keyed source r hr
  stored id r := by
    dsimp only
    rw [OrderedTable.get_insert]
    by_cases hid : record.id = id
    · subst hid
      rw [if_pos rfl, Option.some.injEq]
      constructor
      · rintro rfl
        exact ⟨rfl, Function.update_self _ _ _⟩
      · rintro ⟨hrid, hentry⟩
        by_cases hsource : r.sourceHash = record.sourceHash
        · rw [hsource, Function.update_self] at hentry
          exact Option.some.inj hentry
        · rw [Function.update_of_ne hsource] at hentry
          exact absurd (hids _ r hentry hrid) hsource
    · rw [if_neg hid, hothers id r (Ne.symm hid), h.stored, and_assoc]
      refine and_congr_right fun hrid => ?_
      by_cases hsource : r.sourceHash = record.sourceHash
      · have hne : record ≠ r := fun heq => hid (heq ▸ hrid)
        simp [hsource, hne]
      · simp [hsource]
  indexed source id := by
    dsimp only
    rw [OrderedTable.get_insert]
    by_cases hsource : record.sourceHash = source
    · subst hsource
      simp
    · rw [if_neg hsource, Function.update_of_ne (Ne.symm hsource)]
      exact h.indexed source id
  pinned := h.pinned

/-- The row of a kept record is known by its id, and by its source. -/
theorem mem_rows (h : Represents db m) {rows : List (String × String)}
    (hrows : ∀ row ∈ rows, ∃ r, db.records[row.1]? = some r ∧ r.sourceHash = row.2)
    {source : String} {record : ContentRecord} (hentry : m.entry source = some record) :
    (record.id ∈ rows.map Prod.fst ↔ (record.id, source) ∈ rows) ∧
      (source ∈ rows.map Prod.snd ↔ (record.id, source) ∈ rows) := by
  refine ⟨⟨fun hmem => ?_, List.mem_map_of_mem (f := Prod.fst)⟩,
    ⟨fun hmem => ?_, List.mem_map_of_mem (f := Prod.snd)⟩⟩
  · obtain ⟨row, hrow, hid⟩ := List.mem_map.mp hmem
    obtain ⟨r, hr, hhash⟩ := hrows row hrow
    rw [hid, h.entry_stored hentry] at hr
    obtain rfl := Option.some.inj hr
    rw [h.keyed source record hentry] at hhash
    rwa [show (record.id, source) = row from Prod.ext hid.symm hhash]
  · obtain ⟨row, hrow, hsource⟩ := List.mem_map.mp hmem
    obtain ⟨r, hr, hhash⟩ := hrows row hrow
    obtain ⟨hid, hentry'⟩ := (h.stored _ _).mp hr
    rw [hhash, hsource, hentry] at hentry'
    obtain rfl := Option.some.inj hentry'
    rwa [show (record.id, source) = row from Prod.ext hid hsource.symm]

/-- Removing rows of stored records removes the records with their ids from the map. -/
theorem removeRows (h : Represents db m) {rows : List (String × String)}
    (hrows : ∀ row ∈ rows, ∃ r, db.records[row.1]? = some r ∧ r.sourceHash = row.2) :
    Represents (removeRows rows db)
      { m with entry := m.without {id | id ∈ rows.map Prod.fst} } where
  keyed source r hr := h.keyed source r (SourceMap.without_eq_some.mp hr).1
  stored id r := by
    rw [removeRows_records_eq_some, SourceMap.without_eq_some, Set.mem_ofPred_eq, h.stored]
    constructor
    · rintro ⟨hkept, rfl, hentry⟩
      exact ⟨rfl, hentry, hkept⟩
    · rintro ⟨rfl, hentry, hkept⟩
      exact ⟨hkept, rfl, hentry⟩
  indexed source id := by
    rw [removeRows_sourceIndex, h.indexed]
    simp only [SourceMap.without_eq_some, Set.mem_ofPred_eq]
    constructor
    · rintro ⟨⟨r, hentry, rfl⟩, hnot⟩
      exact ⟨r, ⟨hentry, mt (h.mem_rows hrows hentry).1.mp hnot⟩, rfl⟩
    · rintro ⟨r, ⟨hentry, hnot⟩, rfl⟩
      exact ⟨⟨r, hentry, rfl⟩, mt (h.mem_rows hrows hentry).1.mpr hnot⟩
  pinned id := by rw [removeRows_pins]; exact h.pinned id

/-! ## One call, one operation of the map -/

theorem insert_call (h : Represents db m) {record : ContentRecord} {config : Option StorageConfig}
    (hquota : ∀ cfg, config = some cfg → cfg.quotaMb = 0)
    (hids : ∀ source r, m.entry source = some r → r.id = record.id →
      r.sourceHash = record.sourceHash) :
    Represents ((RecordsOp.insert record config).run db).1 (m.step (.insert record)).1 ∧
      ((RecordsOp.insert record config).run db).2 = (m.step (.insert record)).2 := by
  rw [RecordsOp.run_insert, SourceMap.step]
  cases hsize : record.validateSize with
  | error e => exact ⟨h, rfl⟩
  | ok _ =>
    have hfits := overQuota_unlimited db record hquota
    simp only [insertRecordTx, h.dedupResult, SourceMap.insertResult, offer]
    cases hentry : m.entry record.sourceHash with
    | none =>
      simp only [Option.map_none, hfits]
      refine ⟨h.written (fun id r _ => ?_) hids, rfl⟩
      refine (and_iff_left_of_imp fun hr hsource => ?_).symm
      have hentry' := ((h.stored id r).mp hr).2
      rw [hsource, hentry] at hentry'
      cases hentry'
    | some present =>
      by_cases hnewer : present.createdAt < record.createdAt
      · simp only [Option.map_some, hnewer, Nat.not_le.mpr hnewer, decide_true, hfits]
        refine ⟨h.written (fun id r _ => ?_) hids, rfl⟩
        have hpresent := h.entry_stored hentry
        rw [OrderedTable.get_erase]
        split
        · next hid =>
          subst hid
          rw [hpresent]
          refine iff_of_false (by simp) ?_
          rintro ⟨heq, hsource⟩
          obtain rfl := Option.some.inj heq
          exact hsource (h.keyed _ _ hentry)
        · next hid =>
          refine (and_iff_left_of_imp fun hr hsource => hid ?_).symm
          obtain ⟨rfl, hentry'⟩ := (h.stored id r).mp hr
          rw [hsource, hentry] at hentry'
          rw [Option.some.inj hentry']
      · simp only [Option.map_some, hnewer, Nat.not_lt.mp hnewer, decide_false]
        exact ⟨h, rfl⟩

theorem delete_call (h : Represents db m) (id : String) :
    Represents ((RecordsOp.delete id).run db).1 (m.step (.delete id)).1 ∧
      ((RecordsOp.delete id).run db).2 = (m.step (.delete id)).2 := by
  rw [RecordsOp.run_delete, SourceMap.step]
  cases hrow : db.records[id]? with
  | none =>
    rw [if_neg (h.not_holds hrow)]
    exact ⟨h, rfl⟩
  | some record =>
    rw [if_pos ((h.holds_iff id).mpr ⟨record, hrow⟩)]
    have hrows : ∀ row ∈ [(id, record.sourceHash)],
        ∃ r, db.records[row.1]? = some r ∧ r.sourceHash = row.2 := by
      intro row hmem
      rw [List.mem_singleton.mp hmem]
      exact ⟨record, hrow, rfl⟩
    have hremoved := h.removeRows hrows
    have hids : {x | x ∈ [(id, record.sourceHash)].map Prod.fst} = ({id} : Set String) := by
      ext x
      simp
    rw [hids] at hremoved
    refine ⟨⟨hremoved.keyed, hremoved.stored, hremoved.indexed, fun x => ?_⟩, rfl⟩
    simp only [deleteRecordTx, OrderedTable.get_erase, removeRow_pins]
    by_cases hx : id = x
    · simp [hx]
    · simpa [hx, Ne.symm hx] using h.pinned x

theorem pin_call (h : Represents db m) (id : String) (now : ℕ) :
    Represents ((RecordsOp.pin id now).run db).1 (m.step (.pin id now)).1 ∧
      ((RecordsOp.pin id now).run db).2 = (m.step (.pin id now)).2 := by
  rw [RecordsOp.run_pin, SourceMap.step]
  cases hrow : db.records[id]? with
  | none =>
    rw [if_neg (h.not_holds hrow)]
    exact ⟨h, rfl⟩
  | some record =>
    rw [if_pos ((h.holds_iff id).mpr ⟨record, hrow⟩), if_neg (by simp)]
    refine ⟨⟨h.keyed, h.stored, h.indexed, fun x => ?_⟩, rfl⟩
    rw [OrderedTable.get_insert, Set.mem_insert_iff, h.pinned]
    by_cases hx : id = x
    · simp [hx]
    · simp [hx, Ne.symm hx]

theorem unpin_call (h : Represents db m) (id : String) :
    Represents ((RecordsOp.unpin id).run db).1 (m.step (.unpin id)).1 ∧
      ((RecordsOp.unpin id).run db).2 = (m.step (.unpin id)).2 := by
  rw [RecordsOp.run_unpin, SourceMap.step]
  refine ⟨⟨h.keyed, h.stored, h.indexed, fun x => ?_⟩, ?_⟩
  · rw [OrderedTable.get_erase]
    by_cases hx : id = x
    · simp [hx]
    · simpa [hx, Ne.symm hx] using h.pinned x
  · simp only [h.pinned, Bool.decide_eq_true]

theorem mem_expired (h : Represents db m) {now : ℕ} {source : String} :
    source ∈ m.expired now ↔ source ∈ (expiredRows now db).map Prod.snd := by
  simp only [SourceMap.expired, Set.mem_ofPred_eq, List.mem_map, mem_expiredRows]
  constructor
  · rintro ⟨record, hentry, hpos, hlt, hpin⟩
    rw [h.pinned, Option.not_isSome_iff_eq_none] at hpin
    exact ⟨(record.id, source), ⟨record, h.entry_stored hentry, h.keyed _ _ hentry, hpos, hlt, hpin⟩,
      rfl⟩
  · rintro ⟨row, ⟨record, hrecord, hhash, hpos, hlt, hpin⟩, rfl⟩
    obtain ⟨hid, hentry⟩ := (h.stored _ _).mp hrecord
    refine ⟨record, hhash ▸ hentry, hpos, hlt, ?_⟩
    rw [h.pinned, hid, Option.not_isSome_iff_eq_none]
    exact hpin

theorem expiredRows_sources_nodup (h : Represents db m) (now : ℕ) :
    ((expiredRows now db).map Prod.snd).Nodup := by
  refine List.Nodup.map_on (fun row₁ hrow₁ row₂ hrow₂ hsource => ?_) (expiredRows_nodup now db)
  obtain ⟨r₁, hr₁, hhash₁, -⟩ := mem_expiredRows.mp hrow₁
  obtain ⟨r₂, hr₂, hhash₂, -⟩ := mem_expiredRows.mp hrow₂
  obtain ⟨hid₁, hentry₁⟩ := (h.stored _ _).mp hr₁
  obtain ⟨hid₂, hentry₂⟩ := (h.stored _ _).mp hr₂
  rw [hhash₁, hsource, ← hhash₂, hentry₂] at hentry₁
  obtain rfl := Option.some.inj hentry₁
  exact Prod.ext (hid₁.symm.trans hid₂) hsource

open Classical in
theorem sweep_call (h : Represents db m) (now : ℕ) :
    Represents ((RecordsOp.sweep now).run db).1 (m.step (.sweep now)).1 ∧
      ((RecordsOp.sweep now).run db).2 = (m.step (.sweep now)).2 := by
  rw [RecordsOp.run_sweep, SourceMap.step]
  have hrows : ∀ row ∈ expiredRows now db, ∃ r, db.records[row.1]? = some r ∧ r.sourceHash = row.2 := by
    intro row hrow
    obtain ⟨r, hr, hhash, -⟩ := mem_expiredRows.mp hrow
    exact ⟨r, hr, hhash⟩
  have hremoved := h.removeRows hrows
  have hentry : m.without {id | id ∈ (expiredRows now db).map Prod.fst} =
      fun source => if source ∈ m.expired now then none else m.entry source := by
    funext source
    ext r
    rw [SourceMap.without_eq_some, Set.mem_ofPred_eq, h.mem_expired]
    by_cases hkept : m.entry source = some r
    · obtain ⟨hids, hsources⟩ := h.mem_rows hrows hkept
      rw [hids, hsources, hkept]
      by_cases hrow : (r.id, source) ∈ expiredRows now db <;> simp [hrow]
    · simp [hkept]
  have hcount : (expiredRows now db).length = (m.expired now).ncard := by
    have hset : m.expired now = ↑((expiredRows now db).map Prod.snd).toFinset := by
      ext source
      rw [h.mem_expired, Finset.mem_coe, List.mem_toFinset]
    rw [hset, Set.ncard_coe_finset, List.toFinset_card_of_nodup (h.expiredRows_sources_nodup now),
      List.length_map]
  rw [hentry] at hremoved
  exact ⟨hremoved, by rw [hcount]⟩

theorem step_call (h : Represents db m) {config : Option StorageConfig}
    (hquota : ∀ cfg, config = some cfg → cfg.quotaMb = 0) (op : SourceOp)
    (hids : ∀ record, op = .insert record → ∀ source r, m.entry source = some r →
      r.id = record.id → r.sourceHash = record.sourceHash) :
    Represents ((op.call config).run db).1 (m.step op).1 ∧
      ((op.call config).run db).2 = (m.step op).2 := by
  cases op with
  | insert record => exact h.insert_call hquota (hids record rfl)
  | delete id => exact h.delete_call id
  | pin id now => exact h.pin_call id now
  | unpin id => exact h.unpin_call id
  | sweep now => exact h.sweep_call now

end Represents

/-! ## Runs -/

/-- No two inserts of the run use one id for two sources. -/
def IdsKeepSource (ops : List SourceOp) : Prop :=
  ∀ r₁ r₂ : ContentRecord, .insert r₁ ∈ ops → .insert r₂ ∈ ops → r₁.id = r₂.id →
    r₁.sourceHash = r₂.sourceHash

theorem SourceMap.step_entry {m : SourceMap} {op : SourceOp} {source : String}
    {record : ContentRecord} (h : (m.step op).1.entry source = some record) :
    m.entry source = some record ∨ op = .insert record := by
  cases op with
  | insert offered =>
    rw [step] at h
    cases hsize : offered.validateSize with
    | error e => exact .inl (by simpa only [hsize] using h)
    | ok _ =>
      simp only [hsize, offer_apply] at h
      split at h
      · exact .inr (congrArg SourceOp.insert (Option.some.inj h))
      · exact .inl h
  | delete id =>
    rw [step] at h
    split at h
    · exact .inl (without_eq_some.mp h).1
    · exact .inl h
  | pin id now =>
    rw [step] at h
    split at h <;> exact .inl h
  | unpin id => exact .inl h
  | sweep now =>
    rw [step] at h
    dsimp only at h
    split at h
    · cases h
    · exact .inl h

/-- Without a quota, and with no id used for two sources, every run of calls gives the results of
the map's operations, and its tables hold the map. -/
theorem runs_refine_sourceMap (config : Option StorageConfig) (ops : List SourceOp)
    (hquota : ∀ cfg, config = some cfg → cfg.quotaMb = 0) (hids : IdsKeepSource ops) :
    Represents (Runs.runAll (fun op db => (op.call config).run db) ops Db.empty).1
        (Runs.runAll (fun op m => SourceMap.step m op) ops SourceMap.empty).1 ∧
      (Runs.runAll (fun op db => (op.call config).run db) ops Db.empty).2 =
        (Runs.runAll (fun op m => SourceMap.step m op) ops SourceMap.empty).2 := by
  -- besides the tables holding the map, everything in the map was inserted by the run
  let R : Db → SourceMap → Prop := fun db m =>
    Represents db m ∧ ∀ source record, m.entry source = some record → .insert record ∈ ops
  have hstep : ∀ op ∈ ops, ∀ db m, R db m →
      R ((op.call config).run db).1 (m.step op).1 ∧
        ((op.call config).run db).2 = (m.step op).2 := by
    rintro op hop db m ⟨hrep, hfrom⟩
    obtain ⟨hrep', hreply⟩ := hrep.step_call hquota op fun record hinsert source r hentry hid =>
      hids r record (hfrom source r hentry) (hinsert ▸ hop) hid
    refine ⟨⟨hrep', fun source record hentry => ?_⟩, hreply⟩
    rcases SourceMap.step_entry hentry with hold | rfl
    · exact hfrom source record hold
    · exact hop
  have hempty : R Db.empty SourceMap.empty := by
    refine ⟨Represents.empty, fun source record hentry => ?_⟩
    cases hentry
  obtain ⟨⟨hrep, -⟩, hreplies⟩ := Runs.runAll_simulates hstep hempty
  exact ⟨hrep, hreplies⟩

/-- A source is replaced under another id, expires although its first record was pinned, and is
inserted again. -/
def replacedThenSwept : List SourceOp :=
  [.insert (makeRecord "r1" "sh1" 1000 1500), .pin "r1" 1200,
    .insert (makeRecord "r2" "sh1" 2000 2500), .sweep 3000,
    .insert (makeRecord "r1" "sh1" 1000 1500), .delete "r1"]

theorem runs_refine_sourceMap_replacedThenSwept :
    Represents (Runs.runAll (fun op db => (op.call none).run db) replacedThenSwept Db.empty).1
        (Runs.runAll (fun op m => SourceMap.step m op) replacedThenSwept SourceMap.empty).1 ∧
      (Runs.runAll (fun op db => (op.call none).run db) replacedThenSwept Db.empty).2 =
        (Runs.runAll (fun op m => SourceMap.step m op) replacedThenSwept SourceMap.empty).2 := by
  refine runs_refine_sourceMap none replacedThenSwept (by simp) fun r₁ r₂ h₁ h₂ _ => ?_
  have hsource : ∀ r, .insert r ∈ replacedThenSwept → r.sourceHash = "sh1" := by
    intro r hr
    simp only [replacedThenSwept, List.mem_cons, SourceOp.insert.injEq, reduceCtorEq,
      List.not_mem_nil, or_false, false_or] at hr
    rcases hr with rfl | rfl | rfl <;> rfl
  rw [hsource r₁ h₁, hsource r₂ h₂]

end DSearch
