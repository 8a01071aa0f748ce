import DSearch.Foundations.NewestWins
import DSearch.Scraper.Adds
import DSearch.Storage.InsertEnds
import DSearch.Storage.SourceIndex

/-! # A batch of inserts as offers to a map of sources

`run_feed_job` and `run_api_job` insert record after record. What the dedup sees of the two tables is
a map from sources to records, and as long as no id is used for two sources of the batch each insert
offers its record to that map: the first of the newest records of a source is the one that stays. -/

namespace DSearch
set_option autoImplicit false
open Transaction Records Scraper Sanitize NewestWins

/-- The record that the dedup compares a record of the source with. -/
def seen (db : Db) (source : String) : Option ContentRecord :=
  db.sourceIndex[source]?.bind fun id => db.records[id]?

theorem seen_eq_some {db : Db} {source : String} {record : ContentRecord} :
    seen db source = some record ↔
      ∃ id : String, db.sourceIndex[source]? = some id ∧ db.records[id]? = some record :=
  Option.bind_eq_some_iff

theorem Store.skips_iff {db : Db} {record : ContentRecord} :
    Skips db record ↔
      ∃ present, seen db record.sourceHash = some present ∧ record.createdAt ≤ present.createdAt := by
  simp only [Skips, dedupResult_eq_some, seen_eq_some, eq_comm (a := false), decide_eq_false_iff_not,
    Nat.not_lt]
  constructor
  · rintro ⟨id, present, hnamed, hpresent, hle⟩
    exact ⟨present, ⟨id, hnamed, hpresent⟩, hle⟩
  · rintro ⟨present, ⟨id, hnamed, hpresent⟩, hle⟩
    exact ⟨id, present, hnamed, hpresent, hle⟩

namespace SourceIndexed

/-- Under the invariant a stored record is the one that is seen for its source. -/
theorem seen_iff {db : Db} (h : SourceIndexed db) {record : ContentRecord} {source : String}
    (hsource : record.sourceHash = source) :
    seen db source = some record ↔ ∃ id : String, db.records[id]? = some record := by
  subst hsource
  rw [seen_eq_some]
  constructor
  · rintro ⟨id, -, hrecord⟩
    exact ⟨id, hrecord⟩
  · rintro ⟨id, hrecord⟩
    obtain ⟨rfl, hnamed⟩ := h id record hrecord
    exact ⟨record.id, hnamed, hrecord⟩

theorem insertAll_keeps {ed : Ed25519} (store : Store ed) (made : List ContentRecord)
    (counts : BatchResult) : (insertAll store made counts).Keeps SourceIndexed := by
  refine insertAll_within made (fun _ _ record _ => ?_) counts
  refine store.insertRecord_within (fun db db' h hindex => ?_) fun _ db h => h.insertRecordTx _ _
  unfold Index.OnlyIndexChanged at hindex
  rw [← hindex] at h
  exact h

end SourceIndexed

/-- The id is the one that `source_index` names for the source, or that of a record of the batch. -/
def Uses (db : Db) (batch : List ContentRecord) (source id : String) : Prop :=
  db.sourceIndex[source]? = some id ∨ ∃ record ∈ batch, record.sourceHash = source ∧ record.id = id

/-- No id is used for two sources of the batch, and what is stored under an id of the batch is what
`source_index` names for its source. Ids are digests over the source, so this is what the digest is
for. -/
structure OwnIds (db : Db) (batch : List ContentRecord) : Prop where
  own : ∀ id, ∀ record ∈ batch, ∀ other ∈ batch, Uses db batch record.sourceHash id →
    Uses db batch other.sourceHash id → record.sourceHash = other.sourceHash
  stored : ∀ record ∈ batch, db.records[record.id]? ≠ none →
    db.sourceIndex[record.sourceHash]? = some record.id

/-- While the batch is inserted into `start`: the map is what is seen for its sources, and every other
id is as it was. -/
structure Mirrors (start : Db) (batch : List ContentRecord) (db : Db)
    (m : String → Option ContentRecord) : Prop where
  others : ∀ id : String, (∀ record ∈ batch, ¬ Uses start batch record.sourceHash id) →
    db.records[id]? = start.records[id]?
  used : ∀ record ∈ batch, ∀ id, db.sourceIndex[record.sourceHash]? = some id →
    Uses start batch record.sourceHash id
  only : ∀ record ∈ batch, ∀ id, Uses start batch record.sourceHash id → db.records[id]? ≠ none →
    db.sourceIndex[record.sourceHash]? = some id
  kept : ∀ record ∈ batch, seen db record.sourceHash = m record.sourceHash

namespace Mirrors
variable {start db : Db} {batch : List ContentRecord} {m : String → Option ContentRecord}

theorem initial (hids : OwnIds start batch) : Mirrors start batch start (seen start) where
  others _ _ := rfl
  used _ _ _ hnamed := .inl hnamed
  only := by
    rintro record - id (hnamed | ⟨other, hother, hsource, rfl⟩) hrow
    · exact hnamed
    · rw [← hsource]
      exact hids.stored other hother hrow
  kept _ _ := rfl

variable {ed : Ed25519} (store : Store ed) {record : ContentRecord}

/-- A record that is not skipped is written, and what the dedup saw for its source is gone. -/
theorem get_stored {db' : Db} (hskips : ¬ Store.Skips db record)
    (hstored : store.StoredContent db record db') (id : String) :
    db'.records[id]? = if record.id = id then some (store.signed record)
      else if db.sourceIndex[record.sourceHash]? = some id then none else db.records[id]? := by
  rw [hstored.records, OrderedTable.get_insert]
  congr 1
  unfold Store.recordsBefore
  cases hdedup : dedupResult db record with
  | none =>
    by_cases hnamed : db.sourceIndex[record.sourceHash]? = some id
    · rw [if_pos hnamed]
      exact dedupResult_eq_none.mp hdedup id hnamed
    · rw [if_neg hnamed]
  | some found =>
    obtain ⟨oldId, newer⟩ := found
    cases newer with
    | false => exact absurd ⟨oldId, hdedup⟩ hskips
    | true =>
      obtain ⟨-, hnamed, -⟩ := dedupResult_eq_some.mp hdedup
      rw [hnamed]
      simp only [Option.some.injEq]
      exact OrderedTable.get_erase _ _ _

/-- A record that is skipped gives way in the map too. -/
theorem offer_skipped (h : Mirrors start batch db m) (hrecord : store.signed record ∈ batch)
    (hskips : Store.Skips db record) :
    offer ContentRecord.sourceHash ContentRecord.createdAt m (store.signed record) = m := by
  obtain ⟨present, hpresent, hle⟩ := Store.skips_iff.mp hskips
  have hkept := h.kept _ hrecord
  rw [store.signed_sourceHash, hpresent] at hkept
  funext source
  rw [offer_apply, store.signed_sourceHash, store.signed_createdAt]
  refine if_neg ?_
  rintro ⟨rfl, hnewer⟩
  exact Nat.not_lt.mpr hle (hnewer present hkept.symm)

/-- An id that is not of its source is as it was. -/
theorem get_unused (h : Mirrors start batch db m) (hrecord : store.signed record ∈ batch)
    (hskips : ¬ Store.Skips db record) {db' : Db} (hstored : store.StoredContent db record db')
    {id : String} (hunused : ¬ Uses start batch record.sourceHash id) :
    db'.records[id]? = db.records[id]? := by
  have hused := h.used _ hrecord id
  rw [store.signed_sourceHash] at hused
  rw [get_stored store hskips hstored, if_neg, if_neg]
  · exact fun hnamed => hunused (hused hnamed)
  · rintro rfl
    exact hunused (.inr ⟨_, hrecord, store.signed_sourceHash record, store.signed_id record⟩)

/-- A record that is not skipped takes its source over in the map too. -/
theorem offer_stored (h : Mirrors start batch db m) (hrecord : store.signed record ∈ batch)
    (hskips : ¬ Store.Skips db record) (source : String) :
    offer ContentRecord.sourceHash ContentRecord.createdAt m (store.signed record) source =
      if source = record.sourceHash then some (store.signed record) else m source := by
  have hkept := h.kept _ hrecord
  rw [store.signed_sourceHash] at hkept
  rw [offer_apply, store.signed_sourceHash, store.signed_createdAt]
  by_cases hsource : source = record.sourceHash
  · have hnewer : ∀ present, m source = some present → present.createdAt < record.createdAt := by
      intro present hpresent
      rw [hsource, ← hkept] at hpresent
      by_contra hle
      exact hskips (Store.skips_iff.mpr ⟨present, hpresent, Nat.not_lt.mp hle⟩)
    rw [if_pos ⟨hsource, hnewer⟩, if_pos hsource]
  · rw [if_neg fun h => hsource h.1, if_neg hsource]

theorem stored (hids : OwnIds start batch) (h : Mirrors start batch db m)
    (hrecord : store.signed record ∈ batch) (hskips : ¬ Store.Skips db record) {db' : Db}
    (hstored : store.StoredContent db record db') :
    Mirrors start batch db'
      (offer ContentRecord.sourceHash ContentRecord.createdAt m (store.signed record)) := by
  have hget := get_stored store hskips hstored
  have hindex : ∀ source : String, db'.sourceIndex[source]? =
      if record.sourceHash = source then some record.id else db.sourceIndex[source]? := by
    intro source
    rw [hstored.sourceIndex, OrderedTable.get_insert]
  -- what another source of the batch uses is not touched
  have hother : ∀ other ∈ batch, record.sourceHash ≠ other.sourceHash → ∀ id,
      Uses start batch other.sourceHash id → db'.records[id]? = db.records[id]? := by
    intro other hother hsource id huses
    refine h.get_unused store hrecord hskips hstored fun hrecordUses => hsource ?_
    rw [← store.signed_sourceHash record] at hrecordUses ⊢
    exact hids.own id _ hrecord other hother hrecordUses huses
  constructor
  · intro id hunused
    have hrecordUnused := hunused _ hrecord
    rw [store.signed_sourceHash] at hrecordUnused
    rw [h.get_unused store hrecord hskips hstored hrecordUnused]
    exact h.others id hunused
  · intro other hmem id hid
    rw [hindex] at hid
    split at hid
    · next hsource =>
      obtain rfl := Option.some.inj hid
      refine .inr ⟨_, hrecord, ?_, store.signed_id record⟩
      rw [store.signed_sourceHash, hsource]
    · exact h.used other hmem id hid
  · intro other hmem id huses hrow
    rw [hindex]
    by_cases hsource : record.sourceHash = other.sourceHash
    · rw [if_pos hsource]
      by_contra hne
      have hid : record.id ≠ id := fun heq => hne (congrArg some heq)
      rw [hget, if_neg hid, hsource] at hrow
      by_cases hcurrent : db.sourceIndex[other.sourceHash]? = some id
      · exact hrow (if_pos hcurrent)
      · rw [if_neg hcurrent] at hrow
        exact hcurrent (h.only other hmem id huses hrow)
    · rw [if_neg hsource]
      rw [hother other hmem hsource id huses] at hrow
      exact h.only other hmem id huses hrow
  · intro other hmem
    rw [h.offer_stored store hrecord hskips]
    by_cases hsource : record.sourceHash = other.sourceHash
    · rw [if_pos hsource.symm, seen, hindex, if_pos hsource, Option.bind_some, hget, if_pos rfl]
    · rw [if_neg (Ne.symm hsource), ← h.kept other hmem, seen, seen, hindex, if_neg hsource]
      cases hcurrent : db.sourceIndex[other.sourceHash]? with
      | none => rfl
      | some id =>
        rw [Option.bind_some, Option.bind_some]
        exact hother other hmem hsource id (h.used other hmem id hcurrent)

/-- An insert that succeeds offers its record to the map. -/
theorem insertRecord (hids : OwnIds start batch) (h : Mirrors start batch db m)
    (hrecord : store.signed record ∈ batch) {result : InsertResult}
    (hok : ((store.insertRecord record).run db).2 = .ok result) :
    Mirrors start batch ((store.insertRecord record).run db).1
      (offer ContentRecord.sourceHash ContentRecord.createdAt m (store.signed record)) := by
  obtain ⟨-, e, hrun⟩ | ⟨-, hskips, hrun⟩ | ⟨-, hskips, hstored, -⟩ :=
    store.insertRecord_ends record db
  · rw [hrun] at hok
    cases hok
  · rw [hrun, h.offer_skipped store hrecord hskips]
    exact h
  · exact stored store hids h hrecord hskips hstored

end Mirrors

/-! ## The end of a batch -/

section
variable {ed : Ed25519} (store : Store ed)

/-- What is stored for a record that a runner makes. -/
def asStored (made : ContentRecord) : ContentRecord :=
  store.signed { made with
    id := sanitizeString made.id
    sourceUrl := sanitizeString made.sourceUrl
    sourceHash := sanitizeString made.sourceHash
    schema := sanitizeString made.schema
    tags := made.tags.map sanitizeString
    body := sanitizeString made.body }

theorem signed_sanitized {made record : ContentRecord} (h : sanitizeRecord made = .ok record) :
    store.signed record = asStored store made := by
  obtain ⟨-, tags, htags, rfl⟩ := sanitizeRecord_eq_ok.mp h
  obtain ⟨rfl, -⟩ := mapM_sanitizeTag_eq_ok htags
  rfl

/-- What the dedup sees for a source after the batch: the first of the newest of what it saw before
and the records of the source. -/
def latest (start : Db) (batch : List ContentRecord) (source : String) : Option ContentRecord :=
  ((seen start source).toList ++ batch.filter fun record => record.sourceHash = source).argmax
    ContentRecord.createdAt

variable {store} {start : Db} {batch : List ContentRecord}

theorem insertAll_mirrors (hids : OwnIds start batch) (made : List ContentRecord)
    (hmade : ∀ record ∈ made, asStored store record ∈ batch) {db : Db}
    {m : String → Option ContentRecord} (h : Mirrors start batch db m) (counts : BatchResult)
    {result : BatchResult} (hok : ((insertAll store made counts).run db).2 = .ok result) :
    Mirrors start batch ((insertAll store made counts).run db).1
      ((made.map (asStored store)).foldl
        (offer ContentRecord.sourceHash ContentRecord.createdAt) m) := by
  induction made generalizing db m counts with
  | nil => exact h
  | cons record made ih =>
    rw [insertAll] at hok ⊢
    cases hsanitized : sanitizeRecord record with
    | error e =>
      rw [hsanitized] at hok
      cases hok
    | ok clean =>
      rw [hsanitized] at hok
      dsimp only at hok ⊢
      have hsigned := signed_sanitized store hsanitized
      have hclean : store.signed clean ∈ batch := by
        rw [hsigned]
        exact hmade record List.mem_cons_self
      rw [Client.run_andThen] at hok ⊢
      cases hrun : (store.insertRecord clean).run db with
      | mk db' out =>
        rw [hrun] at hok
        cases out with
        | err e => cases hok
        | panic => cases hok
        | ok kind =>
          dsimp only at hok ⊢
          have hstep := h.insertRecord store hids hclean (by rw [hrun])
          rw [hrun, hsigned] at hstep
          exact ih (fun r hr => hmade r (List.mem_cons_of_mem record hr)) hstep _ hok

variable {made : List ContentRecord} {counts result : BatchResult}

/-- A batch that is inserted leaves for each of its sources the latest record. -/
theorem insertAll_seen (hids : OwnIds start (made.map (asStored store)))
    (hok : ((insertAll store made counts).run start).2 = .ok result) {record : ContentRecord}
    (hrecord : record ∈ made.map (asStored store)) :
    seen ((insertAll store made counts).run start).1 record.sourceHash =
      latest start (made.map (asStored store)) record.sourceHash := by
  have hmirrors := insertAll_mirrors hids made (fun r hr => List.mem_map_of_mem hr)
    (Mirrors.initial hids) counts hok
  rw [hmirrors.kept record hrecord, foldl_offer_eq_argmax]
  rfl

/-- A record that was stored before the batch is there after it exactly if no record of the batch for
whose source it is seen is newer. -/
theorem insertAll_spares_iff (hdb : SourceIndexed start)
    (hids : OwnIds start (made.map (asStored store)))
    (hok : ((insertAll store made counts).run start).2 = .ok result) {id : String}
    {old : ContentRecord} (hold : start.records[id]? = some old) :
    ((insertAll store made counts).run start).1.records[id]? = some old ↔
      ∀ record ∈ made.map (asStored store), seen start record.sourceHash = some old →
        record.createdAt ≤ old.createdAt := by
  have hinitial := Mirrors.initial hids
  have hmirrors := insertAll_mirrors hids made (fun r hr => List.mem_map_of_mem hr) hinitial counts hok
  have hdb' := (SourceIndexed.insertAll_keeps store made counts).run hdb
  obtain ⟨holdId, -⟩ := hdb id old hold
  -- where it is seen, `source_index` names it
  have hnamed : ∀ db : Db, SourceIndexed db → ∀ source, seen db source = some old →
      db.sourceIndex[source]? = some id ∧ db.records[id]? = some old := by
    intro db hdb source hseen
    obtain ⟨found, hfound, hrow⟩ := seen_eq_some.mp hseen
    obtain rfl : found = id := by rw [← (hdb found old hrow).1, holdId]
    exact ⟨hfound, hrow⟩
  by_cases hused : ∃ record ∈ made.map (asStored store),
      Uses start (made.map (asStored store)) record.sourceHash id
  · obtain ⟨record, hrecord, huses⟩ := hused
    have hentry : start.sourceIndex[record.sourceHash]? = some id :=
      hinitial.only record hrecord id huses (by simp [hold])
    have hseen : seen start record.sourceHash = some old := seen_eq_some.mpr ⟨id, hentry, hold⟩
    have hstays : ((insertAll store made counts).run start).1.records[id]? = some old ↔
        latest start (made.map (asStored store)) record.sourceHash = some old := by
      rw [← insertAll_seen hids hok hrecord]
      constructor
      · intro hrow
        have hcurrent := hmirrors.only record hrecord id huses (by simp [hrow])
        exact seen_eq_some.mpr ⟨id, hcurrent, hrow⟩
      · exact fun hlast => (hnamed _ hdb' _ hlast).2
    rw [hstays, latest, hseen, Option.toList_some, List.singleton_append, argmax_cons_eq_head_iff]
    constructor
    · intro hnewest other hother hotherSeen
      have hsource := hids.own id other hother record hrecord (.inl (hnamed _ hdb _ hotherSeen).1) huses
      exact hnewest other (List.mem_filter.mpr ⟨hother, decide_eq_true hsource⟩)
    · intro hnewest other hother
      obtain ⟨hmem, hsource⟩ := List.mem_filter.mp hother
      refine hnewest other hmem ?_
      rw [of_decide_eq_true hsource]
      exact hseen
  · push Not at hused
    refine iff_of_true ?_ fun record hrecord hseen => ?_
    · rw [hmirrors.others id hused]
      exact hold
    · exact absurd (.inl (hnamed _ hdb _ hseen).1) (hused record hrecord)

end

end DSearch
