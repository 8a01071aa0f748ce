import DSearch.Node.Convergence
import DSearch.Node.Provenance

/-! # What the nodes of a network know of a source

The tables of every node hold a map of records that were published, whatever is received and lost. What
a node knows of a source never gets older, as long as the node removes nothing itself. -/

namespace DSearch
set_option autoImplicit false
open Transaction Replicas Records NewestWins

/-! ## Inserts into the tables of a map -/

theorem insertRecordTx_overQuota {record : ContentRecord} {config : Option StorageConfig} {db : Db}
    (h : overQuota db record config = true) : (insertRecordTx record config db).1 = db := by
  obtain ⟨_, -, heq⟩ | ⟨-, -, heq⟩ | ⟨_, -, hfits, -⟩ | ⟨-, hfits, -⟩ :=
    insertRecordTx_cases record config db
  · rw [heq]
  · rw [heq]
  · rw [h] at hfits
    cases hfits
  · rw [h] at hfits
    cases hfits

theorem insertRecordTx_within {record : ContentRecord} {config : Option StorageConfig} {db : Db}
    (h : overQuota db record config = false) :
    insertRecordTx record config db = insertRecordTx record none db := by
  have hnone : overQuota db record none = false := rfl
  unfold insertRecordTx
  cases dedupResult db record with
  | none => simp [h, hnone]
  | some found =>
    obtain ⟨id, newer⟩ := found
    cases newer <;> simp [h, hnone]

theorem SourceMap.step_insert_ok (m : SourceMap) {record : ContentRecord}
    (h : record.validateSize = .ok ()) : (m.step (.insert record)).1 =
      { m with entry := offer ContentRecord.sourceHash ContentRecord.createdAt m.entry record } := by
  rw [step, h]

theorem SourceMap.step_insert_error (m : SourceMap) {record : ContentRecord}
    (h : record.validateSize ≠ .ok ()) : (m.step (.insert record)).1 = m := by
  rw [step]
  cases hout : record.validateSize with
  | error e => rfl
  | ok _ => exact absurd hout h

namespace Represents
variable {ed : Ed25519} (store : Store ed) {db : Db} {m : SourceMap}

/-- An insert is an insert into the map, or the quota refuses it. -/
theorem insertRecord (h : Represents db m) {record : ContentRecord}
    (hids : (store.signed record).validateSize = .ok () → ∀ source r, m.entry source = some r →
      r.id = record.id → r.sourceHash = record.sourceHash) :
    ∃ m', Represents ((store.insertRecord record).run db).1 m' ∧
      (m' = (m.step (.insert (store.signed record))).1 ∨ m' = m ∧ store.config.quotaMb ≠ 0) := by
  have htables := store.insertRecord_tables record db
  rw [Records.insertRecord_run] at htables
  cases hsize : (store.signed record).validateSize with
  | error e =>
    rw [hsize] at htables
    refine ⟨m, h.of_onlyIndexChanged htables, .inl ?_⟩
    rw [SourceMap.step, hsize]
  | ok _ =>
    have hinserted : Represents ((RecordsOp.insert (store.signed record) none).run db).1
        (m.step (.insert (store.signed record))).1 := by
      refine (h.insert_call (by simp) ?_).1
      rw [store.signed_id, store.signed_sourceHash]
      exact hids hsize
    rw [RecordsOp.run_insert, hsize] at hinserted
    rw [hsize] at htables
    cases hquota : overQuota db (store.signed record) (some store.config) with
    | false =>
      dsimp only at htables
      rw [insertRecordTx_within hquota] at htables
      exact ⟨_, hinserted.of_onlyIndexChanged htables, .inl rfl⟩
    | true =>
      dsimp only at htables
      rw [insertRecordTx_overQuota hquota] at htables
      refine ⟨m, h.of_onlyIndexChanged htables, .inr ⟨rfl, fun hzero => ?_⟩⟩
      simp [overQuota, hzero] at hquota

/-- A removal leaves part of the map. -/
theorem removed (h : Represents db m) {rows : List (String × String)}
    (hrows : ∀ row ∈ rows, ∃ r, db.records[row.1]? = some r ∧ r.sourceHash = row.2) :
    ∃ m', Represents (Records.removeRows rows db) m' ∧
      ∀ source r, m'.entry source = some r → m.entry source = some r :=
  ⟨_, h.removeRows hrows, fun _ _ hr => (SourceMap.without_eq_some.mp hr).1⟩

/-- Every call of the store leaves the tables of a map, with nothing new but what it inserts. -/
theorem storeOp (h : Represents db m) {op : StoreOp}
    (hids : ∀ record, op = .insert record → (store.signed record).validateSize = .ok () →
      ∀ source r, m.entry source = some r → r.id = record.id → r.sourceHash = record.sourceHash) :
    ∃ m', Represents (op.run store db).1 m' ∧ ∀ source r, m'.entry source = some r →
      m.entry source = some r ∨ ∃ record, op = .insert record ∧ r = store.signed record ∧
        r.validateSize = .ok () := by
  cases op with
  | insert record =>
    obtain ⟨m', hm', hstep | ⟨hsame, -⟩⟩ := h.insertRecord store (hids record rfl)
    · refine ⟨m', by rwa [StoreOp.run_insert], fun source r hr => ?_⟩
      rw [hstep] at hr
      by_cases hsize : (store.signed record).validateSize = .ok ()
      · rcases SourceMap.step_entry hr with hold | hnew
        · exact .inl hold
        · obtain rfl := SourceOp.insert.inj hnew
          exact .inr ⟨record, rfl, rfl, hsize⟩
      · rw [m.step_insert_error hsize] at hr
        exact .inl hr
    · refine ⟨m', by rwa [StoreOp.run_insert], fun source r hr => .inl ?_⟩
      rwa [hsame] at hr
  | delete id =>
    have hdeleted := (h.delete_call id).1
    rw [RecordsOp.run_delete] at hdeleted
    refine ⟨(m.step (.delete id)).1, ?_, fun source r hr => ?_⟩
    · rw [StoreOp.run_delete, Store.deleteRecord_run]
      cases hrow : db.records[id]? with
      | none =>
        rw [hrow] at hdeleted
        exact hdeleted
      | some record =>
        rw [hrow] at hdeleted
        exact hdeleted.of_onlyIndexChanged (Index.deindexRecord_onlyIndexChanged _ _ _ _)
    · rcases SourceMap.step_entry hr with hold | hnew
      · exact .inl hold
      · cases hnew
  | pin id now =>
    refine ⟨_, (h.pin_call id now).1, fun source r hr => ?_⟩
    rcases SourceMap.step_entry hr with hold | hnew
    · exact .inl hold
    · cases hnew
  | unpin id =>
    refine ⟨_, (h.unpin_call id).1, fun source r hr => ?_⟩
    rcases SourceMap.step_entry hr with hold | hnew
    · exact .inl hold
    · cases hnew
  | sweep now =>
    refine ⟨_, (h.sweep_call now).1, fun source r hr => ?_⟩
    rcases SourceMap.step_entry hr with hold | hnew
    · exact .inl hold
    · cases hnew
  | evict needed =>
    rw [StoreOp.run_evict]
    have hstored : ∀ row ∈ (Quota.victims needed db).1,
        ∃ r, db.records[row.1]? = some r ∧ r.sourceHash = row.2 := by
      intro row hrow
      obtain ⟨c, hc, rfl, -⟩ := Quota.mem_victims.mp hrow
      obtain ⟨r, hr, -, hcand⟩ := Quota.mem_candidates.mp hc
      exact ⟨r, hr, (congrArg Quota.Candidate.sourceHash hcand).symm⟩
    obtain ⟨m', hm', hsub⟩ := h.removed hstored
    exact ⟨m', hm', fun source r hr => .inl (hsub source r hr)⟩

theorem insertAnnouncement (h : Represents db m) (ann : Announcement) :
    Represents ((store.insertAnnouncement ann).run db).1 m := by
  rw [Store.insertAnnouncement_run]
  cases (store.signedAnnouncement ann).validateSize with
  | error e => exact h
  | ok _ => exact ⟨h.keyed, h.stored, h.indexed, h.pinned⟩

end Represents

namespace Network
variable {ι : Type} {ed : Ed25519} (nodes : ι → NetNode ed) (read : PayloadReader)
  (fromStr : Bytes → Except String ContentRecord)

/-! ## What the nodes hold -/

/-- The records that the calls of a run insert, as their nodes store them, if they are not too large. -/
def published (steps : Steps ι) : List ContentRecord :=
  (steps.filterMap fun
    | .call i (.store (.insert record)) => some ((nodes i).store.signed record)
    | _ => none).filter fun record => record.validateSize = .ok ()

theorem mem_published {steps : Steps ι} {r : ContentRecord} : r ∈ published nodes steps ↔
    ∃ i record, .call i (.store (.insert record)) ∈ steps ∧ r = (nodes i).store.signed record ∧
      r.validateSize = .ok () := by
  rw [published, List.mem_filter, decide_eq_true_eq, List.mem_filterMap]
  constructor
  · rintro ⟨⟨s, hs, hsome⟩, hsize⟩
    split at hsome
    · exact ⟨_, _, hs, (Option.some.inj hsome).symm, hsize⟩
    · cases hsome
  · rintro ⟨i, record, hs, rfl, hsize⟩
    exact ⟨⟨_, hs, rfl⟩, hsize⟩

/-- Records that are stored and forwarded as they are: signed, read back, and no id is used for two
sources. -/
structure Replicable (records : List ContentRecord) : Prop where
  signed : ∀ r ∈ records, r.sig ≠ ""
  reads : ∀ r ∈ records, ReadsBack nodes read fromStr r
  ids : ∀ a ∈ records, ∀ b ∈ records, a.id = b.id → a.sourceHash = b.sourceHash

/-- The tables hold a map of some of the records. -/
def Holding (records : List ContentRecord) (db : Db) : Prop :=
  ∃ m, Represents db m ∧ ∀ source r, m.entry source = some r → r ∈ records

/-- A frame about one of the records. -/
inductive Forwarded (records : List ContentRecord) (m : Packet ι) : Prop
  | push (r : ContentRecord) (h : r ∈ records) (frame : m.frame = pushFrame r)
  | announce (i : ι) (r : ContentRecord) (h : r ∈ records)
      (frame : m.frame = announceFrame (nodes i).listenAddr r)
  | ack (h : isAck m.frame.msgType = true)

/-- A record of the source is stored that is at least as new. -/
def Knows (record : ContentRecord) (db : Db) : Prop :=
  ∃ (id : String) (kept : ContentRecord), db.records[id]? = some kept ∧
    kept.sourceHash = record.sourceHash ∧ record.createdAt ≤ kept.createdAt

theorem knows_iff {db : Db} {m : SourceMap} (h : Represents db m) {record : ContentRecord} :
    Knows record db ↔
      ∃ kept, m.entry record.sourceHash = some kept ∧ record.createdAt ≤ kept.createdAt := by
  constructor
  · rintro ⟨id, kept, hkept, hsource, hle⟩
    obtain ⟨-, hentry⟩ := (h.stored id kept).mp hkept
    exact ⟨kept, hsource ▸ hentry, hle⟩
  · rintro ⟨kept, hentry, hle⟩
    exact ⟨kept.id, kept, h.entry_stored hentry, h.keyed _ _ hentry, hle⟩

variable {nodes read fromStr} {records : List ContentRecord}

namespace Holding
variable {db : Db}

theorem empty : Holding records Db.empty := by
  refine ⟨SourceMap.empty, Represents.empty, fun source r hr => ?_⟩
  cases hr

theorem listed (h : Holding records db) {schema : Option String} {limit : ℕ} {r : ContentRecord}
    (hr : r ∈ Records.listRecords db schema limit) : r ∈ records := by
  obtain ⟨m, hm, hfrom⟩ := h
  obtain ⟨id, hid⟩ := mem_listRecords hr
  exact hfrom _ _ ((hm.stored id r).mp hid).2

/-- What is inserted is among the records, and so nothing of another source is lost. -/
theorem insertRecord (h : Holding records db) (store : Store ed) {record : ContentRecord}
    (hids : ∀ a ∈ records, ∀ b ∈ records, a.id = b.id → a.sourceHash = b.sourceHash)
    (hrecord : (store.signed record).validateSize = .ok () → store.signed record ∈ records) :
    Holding records ((store.insertRecord record).run db).1 ∧
      (∀ a, Knows a db → Knows a ((store.insertRecord record).run db).1) ∧
      (store.config.quotaMb = 0 → (store.signed record).validateSize = .ok () →
        Knows (store.signed record) ((store.insertRecord record).run db).1) := by
  obtain ⟨m, hm, hfrom⟩ := h
  have hapart : (store.signed record).validateSize = .ok () → ∀ source r,
      m.entry source = some r → r.id = record.id → r.sourceHash = record.sourceHash := by
    intro hsize source r hr hid
    have hsame := hids r (hfrom source r hr) _ (hrecord hsize)
    rw [store.signed_id, store.signed_sourceHash] at hsame
    exact hsame hid
  obtain ⟨m', hm', hstep | ⟨hsame, hquota⟩⟩ := hm.insertRecord store hapart
  · by_cases hsize : (store.signed record).validateSize = .ok ()
    · rw [hstep, m.step_insert_ok hsize] at hm'
      refine ⟨⟨_, hm', fun source r hr => ?_⟩, fun a ha => ?_, fun _ _ => ?_⟩
      · dsimp only at hr
        rw [offer_apply] at hr
        split at hr
        · rw [← Option.some.inj hr]
          exact hrecord hsize
        · exact hfrom source r hr
      · obtain ⟨kept, hkept, hle⟩ := (knows_iff hm).mp ha
        obtain ⟨newer, hnewer, hle'⟩ := offer_keeps ContentRecord.sourceHash
          ContentRecord.createdAt hkept (store.signed record)
        exact (knows_iff hm').mpr ⟨newer, hnewer, hle.trans hle'⟩
      · exact (knows_iff hm').mpr
          (offer_self ContentRecord.sourceHash ContentRecord.createdAt m.entry (store.signed record))
    · rw [hstep, m.step_insert_error hsize] at hm'
      refine ⟨⟨m, hm', hfrom⟩, fun a ha => ?_, fun _ hok => absurd hok hsize⟩
      exact (knows_iff hm').mpr ((knows_iff hm).mp ha)
  · rw [hsame] at hm'
    refine ⟨⟨m, hm', hfrom⟩, fun a ha => ?_, fun hzero => absurd hzero hquota⟩
    exact (knows_iff hm').mpr ((knows_iff hm).mp ha)

/-- The calls of the store leave records of the run; those that remove nothing take no source back. -/
theorem storeOp (h : Holding records db) {store : Store ed} {op : StoreOp}
    (hids : ∀ a ∈ records, ∀ b ∈ records, a.id = b.id → a.sourceHash = b.sourceHash)
    (hrecord : ∀ record, op = .insert record → (store.signed record).validateSize = .ok () →
      store.signed record ∈ records) : Holding records (op.run store db).1 := by
  obtain ⟨m, hm, hfrom⟩ := h
  have hapart : ∀ record, op = .insert record → (store.signed record).validateSize = .ok () →
      ∀ source r, m.entry source = some r → r.id = record.id → r.sourceHash = record.sourceHash := by
    intro record hop hsize source r hr hid
    have hsame := hids r (hfrom source r hr) _ (hrecord record hop hsize)
    rw [store.signed_id, store.signed_sourceHash] at hsame
    exact hsame hid
  obtain ⟨m', hm', hnew⟩ := hm.storeOp store hapart
  refine ⟨m', hm', fun source r hr => ?_⟩
  rcases hnew source r hr with hold | ⟨record, hop, rfl, hsize⟩
  · exact hfrom source r hold
  · exact hrecord record hop hsize

end Holding

/-- The calls that may take a record away and put none in its place. -/
def removes : NodeCall ι → Bool
  | .store (.delete _) => true
  | .store (.sweep _) => true
  | .store (.evict _) => true
  | _ => false

theorem holding_inductive {steps : Steps ι}
    (hrep : Replicable nodes read fromStr (published nodes steps)) :
    Inductive (protocol nodes read fromStr) (fun i op => .call i op ∈ steps)
      (fun _ s => Holding (published nodes steps) s.db) (Forwarded nodes (published nodes steps)) where
  call i op s hop h := by
    cases op with
    | store op =>
      refine ⟨h.storeOp hrep.ids fun record hinsert hsize => ?_, fun m hm => absurd hm List.not_mem_nil⟩
      exact (mem_published nodes).mpr ⟨i, record, hinsert ▸ hop, rfl, hsize⟩
    | announce ann =>
      obtain ⟨m, hm, hfrom⟩ := h
      exact ⟨⟨m, hm.insertAnnouncement _ ann, hfrom⟩, fun m hm => absurd hm List.not_mem_nil⟩
    | announceTo peer written =>
      refine ⟨h, fun m hm => ?_⟩
      obtain ⟨f, hf, rfl⟩ := List.mem_map.mp hm
      obtain ⟨r, hr, rfl⟩ := List.mem_map.mp (mem_of_mem_writeAll hf)
      exact .announce i r (h.listed hr) rfl
    | pushTo peer written =>
      refine ⟨h, fun m hm => ?_⟩
      obtain ⟨f, hf, rfl⟩ := List.mem_map.mp hm
      obtain ⟨r, hr, rfl⟩ := List.mem_map.mp (mem_of_mem_writeAll hf)
      exact .push r (h.listed hr) rfl
  receive m s hm h := by
    change Holding (published nodes steps) (receive nodes read fromStr m s).1.db ∧
      ∀ reply ∈ (receive nodes read fromStr m s).2, Forwarded nodes (published nodes steps) reply
    by_cases hfits : m.frame.payload.length ≤ MAX_PAYLOAD_SIZE
    · cases hm with
      | push r hr hframe =>
        obtain ⟨hstate, hacks⟩ := receive_push hframe (hrep.reads r hr) hfits s
        rw [hstate]
        refine ⟨(h.insertRecord _ hrep.ids fun _ => ?_).1, fun reply hreply => .ack (hacks reply hreply)⟩
        rwa [Store.signed_of_sig _ (hrep.signed r hr)]
      | announce i r hr hframe =>
        obtain ⟨hstate, hacks⟩ := receive_announce hframe (hrep.reads r hr) hfits s
        rw [hstate]
        obtain ⟨m, hm, hfrom⟩ := h
        exact ⟨⟨m, hm.insertAnnouncement _ _, hfrom⟩, fun reply hreply => .ack (hacks reply hreply)⟩
      | ack hack =>
        rw [receive_ack hack]
        exact ⟨h, fun reply hreply => absurd hreply List.not_mem_nil⟩
    · rw [receive_large hfits]
      exact ⟨h, fun reply hreply => absurd hreply List.not_mem_nil⟩

section
variable {steps : Steps ι}

/-- No call that removes nothing takes away what is known of a source. -/
theorem knows_call (hrep : Replicable nodes read fromStr (published nodes steps)) {i : ι}
    {op : NodeCall ι} (hop : .call i op ∈ steps) (hkeeps : removes op = false) {s : NodeState}
    (h : Holding (published nodes steps) s.db) {record : ContentRecord} (hknows : Knows record s.db) :
    Knows record (call nodes i op s).1.db := by
  cases op with
  | store op =>
    change Knows record (op.run (nodes i).store s.db).1
    cases op with
    | insert inserted =>
      rw [StoreOp.run_insert]
      refine (h.insertRecord _ hrep.ids fun hsize => ?_).2.1 record hknows
      exact (mem_published nodes).mpr ⟨i, inserted, hop, rfl, hsize⟩
    | pin id now =>
      rw [StoreOp.run_pin]
      split <;> exact hknows
    | unpin id => exact hknows
    | delete id => cases hkeeps
    | sweep now => cases hkeeps
    | evict needed => cases hkeeps
  | announce ann =>
    obtain ⟨m, hm, -⟩ := h
    exact (knows_iff (hm.insertAnnouncement _ ann)).mpr ((knows_iff hm).mp hknows)
  | announceTo peer written => exact hknows
  | pushTo peer written => exact hknows

/-- Nor does any frame. -/
theorem knows_receive (hrep : Replicable nodes read fromStr (published nodes steps)) {m : Packet ι}
    (hm : Forwarded nodes (published nodes steps) m) {s : NodeState}
    (h : Holding (published nodes steps) s.db) {record : ContentRecord} (hknows : Knows record s.db) :
    Knows record (receive nodes read fromStr m s).1.db := by
  by_cases hfits : m.frame.payload.length ≤ MAX_PAYLOAD_SIZE
  · cases hm with
    | push r hr hframe =>
      rw [(receive_push hframe (hrep.reads r hr) hfits s).1]
      refine (h.insertRecord _ hrep.ids fun _ => ?_).2.1 record hknows
      rwa [Store.signed_of_sig _ (hrep.signed r hr)]
    | announce i r hr hframe =>
      rw [(receive_announce hframe (hrep.reads r hr) hfits s).1]
      obtain ⟨map, hmap, -⟩ := h
      exact (knows_iff (hmap.insertAnnouncement _ _)).mpr ((knows_iff hmap).mp hknows)
    | ack hack =>
      rw [receive_ack hack]
      exact hknows
  · rw [receive_large hfits]
    exact hknows

/-- A push of something as new makes it known, where no quota refuses it. -/
theorem knows_told (hrep : Replicable nodes read fromStr (published nodes steps)) {m : Packet ι}
    {kept : ContentRecord} (hkept : kept ∈ published nodes steps) (hframe : m.frame = pushFrame kept)
    (hfits : m.frame.payload.length ≤ MAX_PAYLOAD_SIZE) {s : NodeState}
    (h : Holding (published nodes steps) s.db) (hquota : (nodes m.dst).store.config.quotaMb = 0) :
    Knows kept (receive nodes read fromStr m s).1.db := by
  obtain ⟨_, _, _, _, hsize⟩ := (mem_published nodes).mp hkept
  have hsigned : (nodes m.dst).store.signed kept = kept :=
    Store.signed_of_sig _ (hrep.signed kept hkept)
  have hinserted := (h.insertRecord (nodes m.dst).store hrep.ids fun _ => hsigned ▸ hkept).2.2 hquota
  rw [hsigned] at hinserted
  rw [(receive_push hframe (hrep.reads kept hkept) hfits s).1]
  exact hinserted hsize

end

/-- What a packet tells of a source: a record of it that is at least as new. -/
def Tells (records : List ContentRecord) (record : ContentRecord) (m : Packet ι) : Prop :=
  ∃ kept ∈ records, m.frame = pushFrame kept ∧ m.frame.payload.length ≤ MAX_PAYLOAD_SIZE ∧
    kept.sourceHash = record.sourceHash ∧ record.createdAt ≤ kept.createdAt

/-- A call of the run that removes nothing. -/
def Keeping (steps : Steps ι) (i : ι) (op : NodeCall ι) : Prop :=
  .call i op ∈ steps ∧ removes op = false

/-- What is known of a source stays known, and spreads with the pushes. -/
theorem knows_spreading {steps : Steps ι}
    (hrep : Replicable nodes read fromStr (published nodes steps))
    (hquota : ∀ i, (nodes i).store.config.quotaMb = 0) (record : ContentRecord) :
    Spreading (protocol nodes read fromStr) (Keeping steps)
      (fun _ s => Holding (published nodes steps) s.db) (Forwarded nodes (published nodes steps))
      (fun _ s => Knows record s.db) (Tells (published nodes steps) record) where
  call _ _ _ hop h hknows := knows_call hrep hop.1 hop.2 h hknows
  receive _ _ hm h hknows := knows_receive hrep hm h hknows
  told m s _ h htells := by
    obtain ⟨kept, hkept, hframe, hfits, hsource, hle⟩ := htells
    obtain ⟨id, newest, hnewest, hsource', hle'⟩ :=
      knows_told hrep hkept hframe hfits h (hquota m.dst)
    exact ⟨id, newest, hnewest, hsource'.trans hsource, hle.trans hle'⟩

/-- Without a quota or with one: a node that removes nothing never falls back. -/
theorem knows_keeping {steps : Steps ι}
    (hrep : Replicable nodes read fromStr (published nodes steps)) (i : ι) (record : ContentRecord) :
    Spreading (protocol nodes read fromStr)
      (fun j op => .call j op ∈ steps ∧ (j = i → removes op = false))
      (fun _ s => Holding (published nodes steps) s.db) (Forwarded nodes (published nodes steps))
      (fun j s => j = i → Knows record s.db) (fun _ => False) where
  call _ _ _ hop h hknows := fun hi => knows_call hrep hop.1 (hop.2 hi) h (hknows hi)
  receive _ _ hm h hknows := fun hi => knows_receive hrep hm h (hknows hi)
  told _ _ _ _ htells := htells.elim

variable (nodes) in
theorem start_within {records : List ContentRecord} :
    (start : Net ι NodeState (Packet ι)).Within (fun _ s => Holding records s.db)
      (Forwarded nodes records) :=
  ⟨fun _ => Holding.empty, fun _ hm => absurd hm List.not_mem_nil⟩

section
variable [DecidableEq ι] (nodes read fromStr)

/-- What a node has of a source at some time, it has later as new or newer, whatever it receives and
whatever is lost, as long as it removes nothing itself. -/
theorem newest_never_lost (before later : Steps ι)
    (hrep : Replicable nodes read fromStr (published nodes (before ++ later))) (i : ι)
    (hkeeps : ∀ op, .call i op ∈ later → removes op = false) (id : String) (record : ContentRecord)
    (hstored :
      ((run (protocol nodes read fromStr) start before).node i).db.records[id]? = some record) :
    Knows record ((run (protocol nodes read fromStr) start (before ++ later)).node i).db := by
  have hI := holding_inductive hrep
  have hbefore := hI.run (start_within nodes) fun j op hop => List.mem_append_left later hop
  have hlater : Calls (fun j op => .call j op ∈ before ++ later ∧ (j = i → removes op = false))
      later := by
    intro j op hop
    refine ⟨List.mem_append_right before hop, ?_⟩
    rintro rfl
    exact hkeeps op hop
  rw [run_append]
  refine (knows_keeping hrep i record).run_keeps (hI.mono fun j op hop => hop.1) hbefore hlater ?_ rfl
  exact fun _ => ⟨id, record, hstored, rfl, le_rfl⟩

end

/-- Two nodes insert a record of one source each. -/
def oneEach : Steps Bool :=
  [.call false (.store (.insert (signedRecord "r1" 1))),
    .call true (.store (.insert (signedRecord "r2" 2)))]

theorem run_oneEach (read : PayloadReader) (fromStr : Bytes → Except String ContentRecord) :
    ((run (protocol plainNodes read fromStr) start oneEach).node false).db =
        ((plainStore.insertRecord (signedRecord "r1" 1)).run Db.empty).1 ∧
      ((run (protocol plainNodes read fromStr) start oneEach).node true).db =
        ((plainStore.insertRecord (signedRecord "r2" 2)).run Db.empty).1 := by
  rw [oneEach, run_cons, run_cons, run_nil, step, step, Net.moved_ne _ (show false ≠ true by decide),
    Net.moved_self, Net.moved_self, Net.moved_ne _ (show true ≠ false by decide), call_insert,
    call_insert]
  exact ⟨rfl, rfl⟩

theorem published_oneEach :
    published plainNodes oneEach = [signedRecord "r1" 1, signedRecord "r2" 2] := by
  have hvalid₁ : (signedRecord "r1" 1).validateSize = .ok () :=
    (signedRecord_short (by decide) (by decide)).validateSize
  have hvalid₂ : (signedRecord "r2" 2).validateSize = .ok () :=
    (signedRecord_short (by decide) (by decide)).validateSize
  refine List.filter_eq_self.mpr fun r hr => decide_eq_true ?_
  rcases List.mem_pair.mp hr with rfl | rfl
  · exact hvalid₁
  · exact hvalid₂

theorem replicable_oneEach : Replicable (plainNodes : Bool → _)
    (.ofRecords [signedRecord "r1" 1, signedRecord "r2" 2])
    (recordOf [signedRecord "r1" 1, signedRecord "r2" 2]) (published plainNodes oneEach) := by
  rw [published_oneEach]
  constructor
  · decide +kernel
  · exact fun r hr => readsBack_ofRecords (by decide) hr
  · decide +kernel

/-- The second node pushes what it has. -/
def sentBack : Steps Bool := [.call true (.pushTo false fun _ => .ok ()), .deliver 0]

theorem newest_never_lost_sentBack :
    Knows (signedRecord "r1" 1)
      ((run (protocol plainNodes (.ofRecords [signedRecord "r1" 1, signedRecord "r2" 2])
        (recordOf [signedRecord "r1" 1, signedRecord "r2" 2])) start
        (oneEach ++ sentBack)).node false).db := by
  have hpublished : published plainNodes (oneEach ++ sentBack) = published plainNodes oneEach := rfl
  have hrep := replicable_oneEach
  rw [← hpublished] at hrep
  have hkeeps : ∀ op, .call false op ∈ sentBack → removes op = false := by
    intro op hop
    simp [sentBack] at hop
  have hstored : ((run (protocol plainNodes (.ofRecords [signedRecord "r1" 1, signedRecord "r2" 2])
      (recordOf [signedRecord "r1" 1, signedRecord "r2" 2])) start oneEach).node false).db.records["r1"]? =
        some (signedRecord "r1" 1) := by
    have htaken : ¬ plainStore.Refuses Db.empty (signedRecord "r1" 1) :=
      plainStore.not_refuses rfl ((signedRecord_short (by decide) (by decide)).validateSize) Db.empty
    have hinserted := plainStore.insertRecord_stores htaken
    rw [plainStore.signed_of_sig (show (signedRecord "r1" 1).sig ≠ "" by decide)] at hinserted
    rw [(run_oneEach _ _).1]
    exact hinserted
  exact newest_never_lost plainNodes _ _ oneEach sentBack hrep false hkeeps "r1" _ hstored

end Network

end DSearch
