import DSearch.Node.Network
import DSearch.Storage.AnnouncementKeys
import DSearch.Storage.Expiry
import DSearch.Storage.InsertEnds

/-! # Nothing is made up on the way

Whatever the nodes of a network do, and whatever is lost, a record that is stored somewhere was inserted
somewhere by a call, and differs from what was inserted at most by the signature of a node that got it
unsigned. An announcement was made by a call, or names a record that goes round and a node. -/

namespace DSearch
set_option autoImplicit false
open Transaction Replicas Sign

theorem Index.OnlyIndexChanged.announcements {db db' : Db} (h : OnlyIndexChanged db db') :
    db'.announcements = db.announcements := by
  unfold OnlyIndexChanged at h
  have hannouncements := congrArg Db.announcements h
  exact hannouncements

/-! ## Signatures are added once -/

namespace Store
variable {ed : Ed25519}

/-- What a store leaves unsigned it leaves as it is. -/
theorem signed_of_unsigned (store : Store ed) {record : ContentRecord}
    (h : (store.signed record).sig = "") : store.signed record = record := by
  unfold signed at h ⊢
  cases hkey : store.signingKey with
  | none => rfl
  | some key =>
    by_cases hsig : record.sig = ""
    · rw [hkey] at h
      dsimp only at h
      rw [if_pos hsig] at h
      exact absurd h (toHex_ne_empty _)
    · exact if_neg hsig

/-- A second store signs what the first has left unsigned, and nothing else. -/
theorem signed_signed (store store' : Store ed) (record : ContentRecord) :
    store'.signed (store.signed record) = store.signed record ∨
      store'.signed (store.signed record) = store'.signed record := by
  by_cases hsig : (store.signed record).sig = ""
  · exact .inr (by rw [store.signed_of_unsigned hsig])
  · exact .inl (store'.signed_of_sig hsig)

variable (store : Store ed)

theorem insertRecord_announcements (record : ContentRecord) (db : Db) :
    ((store.insertRecord record).run db).1.announcements = db.announcements := by
  rw [(store.insertRecord_tables record db).announcements, Records.insertRecord_run]
  cases (store.signed record).validateSize with
  | error e => rfl
  | ok _ =>
    obtain ⟨_, -, heq⟩ | ⟨-, -, heq⟩ | ⟨_, -, -, heq⟩ | ⟨-, -, heq⟩ :=
      Records.insertRecordTx_cases (store.signed record) (some store.config) db
    all_goals
      dsimp only
      rw [heq]

end Store

/-! ## Where the rows of a store come from -/

namespace StoreOp
variable {ed : Ed25519} {store : Store ed}

theorem insertRecord_records {record r : ContentRecord} {db : Db} {id : String}
    (h : ((store.insertRecord record).run db).1.records[id]? = some r) :
    db.records[id]? = some r ∨ (id = record.id ∧ r = store.signed record) := by
  obtain ⟨-, e, hrun⟩ | ⟨-, -, hrun⟩ | ⟨-, -, hstored, -⟩ := store.insertRecord_ends record db
  · rw [hrun] at h
    exact .inl h
  · rw [hrun] at h
    exact .inl h
  · rw [hstored.records] at h
    rcases OrderedTable.get_insert_eq_some.mp h with ⟨hid, hr⟩ | ⟨-, hold⟩
    · exact .inr ⟨hid.symm, hr.symm⟩
    · rw [Store.recordsBefore] at hold
      split at hold
      · exact .inl (OrderedTable.get_erase_eq_some.mp hold).2
      · exact .inl hold

/-- A call of the store adds no record but the one that it inserts. -/
theorem run_records {op : StoreOp} {db : Db} {id : String} {r : ContentRecord}
    (h : (op.run store db).1.records[id]? = some r) :
    db.records[id]? = some r ∨ ∃ record, op = .insert record ∧ id = record.id ∧
      r = store.signed record := by
  cases op with
  | insert record =>
    rw [run_insert] at h
    rcases insertRecord_records h with hold | ⟨hid, hr⟩
    · exact .inl hold
    · exact .inr ⟨record, rfl, hid, hr⟩
  | delete id' =>
    refine .inl ?_
    rw [run_delete, Store.deleteRecord_run] at h
    cases hrow : db.records[id']? with
    | none =>
      rw [hrow] at h
      exact h
    | some record =>
      rw [hrow] at h
      dsimp only at h
      rw [(Index.deindexRecord_onlyIndexChanged _ _ _ _).records] at h
      exact (OrderedTable.get_erase_eq_some.mp h).2
  | pin id' now =>
    rw [run_pin] at h
    split at h <;> exact .inl h
  | unpin id' => exact .inl h
  | sweep now =>
    rw [run_sweep] at h
    exact .inl (Records.removeRows_records_eq_some.mp h).2
  | evict needed =>
    rw [run_evict] at h
    exact .inl (Records.removeRows_records_eq_some.mp h).2

theorem run_announcements (op : StoreOp) (db : Db) :
    (op.run store db).1.announcements = db.announcements := by
  cases op with
  | insert record =>
    rw [run_insert]
    exact store.insertRecord_announcements record db
  | delete id' =>
    rw [run_delete, Store.deleteRecord_run]
    cases db.records[id']? with
    | none => rfl
    | some record =>
      exact (Index.deindexRecord_onlyIndexChanged _ _ _ _).announcements
  | pin id' now =>
    rw [run_pin]
    split <;> rfl
  | unpin id' => rfl
  | sweep now =>
    rw [run_sweep]
    exact Records.removeRows_announcements _ _
  | evict needed =>
    rw [run_evict]
    exact Records.removeRows_announcements _ _

end StoreOp

namespace Network
variable {ι : Type} {ed : Ed25519} (nodes : ι → NetNode ed) (read : PayloadReader)
  (fromStr : Bytes → Except String ContentRecord)

abbrev Steps (ι : Type) : Type := List (Step ι (NodeCall ι))

/-- The record is one that a call of the run inserts, as the store of some node keeps it. -/
def Circulating (steps : Steps ι) (record : ContentRecord) : Prop :=
  ∃ i inserted j, .call i (.store (.insert inserted)) ∈ steps ∧
    record = (nodes j).store.signed inserted

/-- The announcement is one that a call of the run makes, or says of a circulating record that a node
holds it. -/
def Announced (steps : Steps ι) (ann : Announcement) : Prop :=
  (∃ i made, .call i (.announce made) ∈ steps ∧ ann = (nodes i).store.signedAnnouncement made) ∨
    ∃ i record j, Circulating nodes steps record ∧ ann = (nodes j).store.signedAnnouncement
      (connectAnnouncement (nodes i).listenAddr record)

/-- Only rows of this origin, each under its key. -/
structure Sourced (steps : Steps ι) (db : Db) : Prop where
  records : ∀ (id : String) (record : ContentRecord), db.records[id]? = some record →
    record.id = id ∧ Circulating nodes steps record
  announcements : ∀ (key : String) (ann : Announcement), db.announcements[key]? = some ann →
    announcementKey ann = key ∧ Announced nodes steps ann

/-- A frame that a node of the network writes. -/
inductive Sent (steps : Steps ι) (m : Packet ι) : Prop
  | push (record : ContentRecord) (h : Circulating nodes steps record)
      (frame : m.frame = pushFrame record)
  | announce (i : ι) (record : ContentRecord) (h : Circulating nodes steps record)
      (frame : m.frame = announceFrame (nodes i).listenAddr record)
  | ack (h : isAck m.frame.msgType = true)

variable {nodes} {steps : Steps ι}

theorem Circulating.signed {record : ContentRecord} (h : Circulating nodes steps record) (k : ι) :
    Circulating nodes steps ((nodes k).store.signed record) := by
  obtain ⟨i, inserted, j, hcall, rfl⟩ := h
  rcases (nodes j).store.signed_signed (nodes k).store inserted with hsame | hsame
  · exact ⟨i, inserted, j, hcall, hsame⟩
  · exact ⟨i, inserted, k, hcall, hsame⟩

theorem Sourced.empty : Sourced nodes steps Db.empty := by
  constructor
  · intro id record h
    simp [Db.empty] at h
  · intro key ann h
    simp [Db.empty] at h

theorem Sourced.insertRecord {db : Db} (h : Sourced nodes steps db) {j : ι} {record : ContentRecord}
    (hrecord : Circulating nodes steps ((nodes j).store.signed record)) :
    Sourced nodes steps (((nodes j).store.insertRecord record).run db).1 where
  records id r hr := by
    rcases StoreOp.insertRecord_records hr with hold | ⟨rfl, rfl⟩
    · exact h.records id r hold
    · exact ⟨(nodes j).store.signed_id record, hrecord⟩
  announcements key ann hann := by
    rw [(nodes j).store.insertRecord_announcements] at hann
    exact h.announcements key ann hann

theorem Sourced.insertAnnouncement {db : Db} (h : Sourced nodes steps db) {j : ι}
    {ann : Announcement} (hann : Announced nodes steps ((nodes j).store.signedAnnouncement ann)) :
    Sourced nodes steps (((nodes j).store.insertAnnouncement ann).run db).1 := by
  rw [Store.insertAnnouncement_run]
  cases ((nodes j).store.signedAnnouncement ann).validateSize with
  | error e => exact h
  | ok _ =>
    refine ⟨h.records, fun key stored hstored => ?_⟩
    rcases OrderedTable.get_insert_eq_some.mp hstored with ⟨rfl, rfl⟩ | ⟨-, hold⟩
    · refine ⟨?_, hann⟩
      obtain ⟨sig, hsigned⟩ := (nodes j).store.signedAnnouncement_eq ann
      rw [hsigned]
      rfl
    · exact h.announcements key stored hold

theorem Sourced.storeOp {db : Db} (h : Sourced nodes steps db) {i : ι} {op : StoreOp}
    (hop : .call i (.store op) ∈ steps) : Sourced nodes steps (op.run (nodes i).store db).1 where
  records id r hr := by
    rcases StoreOp.run_records hr with hold | ⟨record, rfl, rfl, rfl⟩
    · exact h.records id r hold
    · exact ⟨(nodes i).store.signed_id record, i, record, i, hop, rfl⟩
  announcements key ann hann := by
    rw [StoreOp.run_announcements] at hann
    exact h.announcements key ann hann

theorem mem_listRows {schema : Option String} {limit : ℕ} {results rows : List ContentRecord}
    {r : ContentRecord} (h : r ∈ Records.listRows schema limit results rows) :
    r ∈ results ∨ r ∈ rows := by
  induction rows generalizing results with
  | nil => exact .inl h
  | cons row rows ih =>
    rw [Records.listRows] at h
    split at h
    · rcases ih h with hr | hr
      · exact .inl hr
      · exact .inr (List.mem_cons_of_mem row hr)
    · have hadded : r ∈ results ++ [row] → r ∈ results ∨ r ∈ row :: rows := by
        intro hr
        rcases List.mem_append.mp hr with hr | hr
        · exact .inl hr
        · exact .inr (List.mem_cons.mpr (.inl (List.mem_singleton.mp hr)))
      dsimp only at h
      split at h
      · exact hadded h
      · rcases ih h with hr | hr
        · exact hadded hr
        · exact .inr (List.mem_cons_of_mem row hr)

theorem mem_listRecords {db : Db} {schema : Option String} {limit : ℕ} {r : ContentRecord}
    (h : r ∈ Records.listRecords db schema limit) : ∃ id : String, db.records[id]? = some r := by
  rcases mem_listRows h with hr | hr
  · cases hr
  · obtain ⟨row, hrow, rfl⟩ := List.mem_map.mp hr
    exact ⟨row.1, Std.ExtTreeMap.mem_toList_iff_getElem?_eq_some.mp hrow⟩

theorem Sourced.listed {db : Db} (h : Sourced nodes steps db) {schema : Option String} {limit : ℕ}
    {r : ContentRecord} (hr : r ∈ Records.listRecords db schema limit) :
    Circulating nodes steps r := by
  obtain ⟨id, hid⟩ := mem_listRecords hr
  exact (h.records id r hid).2

variable {read fromStr}

/-- No call and no reception of a node brings in anything else. -/
theorem sourced_inductive (hreads : ∀ record, Circulating nodes steps record →
    ReadsBack nodes read fromStr record) :
    Inductive (protocol nodes read fromStr) (fun i op => .call i op ∈ steps)
      (fun _ s => Sourced nodes steps s.db) (Sent nodes steps) where
  call i op s hop h := by
    cases op with
    | store op => exact ⟨h.storeOp hop, fun m hm => absurd hm List.not_mem_nil⟩
    | announce ann =>
      exact ⟨h.insertAnnouncement (.inl ⟨i, ann, hop, rfl⟩), fun m hm => absurd hm List.not_mem_nil⟩
    | announceTo peer written =>
      refine ⟨h, fun m hm => ?_⟩
      obtain ⟨f, hf, rfl⟩ := List.mem_map.mp hm
      obtain ⟨record, hrecord, rfl⟩ := List.mem_map.mp (mem_of_mem_writeAll hf)
      exact .announce i record (h.listed hrecord) rfl
    | pushTo peer written =>
      refine ⟨h, fun m hm => ?_⟩
      obtain ⟨f, hf, rfl⟩ := List.mem_map.mp hm
      obtain ⟨record, hrecord, rfl⟩ := List.mem_map.mp (mem_of_mem_writeAll hf)
      exact .push record (h.listed hrecord) rfl
  receive m s hm h := by
    change Sourced nodes steps (receive nodes read fromStr m s).1.db ∧
      ∀ reply ∈ (receive nodes read fromStr m s).2, Sent nodes steps reply
    by_cases hfits : m.frame.payload.length ≤ MAX_PAYLOAD_SIZE
    · cases hm with
      | push record hrecord hframe =>
        obtain ⟨hstate, hacks⟩ := receive_push hframe (hreads record hrecord) hfits s
        rw [hstate]
        exact ⟨h.insertRecord (hrecord.signed m.dst), fun reply hreply => .ack (hacks reply hreply)⟩
      | announce i record hrecord hframe =>
        obtain ⟨hstate, hacks⟩ := receive_announce hframe (hreads record hrecord) hfits s
        rw [hstate]
        exact ⟨h.insertAnnouncement (.inr ⟨i, record, m.dst, hrecord, rfl⟩),
          fun reply hreply => .ack (hacks reply hreply)⟩
      | ack hack =>
        rw [receive_ack hack]
        exact ⟨h, fun reply hreply => absurd hreply List.not_mem_nil⟩
    · rw [receive_large hfits]
      exact ⟨h, fun reply hreply => absurd hreply List.not_mem_nil⟩

variable [DecidableEq ι] (nodes read fromStr steps)

/-- After any run, every row of every node was inserted or announced by a call of the run, up to the
signature of a node that got it unsigned, and stands under its own key. -/
theorem network_provenance (hreads : ∀ record, Circulating nodes steps record →
    ReadsBack nodes read fromStr record) (i : ι) :
    Sourced nodes steps ((run (protocol nodes read fromStr) start steps).node i).db := by
  have hstart : (start : Net ι NodeState (Packet ι)).Within (fun _ s => Sourced nodes steps s.db)
      (Sent nodes steps) :=
    ⟨fun _ => Sourced.empty, fun m hm => absurd hm List.not_mem_nil⟩
  exact ((sourced_inductive hreads).run hstart fun _ _ hop => hop).node i

/-- A record is inserted at one node, announced and pushed to the other, and deleted at the first. -/
def pushedOn (record : ContentRecord) : Steps Bool :=
  [.call false (.store (.insert record)), .call false (.announceTo true fun _ => .ok ()),
    .call false (.pushTo true fun _ => .ok ()), .deliver 1, .lose 0,
    .call false (.store (.delete record.id)), .deliver 0]

theorem network_provenance_pushedOn :
    Sourced plainNodes (pushedOn (makeRecord "r1" "sh1" 1 5000))
      ((run (protocol plainNodes (.ofRecords [makeRecord "r1" "sh1" 1 5000])
        (recordOf [makeRecord "r1" "sh1" 1 5000])) start
        (pushedOn (makeRecord "r1" "sh1" 1 5000))).node true).db := by
  refine network_provenance plainNodes _ _ _ (fun record hrecord => ?_) true
  obtain ⟨i, inserted, j, hcall, hsigned⟩ := hrecord
  have hinserted : inserted = makeRecord "r1" "sh1" 1 5000 := by
    have hboth : i = false ∧ inserted = makeRecord "r1" "sh1" 1 5000 := by
      simpa [pushedOn] using hcall
    exact hboth.2
  have hplain : record = inserted := hsigned
  rw [hplain, hinserted]
  exact readsBack_ofRecords (List.nodup_singleton _) List.mem_cons_self

end Network

end DSearch
