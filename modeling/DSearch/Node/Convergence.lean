import DSearch.Node.Messages
import DSearch.Storage.Refinement

/-! # Two nodes that receive the same records

Pushed records go through the dedup of `insert_record`, which keeps the newest record of each source
and, among records of one age, the first. Without such ties, and if the receivers would sign in the
same way what is unsigned, the order of the pushes does not matter. -/

namespace DSearch
set_option autoImplicit false
open Transaction Node Records NewestWins

variable {ed : Ed25519} (store : Store ed) (fromStr : Bytes → Except String ContentRecord)

def receiveAll (received : List ContentRecord) (db : Db) : Db :=
  received.foldl (fun db record => ((handleReplicatePush store fromStr (pushRecord record)).run db).1) db

/-- The pushed records that fit, as the node stores them. -/
def acceptable (received : List ContentRecord) : List ContentRecord :=
  (received.map store.signed).filter fun record => record.validateSize = .ok ()

def NoSourceTies (records : List ContentRecord) : Prop :=
  NoTies ContentRecord.sourceHash ContentRecord.createdAt records

instance (records : List ContentRecord) : Decidable (NoSourceTies records) :=
  inferInstanceAs (Decidable (∀ _ ∈ _, ∀ _ ∈ _, _ → _ → _))

def IdsDistinct (records : List ContentRecord) : Prop :=
  (records.map ContentRecord.id).Nodup

instance (records : List ContentRecord) : Decidable (IdsDistinct records) :=
  inferInstanceAs (Decidable (List.Nodup _))

theorem Represents.of_onlyIndexChanged {db db' : Db} {m : SourceMap} (h : Represents db m)
    (hdb' : Index.OnlyIndexChanged db db') : Represents db' m := by
  unfold Index.OnlyIndexChanged at hdb'
  rw [← hdb'] at h
  exact ⟨h.keyed, h.stored, h.indexed, h.pinned⟩

theorem Represents.receive {db : Db} {m : SourceMap} (h : Represents db m) {record : ContentRecord}
    (hquota : store.config.quotaMb = 0) (hjson : fromStr record.toJson = .ok record)
    (hfresh : ∀ source r, m.entry source = some r → r.id ≠ record.id) :
    Represents ((handleReplicatePush store fromStr (pushRecord record)).run db).1
      (m.step (.insert (store.signed record))).1 := by
  rw [handleReplicatePush_run store fromStr (show fromStr (pushRecord record).recordJson = _ from hjson)]
  refine Represents.of_onlyIndexChanged ?_ (store.insertRecord_tables record db)
  have hunlimited : ∀ cfg, some store.config = some cfg → cfg.quotaMb = 0 := by
    intro cfg hcfg
    rw [← Option.some.inj hcfg]
    exact hquota
  have hids : ∀ source r, m.entry source = some r → r.id = (store.signed record).id →
      r.sourceHash = (store.signed record).sourceHash := by
    intro source r hr hid
    rw [store.signed_id] at hid
    exact absurd hid (hfresh source r hr)
  have hinserted := h.insert_call hunlimited hids
  rw [RecordsOp.run, RecordsOp.client, Client.run_andThen_done] at hinserted
  exact hinserted.1

/-- After all pushes each source has what is left of offering its acceptable records in order. -/
theorem Represents.receiveAll {db : Db} {m : SourceMap} (h : Represents db m)
    {received : List ContentRecord} (hquota : store.config.quotaMb = 0)
    (hjson : ∀ record ∈ received, fromStr record.toJson = .ok record) (hids : IdsDistinct received)
    (hfresh : ∀ record ∈ received, ∀ source r, m.entry source = some r → r.id ≠ record.id) :
    Represents (receiveAll store fromStr received db) { m with
      entry := (acceptable store received).foldl
        (offer ContentRecord.sourceHash ContentRecord.createdAt) m.entry } := by
  induction received generalizing db m with
  | nil => exact h
  | cons record received ih =>
    obtain ⟨hnew, hids⟩ := List.nodup_cons.mp hids
    have hpushed := h.receive store fromStr hquota (hjson record List.mem_cons_self)
      (hfresh record List.mem_cons_self)
    have hjson' : ∀ r ∈ received, fromStr r.toJson = .ok r := by
      intro r hr
      exact hjson r (List.mem_cons_of_mem record hr)
    have hfresh' : ∀ r ∈ received, ∀ source kept,
        (m.step (.insert (store.signed record))).1.entry source = some kept → kept.id ≠ r.id := by
      intro r hr source kept hkept
      rcases SourceMap.step_entry hkept with hold | hinserted
      · exact hfresh r (List.mem_cons_of_mem record hr) source kept hold
      · obtain rfl := SourceOp.insert.inj hinserted
        rw [store.signed_id]
        intro hid
        exact hnew (hid ▸ List.mem_map_of_mem hr)
    have hrest := ih hpushed hjson' hids hfresh'
    rw [SourceMap.step] at hrest
    unfold acceptable at hrest ⊢
    cases hsize : (store.signed record).validateSize with
    | error e =>
      rw [hsize] at hrest
      simpa [DSearch.receiveAll, hsize] using hrest
    | ok _ =>
      rw [hsize] at hrest
      simpa [DSearch.receiveAll, hsize] using hrest

theorem represents_received {received : List ContentRecord} (hquota : store.config.quotaMb = 0)
    (hjson : ∀ record ∈ received, fromStr record.toJson = .ok record) (hids : IdsDistinct received) :
    Represents (receiveAll store fromStr received Db.empty) { SourceMap.empty with
      entry := (acceptable store received).foldl
        (offer ContentRecord.sourceHash ContentRecord.createdAt) SourceMap.empty.entry } := by
  refine Represents.empty.receiveAll store fromStr hquota hjson hids ?_
  intro record _ source r hr
  cases hr

theorem Represents.records_eq {db₁ db₂ : Db} {m₁ m₂ : SourceMap} (h₁ : Represents db₁ m₁)
    (h₂ : Represents db₂ m₂) (hentry : m₁.entry = m₂.entry) : db₁.records = db₂.records := by
  refine Std.ExtTreeMap.ext_getElem? fun id => Option.ext fun record => ?_
  rw [h₁.stored, h₂.stored, hentry]

/-! ## Any two orders -/

theorem acceptable_perm {store₁ store₂ : Store ed} {l₁ l₂ : List ContentRecord}
    (hperm : l₁.Perm l₂)
    (hsig : ∀ record ∈ l₁, record.sig ≠ "" ∨ store₁.signingKey = store₂.signingKey) :
    (acceptable store₁ l₁).Perm (acceptable store₂ l₂) := by
  have hsame : l₁.map store₁.signed = l₁.map store₂.signed := by
    refine List.map_congr_left fun record hrecord => ?_
    rcases hsig record hrecord with hsigned | hkey
    · rw [store₁.signed_of_sig hsigned, store₂.signed_of_sig hsigned]
    · rw [Store.signed, Store.signed, hkey]
  unfold acceptable
  rw [hsame]
  exact (hperm.map _).filter _

theorem acceptable_noTies {received : List ContentRecord} (h : NoSourceTies received) :
    NoSourceTies (acceptable store received) := by
  have hfrom : ∀ r ∈ acceptable store received, ∃ record ∈ received, store.signed record = r :=
    fun r hr => List.mem_map.mp (List.mem_of_mem_filter hr)
  intro a ha b hb hsource hage
  obtain ⟨recordA, hA, rfl⟩ := hfrom a ha
  obtain ⟨recordB, hB, rfl⟩ := hfrom b hb
  rw [store.signed_sourceHash, store.signed_sourceHash] at hsource
  rw [store.signed_createdAt, store.signed_createdAt] at hage
  have hsame := h recordA hA recordB hB hsource hage
  rw [hsame]

/-- The records that a node without a quota ends with: the newest acceptable one of each source. -/
theorem receiveAll_newest (received : List ContentRecord) (hquota : store.config.quotaMb = 0)
    (hjson : ∀ record ∈ received, fromStr record.toJson = .ok record) (hids : IdsDistinct received)
    (hties : NoSourceTies received) (record : ContentRecord) :
    (receiveAll store fromStr received Db.empty).records[record.id]? = some record ↔
      record ∈ acceptable store received ∧ ∀ other ∈ acceptable store received,
        other.sourceHash = record.sourceHash → other.createdAt ≤ record.createdAt := by
  have hrep := represents_received store fromStr hquota hjson hids
  rw [hrep.stored]
  simp only [SourceMap.empty, true_and]
  rw [foldl_offer_eq_some _ _ (acceptable_noTies store hties)]
  simp

/-- Two nodes without a quota that receive the same records, with distinct ids and no two of one
source and age, end with the same records, whatever the orders; what is unsigned needs receivers
with the same signing key. -/
theorem pushes_converge (store₁ store₂ : Store ed) (l₁ l₂ : List ContentRecord)
    (hquota₁ : store₁.config.quotaMb = 0) (hquota₂ : store₂.config.quotaMb = 0)
    (hperm : l₁.Perm l₂) (hjson : ∀ record ∈ l₁, fromStr record.toJson = .ok record)
    (hids : IdsDistinct l₁) (hties : NoSourceTies l₁)
    (hsig : ∀ record ∈ l₁, record.sig ≠ "" ∨ store₁.signingKey = store₂.signingKey) :
    (receiveAll store₁ fromStr l₁ Db.empty).records =
      (receiveAll store₂ fromStr l₂ Db.empty).records := by
  have h₁ := represents_received store₁ fromStr hquota₁ hjson hids
  have h₂ := represents_received store₂ fromStr hquota₂
    (fun record hrecord => hjson record (hperm.mem_iff.mpr hrecord))
    ((hperm.map ContentRecord.id).nodup_iff.mp hids)
  refine h₁.records_eq h₂ ?_
  exact foldl_offer_perm _ _ (acceptable_perm hperm hsig) (acceptable_noTies store₁ hties) _

def readerOf (r₁ r₂ : ContentRecord) (json : Bytes) : Except String ContentRecord :=
  if json = r₁.toJson then .ok r₁ else if json = r₂.toJson then .ok r₂ else .error "not a record"

theorem readerOf_reads {r₁ r₂ : ContentRecord} (hne : r₂.toJson ≠ r₁.toJson) :
    ∀ record ∈ [r₁, r₂], readerOf r₁ r₂ record.toJson = .ok record := by
  intro record hrecord
  rcases List.mem_pair.mp hrecord with rfl | rfl
  · exact if_pos rfl
  · rw [readerOf, if_neg hne, if_pos rfl]

def signedRecord (id : String) (createdAt : ℕ) : ContentRecord :=
  { makeRecord id "sh1" createdAt 5000 with sig := "00" }

theorem signedRecord_short {id : String} {createdAt : ℕ} (hid : id.utf8ByteSize ≤ 8000)
    (hcreated : createdAt < 10 ^ 20) : (signedRecord id createdAt).Short :=
  makeRecord_short "00" hid (by decide) (by decide) hcreated (by decide)

theorem readerOf_signed {id id' : String} (hids : id' ≠ id) (createdAt createdAt' : ℕ) :
    ∀ record ∈ [signedRecord id createdAt, signedRecord id' createdAt'],
      readerOf (signedRecord id createdAt) (signedRecord id' createdAt') record.toJson = .ok record :=
  readerOf_reads fun h => hids (ContentRecord.id_of_toJson h)

theorem pushes_converge_newerFirst :
    (receiveAll plainStore (readerOf (signedRecord "r1" 1) (signedRecord "r2" 2))
        [signedRecord "r1" 1, signedRecord "r2" 2] Db.empty).records =
      (receiveAll plainStore (readerOf (signedRecord "r1" 1) (signedRecord "r2" 2))
        [signedRecord "r2" 2, signedRecord "r1" 1] Db.empty).records :=
  pushes_converge _ plainStore plainStore _ _ rfl rfl (List.Perm.swap _ _ _)
    (readerOf_signed (by decide) 1 2) (by decide +kernel) (by decide +kernel) fun _ _ => .inr rfl

/-- Of two signed records of one source the first stays, if the second is not newer. -/
theorem receiveAll_pair {r₁ r₂ : ContentRecord} (hquota : store.config.quotaMb = 0)
    (hjson : ∀ record ∈ [r₁, r₂], fromStr record.toJson = .ok record) (hids : r₁.id ≠ r₂.id)
    (h₁ : r₁.sig ≠ "" ∧ r₁.validateSize = .ok ()) (h₂ : r₂.sig ≠ "" ∧ r₂.validateSize = .ok ())
    (hsource : r₂.sourceHash = r₁.sourceHash) (hage : r₂.createdAt ≤ r₁.createdAt)
    (record : ContentRecord) :
    (receiveAll store fromStr [r₁, r₂] Db.empty).records[record.id]? = some record ↔ record = r₁ := by
  have hdistinct : IdsDistinct [r₁, r₂] := by simp [IdsDistinct, hids]
  have hacceptable : acceptable store [r₁, r₂] = [r₁, r₂] := by
    simp [acceptable, store.signed_of_sig h₁.1, store.signed_of_sig h₂.1, h₁.2, h₂.2]
  have hrep := represents_received store fromStr hquota hjson hdistinct
  rw [hrep.stored, hacceptable]
  simp only [List.foldl_cons, List.foldl_nil, SourceMap.empty, offer, hsource, Function.update_self,
    if_pos hage, true_and]
  by_cases hsame : record.sourceHash = r₁.sourceHash
  · rw [hsame, Function.update_self, Option.some.injEq, eq_comm]
  · rw [Function.update_of_ne hsame]
    exact ⟨fun h => absurd h (by simp), fun h => absurd (congrArg ContentRecord.sourceHash h) hsame⟩

/-- Of two records of one age the first stays; and an unsigned record is stored with the signature of
the receiver. -/
theorem pushes_diverge :
    (¬ ∀ (ed : Ed25519) (store₁ store₂ : Store ed) (fromStr : Bytes → Except String ContentRecord)
      (l₁ l₂ : List ContentRecord), store₁.config.quotaMb = 0 → store₂.config.quotaMb = 0 →
      l₁.Perm l₂ → (∀ record ∈ l₁, fromStr record.toJson = .ok record) → IdsDistinct l₁ →
      (∀ record ∈ l₁, record.sig ≠ "" ∨ store₁.signingKey = store₂.signingKey) →
        (receiveAll store₁ fromStr l₁ Db.empty).records =
          (receiveAll store₂ fromStr l₂ Db.empty).records) ∧
    ¬ ∀ (ed : Ed25519) (store₁ store₂ : Store ed) (fromStr : Bytes → Except String ContentRecord)
      (l₁ l₂ : List ContentRecord), store₁.config.quotaMb = 0 → store₂.config.quotaMb = 0 →
      l₁.Perm l₂ → (∀ record ∈ l₁, fromStr record.toJson = .ok record) → IdsDistinct l₁ →
      NoSourceTies l₁ →
        (receiveAll store₁ fromStr l₁ Db.empty).records =
          (receiveAll store₂ fromStr l₂ Db.empty).records := by
  constructor
  · intro hclaim
    have hreads := readerOf_signed (show "r2" ≠ "r1" by decide) 1 1
    have hreads' : ∀ record ∈ [signedRecord "r2" 1, signedRecord "r1" 1],
        readerOf (signedRecord "r1" 1) (signedRecord "r2" 1) record.toJson = .ok record := by
      intro record hrecord
      exact hreads record ((List.Perm.swap _ _ _).mem_iff.mp hrecord)
    have hsame := hclaim .checksum plainStore plainStore
      (readerOf (signedRecord "r1" 1) (signedRecord "r2" 1))
      [signedRecord "r1" 1, signedRecord "r2" 1] [signedRecord "r2" 1, signedRecord "r1" 1] rfl rfl
      (List.Perm.swap _ _ _) hreads (by decide +kernel) fun _ _ => .inr rfl
    have haccepted₁ : (signedRecord "r1" 1).sig ≠ "" ∧ (signedRecord "r1" 1).validateSize = .ok () :=
      ⟨by decide, (signedRecord_short (by decide) (by decide)).validateSize⟩
    have haccepted₂ : (signedRecord "r2" 1).sig ≠ "" ∧ (signedRecord "r2" 1).validateSize = .ok () :=
      ⟨by decide, (signedRecord_short (by decide) (by decide)).validateSize⟩
    have hstored := (receiveAll_pair plainStore _ rfl hreads (by decide) haccepted₁ haccepted₂ rfl
      le_rfl (signedRecord "r1" 1)).mpr rfl
    rw [hsame] at hstored
    have hfirst := (receiveAll_pair plainStore _ rfl hreads' (by decide) haccepted₂ haccepted₁ rfl
      le_rfl (signedRecord "r1" 1)).mp hstored
    exact absurd (congrArg ContentRecord.id hfirst) (by decide)
  · intro hclaim
    let record := makeRecord "r1" "sh1" 1 5000
    have hreads : ∀ r ∈ [record], readerOf record record r.toJson = .ok r :=
      List.forall_mem_singleton.mpr (if_pos rfl)
    have hids : IdsDistinct [record] := List.nodup_singleton _
    have hties : NoSourceTies [record] := by
      intro a ha b hb _ _
      rw [List.mem_singleton.mp ha, List.mem_singleton.mp hb]
    let signing : Store .checksum := ⟨⟨0, ""⟩, some (1 : UInt8)⟩
    have hsame := hclaim .checksum plainStore signing (readerOf record record) [record] [record] rfl rfl
      (List.Perm.refl _) hreads hids hties
    have hvalid : record.validateSize = .ok () :=
      (makeRecord_short "" (by decide) (by decide) (by decide) (by decide) (by decide)).validateSize
    have hplain : acceptable plainStore [record] = [record] :=
      List.filter_eq_self.mpr (List.forall_mem_singleton.mpr (decide_eq_true hvalid))
    have hstored := (receiveAll_newest plainStore _ [record] rfl hreads hids hties record).mpr (by
      rw [hplain]
      exact ⟨List.mem_cons_self, List.forall_mem_singleton.mpr fun _ => le_rfl⟩)
    rw [hsame] at hstored
    have hmem := ((receiveAll_newest signing _ [record] rfl hreads hids hties record).mp hstored).1
    have hsigned := List.mem_singleton.mp (List.mem_of_mem_filter hmem)
    exact Sign.toHex_ne_empty _ (congrArg ContentRecord.sig hsigned).symm

end DSearch
