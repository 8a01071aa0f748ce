import DSearch.Storage.Capacity
import DSearch.Storage.Store

/-! # The two quota gates of an insert

`check_quota`, which the handlers call before an insert, counts the bytes of the body and follows
the quota action; the check inside `insert_record` counts the whole JSON text and always refuses.
`Quota.checkQuota_cases` says what the first gate can do, `Store.insertRecord_quotaError` when the
second one refuses. -/

namespace DSearch
set_option autoImplicit false
open Transaction Records

def StorageConfig.quotaBytes (config : StorageConfig) : ℕ := config.quotaMb * 1024 * 1024

namespace Quota

/-- The gate finds the store over its quota with the additional bytes. -/
def Over (config : StorageConfig) (additionalBytes : ℕ) (db : Db) : Prop :=
  0 < config.quotaMb ∧ config.quotaBytes < recordsSizeBytes db + additionalBytes

/-- The rows that the gate's eviction picks. -/
def gateVictims (config : StorageConfig) (additionalBytes : ℕ) (db : Db) : List (String × String) :=
  (victims (recordsSizeBytes db + additionalBytes - config.quotaBytes) db).1

/-- The store that the gate's eviction leaves. -/
def kept (config : StorageConfig) (additionalBytes : ℕ) (db : Db) : Db :=
  removeRows (gateVictims config additionalBytes db) db

/-- The ends of the gate: room, room after an eviction, not enough room after it, over the quota
but allowed, or refused. -/
theorem checkQuota_cases (config : StorageConfig) (additionalBytes : ℕ) (db : Db) :
    (¬ Over config additionalBytes db ∧
      (checkQuota config additionalBytes).run db = (db, .ok ())) ∨
    (Over config additionalBytes db ∧ config.quotaAction = "evict_oldest" ∧
      recordsSizeBytes (kept config additionalBytes db) + additionalBytes ≤ config.quotaBytes ∧
      (checkQuota config additionalBytes).run db = (kept config additionalBytes db, .ok ())) ∨
    (Over config additionalBytes db ∧ config.quotaAction = "evict_oldest" ∧
      config.quotaBytes < recordsSizeBytes (kept config additionalBytes db) + additionalBytes ∧
      ∃ e, (checkQuota config additionalBytes).run db =
        (kept config additionalBytes db, .err e)) ∨
    (Over config additionalBytes db ∧ config.quotaAction = "warn_only" ∧
      (checkQuota config additionalBytes).run db = (db, .ok ())) ∨
    (Over config additionalBytes db ∧ config.quotaAction ≠ "evict_oldest" ∧
      config.quotaAction ≠ "warn_only" ∧
      ∃ e, (checkQuota config additionalBytes).run db = (db, .err e)) := by
  unfold checkQuota
  by_cases hzero : config.quotaMb = 0
  · rw [if_pos hzero]
    exact .inl ⟨fun hover => by have := hover.1; omega, rfl⟩
  rw [if_neg hzero, Client.run_read]
  by_cases hover : recordsSizeBytes db + additionalBytes > config.quotaMb * 1024 * 1024
  · have hgate : Over config additionalBytes db := ⟨Nat.pos_of_ne_zero hzero, hover⟩
    dsimp only
    rw [if_pos hover]
    by_cases hevict : config.quotaAction = "evict_oldest"
    · rw [if_pos hevict, Client.run_andThen, evictOldest_run]
      dsimp only
      have hfreed := recordsSizeBytes_victims
        (recordsSizeBytes db + additionalBytes - config.quotaMb * 1024 * 1024) db
      have hleft : wrappingSub (recordsSizeBytes db + additionalBytes)
          (victims (recordsSizeBytes db + additionalBytes - config.quotaMb * 1024 * 1024) db).2 =
          recordsSizeBytes (kept config additionalBytes db) + additionalBytes := by
        unfold wrappingSub kept gateVictims StorageConfig.quotaBytes
        rw [if_pos (by omega)]
        omega
      rw [hleft]
      by_cases hstill : recordsSizeBytes (kept config additionalBytes db) + additionalBytes >
          config.quotaMb * 1024 * 1024
      · rw [if_pos hstill]
        exact .inr (.inr (.inl ⟨hgate, hevict, hstill, _, rfl⟩))
      · rw [if_neg hstill]
        exact .inr (.inl ⟨hgate, hevict, Nat.not_lt.mp hstill, rfl⟩)
    · rw [if_neg hevict]
      by_cases hpause : config.quotaAction = "pause_scraper"
      · rw [if_pos hpause]
        exact .inr (.inr (.inr (.inr ⟨hgate, hevict, by rw [hpause]; decide, _, rfl⟩)))
      · rw [if_neg hpause]
        by_cases hwarn : config.quotaAction = "warn_only"
        · rw [if_pos hwarn]
          exact .inr (.inr (.inr (.inl ⟨hgate, hwarn, rfl⟩)))
        · rw [if_neg hwarn]
          exact .inr (.inr (.inr (.inr ⟨hgate, hevict, hwarn, _, rfl⟩)))
  · dsimp only
    rw [if_neg hover]
    exact .inl ⟨fun hgate => hover hgate.2, rfl⟩

/-! ## What a gate deletes -/

instance (config : StorageConfig) (additionalBytes : ℕ) (db : Db) :
    Decidable (Over config additionalBytes db) :=
  inferInstanceAs (Decidable (_ ∧ _))

/-- The rows that a gate deletes. -/
def evicted (config : StorageConfig) (additionalBytes : ℕ) (db : Db) : List (String × String) :=
  if Over config additionalBytes db ∧ config.quotaAction = "evict_oldest" then
    gateVictims config additionalBytes db
  else []

theorem removeRows_evicted {config : StorageConfig} {additionalBytes : ℕ} {db : Db}
    (hgate : Over config additionalBytes db ∧ config.quotaAction = "evict_oldest") :
    removeRows (evicted config additionalBytes db) db = kept config additionalBytes db := by
  rw [evicted, if_pos hgate, kept]

/-- The gate lets the bytes through. -/
def Passes (config : StorageConfig) (additionalBytes : ℕ) (db : Db) : Prop :=
  ¬ Over config additionalBytes db ∨ config.quotaAction = "warn_only" ∨
    config.quotaAction = "evict_oldest" ∧
      recordsSizeBytes (kept config additionalBytes db) + additionalBytes ≤ config.quotaBytes

/-- A gate deletes rows, and then passes or refuses. -/
theorem checkQuota_run (config : StorageConfig) (additionalBytes : ℕ) (db : Db) :
    (Passes config additionalBytes db ∧ (checkQuota config additionalBytes).run db =
      (removeRows (evicted config additionalBytes db) db, .ok ())) ∨
    (¬ Passes config additionalBytes db ∧ ∃ e, (checkQuota config additionalBytes).run db =
      (removeRows (evicted config additionalBytes db) db, .err e)) := by
  unfold Passes evicted
  obtain ⟨hroom, hrun⟩ | ⟨hover, haction, hfits, hrun⟩ | ⟨hover, haction, hfull, e, hrun⟩ |
    ⟨hover, haction, hrun⟩ | ⟨hover, hevict, hwarn, e, hrun⟩ :=
    checkQuota_cases config additionalBytes db
  · rw [if_neg fun h => hroom h.1]
    exact .inl ⟨.inl hroom, hrun⟩
  · rw [if_pos ⟨hover, haction⟩]
    exact .inl ⟨.inr (.inr ⟨haction, hfits⟩), hrun⟩
  · rw [if_pos ⟨hover, haction⟩]
    refine .inr ⟨?_, e, hrun⟩
    rintro (hroom | hwarn | ⟨-, hfits⟩)
    · exact hroom hover
    · exact absurd (haction.symm.trans hwarn) (by decide)
    · exact absurd hfits (Nat.not_le.mpr hfull)
  · rw [if_neg fun h => absurd (haction.symm.trans h.2) (by decide)]
    exact .inl ⟨.inr (.inl haction), hrun⟩
  · rw [if_neg fun h => hevict h.2]
    refine .inr ⟨?_, e, hrun⟩
    rintro (hroom | haction | ⟨haction, -⟩)
    · exact hroom hover
    · exact hwarn haction
    · exact hevict haction

theorem victims_eq_nil_iff {needed : ℕ} (hneeded : 0 < needed) (db : Db) :
    (victims needed db).1 = [] ↔
      ∀ (id : String) (record : ContentRecord),
        db.records[id]? = some record → db.pins[id]? ≠ none := by
  have hpicked : (victims needed db).1 = [] ↔ oldestFirst (candidates db) = [] := by
    unfold victims
    cases oldestFirst (candidates db) with
    | nil => simp [takeUntil]
    | cons c cs => simp [takeUntil, Nat.not_le.mpr hneeded]
  have hsorted : oldestFirst (candidates db) = [] ↔ candidates db = [] := by
    have hlength := (oldestFirst_perm (candidates db)).length_eq
    rw [← List.length_eq_zero_iff, hlength, List.length_eq_zero_iff]
  rw [hpicked, hsorted, List.eq_nil_iff_forall_not_mem]
  constructor
  · intro hnone id record hrecord hpin
    exact hnone ⟨id, record.sourceHash, record.createdAt, record.jsonLen⟩
      (mem_candidates.mpr ⟨record, hrecord, hpin, rfl⟩)
  · intro hpinned c hc
    obtain ⟨record, hrecord, hpin, -⟩ := mem_candidates.mp hc
    exact hpinned c.id record hrecord hpin

/-- The gate deletes something: it is over the quota, evicts, and some record is not pinned. -/
def Deletes (config : StorageConfig) (additionalBytes : ℕ) (db : Db) : Prop :=
  Over config additionalBytes db ∧ config.quotaAction = "evict_oldest" ∧
    ∃ (id : String) (record : ContentRecord), db.records[id]? = some record ∧ db.pins[id]? = none

theorem evicted_ne_nil_iff (config : StorageConfig) (additionalBytes : ℕ) (db : Db) :
    evicted config additionalBytes db ≠ [] ↔ Deletes config additionalBytes db := by
  unfold evicted Deletes
  by_cases hgate : Over config additionalBytes db ∧ config.quotaAction = "evict_oldest"
  · rw [if_pos hgate]
    have hneeded : 0 < recordsSizeBytes db + additionalBytes - config.quotaBytes := by
      have hlt := hgate.1.2
      omega
    have hnil := victims_eq_nil_iff hneeded db
    simp only [gateVictims, ne_eq, hnil, hgate.1, hgate.2, true_and, not_forall, not_not,
      exists_prop]
  · rw [if_neg hgate]
    exact iff_of_false (fun hne => hne rfl) fun hdeletes => hgate ⟨hdeletes.1, hdeletes.2.1⟩

theorem evicted_stored {config : StorageConfig} {additionalBytes : ℕ} {db : Db}
    {row : String × String} (h : row ∈ evicted config additionalBytes db) :
    ∃ record, db.records[row.1]? = some record ∧ record.sourceHash = row.2 := by
  unfold evicted at h
  split at h
  · obtain ⟨c, hc, rfl, -⟩ := mem_victims.mp h
    obtain ⟨record, hrecord, -, hrow⟩ := mem_candidates.mp hc
    exact ⟨record, hrecord, (congrArg Candidate.sourceHash hrow).symm⟩
  · exact absurd h List.not_mem_nil

theorem evicted_nodup (config : StorageConfig) (additionalBytes : ℕ) (db : Db) :
    ((evicted config additionalBytes db).map Prod.fst).Nodup := by
  unfold evicted
  split
  · exact victims_nodup _ db
  · exact List.nodup_nil

/-- What a gate deletes is gone. -/
theorem removeRows_evicted_eq_iff (config : StorageConfig) (additionalBytes : ℕ) (db : Db) :
    (removeRows (evicted config additionalBytes db) db).records = db.records ↔
      evicted config additionalBytes db = [] := by
  constructor
  · intro hsame
    by_contra hne
    obtain ⟨row, hrow⟩ := List.exists_mem_of_ne_nil _ hne
    obtain ⟨record, hrecord, -⟩ := evicted_stored hrow
    have hgone := removeRows_records (evicted config additionalBytes db) db row.1
    rw [if_pos (List.mem_map_of_mem hrow), hsame, hrecord] at hgone
    cases hgone
  · intro hnil
    rw [hnil, removeRows_nil]

end Quota

namespace Store
variable {ed : Ed25519} (store : Store ed)

def checkQuota (additionalBytes : ℕ) : Client Db (Outcome Unit) :=
  Quota.checkQuota store.config additionalBytes

theorem utf8ByteSize_body_le (record : ContentRecord) :
    record.body.utf8ByteSize ≤ (store.signed record).jsonLen := by
  obtain ⟨sig, hsigned⟩ := store.signed_eq record
  have hlen := ContentRecord.jsonLen_body (store.signed record)
  have hbody := JsonText.utf8ByteSize_le_escapedLength record.body
  rw [hsigned] at hlen ⊢
  dsimp only at hlen
  omega

/-- When the second gate refuses. -/
theorem insertRecord_quotaError (record : ContentRecord) (db : Db) :
    ((store.insertRecord record).run db).2 = .err (quotaError (some store.config)) ↔
      (store.signed record).validateSize = .ok () ∧ ¬ Skips db record ∧ 0 < store.config.quotaMb ∧
        store.config.quotaBytes < recordsSizeBytes db + (store.signed record).jsonLen := by
  have hover := Capacity.overQuota_iff db (store.signed record) (some store.config)
  have hcases := insertRecordTx_cases (store.signed record) (some store.config) db
  rw [dedupResult_signed] at hcases
  rw [insertRecord_run, Records.insertRecord_run]
  unfold Skips
  cases hsize : (store.signed record).validateSize with
  | error e =>
    have hne := Capacity.validationError_ne_quotaError e (some store.config)
    simp [hne]
  | ok _ =>
    dsimp only
    obtain ⟨id, hskip, heq⟩ | ⟨hnew, hquota, heq⟩ | ⟨id, hreplace, hquota, heq⟩ |
      ⟨hfresh, hquota, heq⟩ := hcases
    · rw [heq]
      simp [hskip]
    · rw [heq]
      obtain ⟨cfg, hcfg, hpos, hlt⟩ := hover.mp hquota
      obtain rfl := Option.some.inj hcfg
      simp [hnew, hpos, hlt, StorageConfig.quotaBytes]
    all_goals
      have hroom : ¬ (0 < store.config.quotaMb ∧
          store.config.quotaBytes < recordsSizeBytes db + (store.signed record).jsonLen) := by
        intro hexceeds
        rw [hquota] at hover
        exact absurd (hover.mpr ⟨_, rfl, hexceeds⟩) (by decide)
      rw [heq]
      dsimp only
      constructor
      · intro hend
        exact absurd (Outcome.map_eq_err.mp hend) (Index.indexRecord_ne_err _ _ _ _ _)
      · rintro ⟨-, -, hexceeds⟩
        exact absurd hexceeds hroom

/-- The inserts that the first gate lets through and the second one refuses: the signed record is
valid and not skipped, and its JSON text does not fit where its body does, or the gate only warns. -/
def GatesDisagree (record : ContentRecord) (db : Db) : Prop :=
  let text := (store.signed record).jsonLen
  let body := record.body.utf8ByteSize
  let kept := Quota.kept store.config body db
  (store.signed record).validateSize = .ok () ∧ 0 < store.config.quotaMb ∧
    ((recordsSizeBytes db + body ≤ store.config.quotaBytes ∧
        store.config.quotaBytes < recordsSizeBytes db + text ∧ ¬ Skips db record) ∨
      (store.config.quotaAction = "warn_only" ∧
        store.config.quotaBytes < recordsSizeBytes db + body ∧ ¬ Skips db record) ∨
      (store.config.quotaAction = "evict_oldest" ∧
        store.config.quotaBytes < recordsSizeBytes db + body ∧
        recordsSizeBytes kept + body ≤ store.config.quotaBytes ∧
        store.config.quotaBytes < recordsSizeBytes kept + text ∧ ¬ Skips kept record))

/-- The insert after a gate fails at the quota if and only if the gate passes and the second gate
refuses in what the first one leaves. -/
theorem insertRecord_after_gate_iff (record : ContentRecord) (db : Db) :
    let body := record.body.utf8ByteSize
    let left := removeRows (Quota.evicted store.config body db) db
    (∀ db', (store.checkQuota body).run db = (db', .ok ()) →
        ((store.insertRecord record).run db').2 ≠ .err (quotaError (some store.config))) ↔
      ¬ (Quota.Passes store.config body db ∧ (store.signed record).validateSize = .ok () ∧
        ¬ Skips left record ∧ 0 < store.config.quotaMb ∧
        store.config.quotaBytes < recordsSizeBytes left + (store.signed record).jsonLen) := by
  dsimp only
  have herror := store.insertRecord_quotaError record
  unfold checkQuota
  rcases Quota.checkQuota_run store.config record.body.utf8ByteSize db with
    ⟨hpasses, hrun⟩ | ⟨hpasses, e, hrun⟩
  · rw [hrun, ← herror]
    simp only [Prod.mk.injEq, and_true, forall_eq', hpasses, true_and]
  · rw [hrun]
    refine iff_of_true (fun db' hok => ?_) fun h => hpasses h.1
    cases congrArg Prod.snd hok

/-- The three ways to disagree are the ways to pass the first gate and not the second one. -/
theorem gatesDisagree_iff (record : ContentRecord) (db : Db) :
    let body := record.body.utf8ByteSize
    let left := removeRows (Quota.evicted store.config body db) db
    store.GatesDisagree record db ↔
      Quota.Passes store.config body db ∧ (store.signed record).validateSize = .ok () ∧
        ¬ Skips left record ∧ 0 < store.config.quotaMb ∧
        store.config.quotaBytes < recordsSizeBytes left + (store.signed record).jsonLen := by
  dsimp only
  have hbody := store.utf8ByteSize_body_le record
  unfold GatesDisagree
  dsimp only
  by_cases hgate : Quota.Over store.config record.body.utf8ByteSize db ∧
      store.config.quotaAction = "evict_oldest"
  · -- the gate evicts
    rw [Quota.removeRows_evicted hgate]
    obtain ⟨⟨hpos, hlarge⟩, haction⟩ := hgate
    have hnotWarn : store.config.quotaAction ≠ "warn_only" := by
      rw [haction]
      decide
    constructor
    · rintro ⟨hvalid, -, ⟨hsmall, -⟩ | ⟨hwarn, -⟩ | ⟨-, -, hfits, hlong, hskips⟩⟩
      · omega
      · exact absurd hwarn hnotWarn
      · exact ⟨.inr (.inr ⟨haction, hfits⟩), hvalid, hskips, hpos, hlong⟩
    · rintro ⟨hroom | hwarn | ⟨-, hfits⟩, hvalid, hskips, -, hlong⟩
      · exact absurd ⟨hpos, hlarge⟩ hroom
      · exact absurd hwarn hnotWarn
      · exact ⟨hvalid, hpos, .inr (.inr ⟨haction, hlarge, hfits, hlong, hskips⟩)⟩
  · -- the gate leaves the store as it is
    rw [Quota.evicted, if_neg hgate, removeRows_nil]
    constructor
    · rintro ⟨hvalid, hpos, ⟨hsmall, hlong, hskips⟩ | ⟨hwarn, hlarge, hskips⟩ |
        ⟨haction, hlarge, -⟩⟩
      · exact ⟨.inl fun hover => Nat.not_le.mpr hover.2 hsmall, hvalid, hskips, hpos, hlong⟩
      · exact ⟨.inr (.inl hwarn), hvalid, hskips, hpos, by omega⟩
      · exact absurd ⟨⟨hpos, hlarge⟩, haction⟩ hgate
    · rintro ⟨hpasses, hvalid, hskips, hpos, hlong⟩
      by_cases hsmall : recordsSizeBytes db + record.body.utf8ByteSize ≤ store.config.quotaBytes
      · exact ⟨hvalid, hpos, .inl ⟨hsmall, hlong, hskips⟩⟩
      · have hover : Quota.Over store.config record.body.utf8ByteSize db :=
          ⟨hpos, Nat.not_le.mp hsmall⟩
        rcases hpasses with hroom | hwarn | ⟨haction, -⟩
        · exact absurd hover hroom
        · exact ⟨hvalid, hpos, .inr (.inl ⟨hwarn, hover.2, hskips⟩)⟩
        · exact absurd ⟨hover, haction⟩ hgate

end Store

open Store in
/-- An insert that follows a gate that answered `Ok` fails at the quota in exactly these cases. -/
theorem checkQuota_then_insertRecord_iff {ed : Ed25519} (store : Store ed) (record : ContentRecord)
    (db : Db) :
    (∀ db', (store.checkQuota record.body.utf8ByteSize).run db = (db', .ok ()) →
        ((store.insertRecord record).run db').2 ≠ .err (quotaError (some store.config))) ↔
      ¬ store.GatesDisagree record db := by
  have hafter := store.insertRecord_after_gate_iff record db
  have hways := store.gatesDisagree_iff record db
  dsimp only at hafter hways
  rw [hafter, hways]

/-- `warn_only` with a quota of 1 MB. -/
def warningStore : Store .checksum := ⟨⟨1, "warn_only"⟩, none⟩

theorem warningStore_refuses_copy (length : ℕ) (hlong : 1024 * 1024 < 2 * length)
    (hshort : length + 207 ≤ 1024 * 1024) :
    (warningStore.checkQuota (longRecord 2000 length).body.utf8ByteSize).run
        (onlyRecord (longRecord 1000 length)) = (onlyRecord (longRecord 1000 length), .ok ()) ∧
      ((warningStore.insertRecord (longRecord 2000 length)).run
        (onlyRecord (longRecord 1000 length))).2 =
          .err (quotaError (some warningStore.config)) := by
  have hold := longRecord_jsonLen length (show (JsonText.ofNat 1000).length = 4 by decide)
  have hnew := longRecord_jsonLen length (show (JsonText.ofNat 2000).length = 4 by decide)
  have hsize := onlyRecord_size (longRecord 1000 length)
  constructor
  · obtain ⟨-, hrun⟩ | ⟨-, haction, -⟩ | ⟨-, haction, -⟩ | ⟨-, -, hrun⟩ | ⟨-, -, haction, -⟩ :=
      Quota.checkQuota_cases warningStore.config (longRecord 2000 length).body.utf8ByteSize
        (onlyRecord (longRecord 1000 length))
    · exact hrun
    · exact absurd haction (by decide)
    · exact absurd haction (by decide)
    · exact hrun
    · exact absurd rfl haction
  · have hskips : ¬ Store.Skips (onlyRecord (longRecord 1000 length)) (longRecord 2000 length) := by
      intro ⟨id, hskip⟩
      rw [longRecord_replaces] at hskip
      cases hskip
    have hsigned : warningStore.signed (longRecord 2000 length) = longRecord 2000 length := rfl
    apply (warningStore.insertRecord_quotaError _ _).mpr
    rw [hsigned, hsize, hold, hnew]
    refine ⟨longRecord_valid hnew hshort, hskips, by decide, ?_⟩
    have hquota : warningStore.config.quotaBytes = 1024 * 1024 := rfl
    omega

/-- `check_quota` warns and allows the insert, `insert_record` refuses it. -/
theorem checkQuota_allows_refused_insert :
    ¬ ∀ (ed : Ed25519) (store : Store ed) (record : ContentRecord) (db db' : Db),
      (store.checkQuota record.body.utf8ByteSize).run db = (db', .ok ()) →
        ((store.insertRecord record).run db').2 ≠ .err (quotaError (some store.config)) := by
  intro hclaim
  obtain ⟨hgate, hinsert⟩ := warningStore_refuses_copy 600000 (by decide) (by decide)
  exact hclaim _ warningStore _ _ _ hgate hinsert

end DSearch
