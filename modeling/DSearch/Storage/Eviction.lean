import DSearch.Storage.QuotaGates

/-! # How much `evict_oldest` removes

The loop over the sorted candidates takes the fewest of them that free the needed bytes. The one that
it takes last may free up to a record's size too much, and a quota is never smaller than a record: so
`check_quota` never subtracts more than it has measured, even if other calls have stored further
records by the time the eviction reads the table. -/

namespace DSearch
set_option autoImplicit false
open Transaction Records

/-- Every stored record passed `validate_size`. -/
def AllValid (db : Db) : Prop :=
  ∀ (key : String) (record : ContentRecord), db.records[key]? = some record →
    record.validateSize = .ok ()

theorem ContentRecord.jsonLen_le_of_valid {record : ContentRecord}
    (hvalid : record.validateSize = .ok ()) : record.jsonLen ≤ MAX_RECORD_SIZE := by
  unfold ContentRecord.validateSize at hvalid
  split at hvalid
  · cases hvalid
  · next hle => exact Nat.not_lt.mp hle

namespace AllValid

theorem insertRecordTx {db : Db} (h : AllValid db) (record : ContentRecord)
    (hvalid : record.validateSize = .ok ()) (config : Option StorageConfig) :
    AllValid (Records.insertRecordTx record config db).1 := by
  have hinsert : ∀ records : Table ContentRecord,
      (∀ (key : String) (r : ContentRecord), records[key]? = some r → r.validateSize = .ok ()) →
        ∀ (key : String) (r : ContentRecord), (records.insert record.id record)[key]? = some r →
          r.validateSize = .ok () := by
    intro records hrecords key r hr
    rcases OrderedTable.get_insert_eq_some.mp hr with ⟨-, rfl⟩ | ⟨-, hr⟩
    · exact hvalid
    · exact hrecords key r hr
  obtain ⟨_, -, heq⟩ | ⟨-, -, heq⟩ | ⟨id, -, -, heq⟩ | ⟨-, -, heq⟩ :=
    insertRecordTx_cases record config db
  · rw [heq]
    exact h
  · rw [heq]
    exact h
  · rw [heq]
    exact hinsert _ fun key r hr => h key r (OrderedTable.get_erase_eq_some.mp hr).2
  · rw [heq]
    exact hinsert _ h

theorem removeRows {db : Db} (h : AllValid db) (rows : List (String × String)) :
    AllValid (removeRows rows db) :=
  fun key record hrecord => h key record (removeRows_records_eq_some.mp hrecord).2

theorem client_keeps (op : RecordsOp) : op.client.Keeps AllValid := by
  have hother : (∀ record config, op ≠ .insert record config) → op.client.Keeps AllValid := by
    intro hop
    refine RecordsOp.client_within op (fun _ h => h) ?_ (fun rows _ h => h.removeRows rows) ?_
      fun _ _ h => h
    · intro record config heq
      exact absurd heq (hop record config)
    · intro id sourceHash db h
      exact h.removeRows [(id, sourceHash)]
  cases op with
  | insert record config =>
    refine Client.Within.andThen ?_ fun _ => Client.Within.done _
    unfold Records.insertRecord
    cases hsize : record.validateSize with
    | error e => exact Client.Within.done _
    | ok _ =>
      exact Client.Within.atomically (fun db h => h.insertRecordTx record hsize config)
        fun _ => Client.Within.done _
  | _ => exact hother (by simp)

end AllValid

namespace Quota

/-- An unpinned stored record, as `evict_oldest` collects it. -/
def Unpinned (db : Db) (c : Candidate) : Prop :=
  ∃ record, db.records[c.id]? = some record ∧ db.pins[c.id]? = none ∧
    c = ⟨c.id, record.sourceHash, record.createdAt, record.jsonLen⟩

/-- `order` lists the unpinned records, oldest first and ties in key order; its first `count` are the
fewest that free the needed bytes, and `out` is the store without them and what they free. -/
structure Evicts (needed : ℕ) (db : Db) (out : Db × Outcome ℕ) (order : List Candidate)
    (count : ℕ) : Prop where
  older : order.Pairwise Older
  unpinned : ∀ c, c ∈ order ↔ Unpinned db c
  fewest : Fewest needed order count
  freed : out.2 = .ok (freedBy (order.take count))
  records : ∀ key : String, out.1.records[key]? =
    if key ∈ (order.take count).map Candidate.id then none else db.records[key]?
  pins : out.1.pins = db.pins

theorem evictOldest_evicts (needed : ℕ) (db : Db) :
    ∃ order count, Evicts needed db ((evictOldest needed).run db) order count := by
  obtain ⟨count, hfewest, hvictims⟩ := victims_eq needed db
  have hrun := evictOldest_run needed db
  rw [hvictims] at hrun
  refine ⟨oldestFirst (candidates db), count, oldestFirst_pairwise db, fun c => ?_, hfewest, ?_, ?_, ?_⟩
  · rw [(oldestFirst_perm (candidates db)).mem_iff]
    exact mem_candidates
  · rw [hrun]
  · intro key
    rw [hrun, removeRows_records, List.map_map]
    rfl
  · rw [hrun, removeRows_pins]

/-! ## The subtraction of `check_quota` -/

/-- `u64` subtraction in a build with overflow checks. -/
def checkedSub (a b : ℕ) : Outcome ℕ := if b ≤ a then .ok (a - b) else .panic

/-- `check_quota` with the subtraction of a build profile. -/
def checkQuotaWith (sub : ℕ → ℕ → Outcome ℕ) (config : StorageConfig) (additionalBytes : ℕ) :
    Client Db (Outcome Unit) :=
  if config.quotaMb = 0 then .done (.ok ())
  else .read fun db =>
    let quotaBytes := config.quotaMb * 1024 * 1024
    let currentBytes := recordsSizeBytes db
    let exceeded := "Storage quota exceeded (" ++ toString config.quotaMb ++ " MB)."
    if currentBytes + additionalBytes > quotaBytes then
      if config.quotaAction = "evict_oldest" then
        (evictOldest (currentBytes + additionalBytes - quotaBytes)).andThen fun freed =>
          (Client.done (sub (currentBytes + additionalBytes) freed)).andThen fun left =>
            if left > quotaBytes then
              .done (.err (exceeded ++ " Eviction freed " ++ toString freed ++
                " bytes but still over quota."))
            else .done (.ok ())
      else if config.quotaAction = "pause_scraper" then
        .done (.err (exceeded ++ " Scraper should pause."))
      else if config.quotaAction = "warn_only" then .done (.ok ())
      else .done (.err (exceeded ++ " Unknown quota_action: " ++ config.quotaAction))
    else .done (.ok ())

/-- The release build is the one of `checkQuota`. -/
theorem checkQuota_eq (config : StorageConfig) (additionalBytes : ℕ) :
    checkQuota config additionalBytes =
      checkQuotaWith (fun a b => .ok (wrappingSub a b)) config additionalBytes := rfl

/-- An eviction frees less than a record's size more than it needs. -/
theorem freedBy_fewest_lt {needed : ℕ} {order : List Candidate} {count : ℕ}
    (h : Fewest needed order count) (hpos : 0 < count)
    (hsmall : ∀ c ∈ order, c.jsonLen ≤ MAX_RECORD_SIZE) :
    freedBy (order.take count) < needed + MAX_RECORD_SIZE := by
  obtain ⟨before, rfl⟩ : ∃ before, count = before + 1 := ⟨count - 1, by omega⟩
  have hleast := h.least before (Nat.lt_succ_self before)
  have hin : before < order.length := h.within
  have hlast := hsmall order[before] (List.getElem_mem hin)
  have hsum : freedBy (order.take (before + 1)) = freedBy (order.take before) + order[before].jsonLen := by
    rw [freedBy, freedBy, List.take_add_one, List.getElem?_eq_getElem hin, Option.toList_some,
      List.map_append, List.sum_append]
    rfl
  omega

/-- Whatever valid records are stored when the eviction reads, it frees no more than was measured. -/
theorem freed_le {db : Db} (hvalid : AllValid db) {total quotaBytes : ℕ} (hover : quotaBytes < total)
    (hquota : MAX_RECORD_SIZE ≤ quotaBytes) : (victims (total - quotaBytes) db).2 ≤ total := by
  obtain ⟨count, hfewest, hvictims⟩ := victims_eq (total - quotaBytes) db
  have hsmall : ∀ c ∈ oldestFirst (candidates db), c.jsonLen ≤ MAX_RECORD_SIZE := by
    intro c hc
    obtain ⟨record, hrecord, -, heq⟩ :=
      mem_candidates.mp ((oldestFirst_perm (candidates db)).mem_iff.mp hc)
    have hlen : c.jsonLen = record.jsonLen := congrArg Candidate.jsonLen heq
    rw [hlen]
    exact ContentRecord.jsonLen_le_of_valid (hvalid c.id record hrecord)
  rw [hvictims]
  dsimp only
  cases count with
  | zero => exact Nat.zero_le _
  | succ before =>
    have hlt := freedBy_fewest_lt hfewest (Nat.succ_pos before) hsmall
    omega

theorem evictOldest_ends {total quotaBytes : ℕ} (hover : quotaBytes < total)
    (hquota : MAX_RECORD_SIZE ≤ quotaBytes) :
    (evictOldest (total - quotaBytes)).Ends AllValid fun out => ∃ freed ≤ total, out = .ok freed := by
  refine .transact fun db hvalid => ?_
  dsimp only
  split
  · exact .done ⟨0, Nat.zero_le _, rfl⟩
  · exact .transact fun _ _ => .done ⟨_, freed_le hvalid hover hquota, rfl⟩

theorem checkQuotaWith_ends {config : StorageConfig} (hquota : 1 ≤ config.quotaMb)
    (additionalBytes : ℕ) :
    (checkQuotaWith checkedSub config additionalBytes).Ends AllValid (· ≠ .panic) := by
  unfold checkQuotaWith
  rw [if_neg (by omega)]
  refine .transact fun db _ => ?_
  dsimp only
  split
  · next hover =>
    split
    · have hrecord : MAX_RECORD_SIZE ≤ config.quotaMb * 1024 * 1024 := by
        unfold MAX_RECORD_SIZE
        omega
      refine (evictOldest_ends hover hrecord).andThen ?_ (by simp) (by simp)
      rintro freed ⟨freed', hle, heq⟩
      obtain rfl := Outcome.ok.inj heq
      rw [checkedSub, if_pos hle]
      show Client.Ends _ _ (ite _ _ _)
      split
      · exact .done (by simp)
      · exact .done (by simp)
    · split
      · exact .done (by simp)
      · split
        · exact .done (by simp)
        · exact .done (by simp)
  · exact .done (by simp)

/-- The gate in a build with overflow checks, as a call among others. -/
def quotaCall (config : StorageConfig) (additionalBytes : ℕ) : Client Db (Outcome Reply) :=
  (checkQuotaWith checkedSub config additionalBytes).andThen fun _ => .done (.ok (.flag true))

theorem quotaCall_ends {config : StorageConfig} (hquota : 1 ≤ config.quotaMb) (additionalBytes : ℕ) :
    (quotaCall config additionalBytes).Ends AllValid (· ≠ .panic) :=
  (checkQuotaWith_ends hquota additionalBytes).andThen (fun _ _ => .done (by simp)) (by simp)
    fun h _ => h rfl

theorem quotaCall_keeps (config : StorageConfig) (additionalBytes : ℕ) :
    (quotaCall config additionalBytes).Keeps AllValid := by
  have hevict : ∀ needed, (evictOldest needed).Keeps AllValid :=
    evictOldest_within (fun _ h => h) fun rows _ h => h.removeRows rows
  refine Client.Within.andThen ?_ fun _ => Client.Within.done _
  unfold checkQuotaWith
  split
  · exact Client.Within.done _
  · refine Client.Within.read (fun _ h => h) fun db _ => ?_
    dsimp only
    split
    · split
      · refine Client.Within.andThen (hevict _) fun freed => ?_
        refine Client.Within.andThen (Client.Within.done _) fun left => ?_
        split <;> exact Client.Within.done _
      · split
        · exact Client.Within.done _
        · split <;> exact Client.Within.done _
    · exact Client.Within.done _

end Quota

open Quota

/-- From a store of valid records an eviction alone removes exactly the fewest of the oldest unpinned
records that free enough; and whatever calls run between the transactions of a quota check, its
subtraction does not underflow. -/
theorem evictOldest_fewest_checkQuota_safe (config : StorageConfig) (hquota : 1 ≤ config.quotaMb)
    (db : Db) (hvalid : AllValid db) :
    (∀ needed, ∃ order count, Evicts needed db ((evictOldest needed).run db) order count) ∧
      ∀ (additionalBytes : ℕ) (ops : ℕ → RecordsOp) (schedule : List ℕ),
        ((interleave (db, fun i => if i = 0 then quotaCall config additionalBytes
          else (ops i).client) schedule).2 0).result? ≠ some .panic := by
  refine ⟨fun needed => evictOldest_evicts needed db, fun additionalBytes ops schedule hpanic => ?_⟩
  have hclients : ∀ i, ((db, fun i => if i = 0 then quotaCall config additionalBytes
      else (ops i).client).2 i).Keeps AllValid := by
    intro i
    dsimp only
    split
    · exact quotaCall_keeps config additionalBytes
    · exact AllValid.client_keeps (ops i)
  have hends := Client.Ends.interleave hclients hvalid (i := 0)
    (quotaCall_ends hquota additionalBytes) schedule
  exact hends.result hpanic rfl

/-- Two records of one time, the second one pinned. -/
def onePinned : Db :=
  { (Records.insertRecordTx (makeRecord "r2" "sh2" 1000 5000) none
      (Records.insertRecordTx (makeRecord "r1" "sh1" 1000 5000) none Db.empty).1).1 with
    pins := (∅ : Table String).insert "r2" "0" }

theorem onePinned_allValid : AllValid onePinned := by
  have hempty : AllValid Db.empty := fun key record hrecord => by simp [Db.empty] at hrecord
  have hfirst := hempty.insertRecordTx (makeRecord "r1" "sh1" 1000 5000) (by decide +kernel) none
  exact hfirst.insertRecordTx (makeRecord "r2" "sh2" 1000 5000) (by decide +kernel) none

theorem evictOldest_fewest_checkQuota_safe_onePinned :
    (∀ needed, ∃ order count,
      Evicts needed onePinned ((evictOldest needed).run onePinned) order count) ∧
      ∀ (additionalBytes : ℕ) (ops : ℕ → RecordsOp) (schedule : List ℕ),
        ((interleave (onePinned, fun i => if i = 0 then quotaCall ⟨1, "evict_oldest"⟩ additionalBytes
          else (ops i).client) schedule).2 0).result? ≠ some .panic :=
  evictOldest_fewest_checkQuota_safe ⟨1, "evict_oldest"⟩ (by decide) onePinned onePinned_allValid

end DSearch
