import DSearch.Storage.Quota

/-! # Runs over the records, `source_index` and pins tables

The calls of `records.rs` and `quota.rs` as one type of operations. `RecordsOp.client` is the call
with its transactions, `exec` a sequence of calls each of which ends before the next begins, and
`interleave` (of `Transaction`) any order of the single transactions of any number of calls. -/

namespace DSearch
set_option autoImplicit false
open Transaction

inductive RecordsOp where
  | insert (record : ContentRecord) (config : Option StorageConfig)
  | delete (id : String)
  | pin (id : String) (now : ℕ)
  | unpin (id : String)
  | sweep (now : ℕ)
  | evict (needed : ℕ)
  deriving DecidableEq, Repr

/-- What a call returns: the insert's result, a flag (delete, pin, unpin) or a number (the sweep's
count, the bytes an eviction frees). -/
inductive Reply where
  | inserted (result : InsertResult)
  | flag (value : Bool)
  | count (value : ℕ)
  deriving DecidableEq, Repr

namespace RecordsOp

def client : RecordsOp → Client Db (Outcome Reply)
  | insert record config =>
    (Records.insertRecord record config).andThen fun r => .done (.ok (.inserted r))
  | delete id => (Records.deleteRecord id).andThen fun b => .done (.ok (.flag b))
  | pin id now => (Records.pinRecord id now).andThen fun b => .done (.ok (.flag b))
  | unpin id => (Records.unpinRecord id).andThen fun b => .done (.ok (.flag b))
  | sweep now => (Records.deleteExpiredRecords now).andThen fun n => .done (.ok (.count n))
  | evict needed => (Quota.evictOldest needed).andThen fun n => .done (.ok (.count n))

def run (op : RecordsOp) (db : Db) : Db × Outcome Reply := op.client.run db

def exec (ops : List RecordsOp) (db : Db) : Db := ops.foldl (fun db op => (op.run db).1) db

@[simp] theorem exec_nil (db : Db) : exec [] db = db := rfl

@[simp] theorem exec_cons (op : RecordsOp) (ops : List RecordsOp) (db : Db) :
    exec (op :: ops) db = exec ops (op.run db).1 := rfl

theorem exec_append (ops₁ ops₂ : List RecordsOp) (db : Db) :
    exec (ops₁ ++ ops₂) db = exec ops₂ (exec ops₁ db) := List.foldl_append

/-- The store after the transactions of any number of calls, in the order of the schedule, from
the empty store. -/
def interleaved (ops : ℕ → RecordsOp) (schedule : List ℕ) : Db :=
  (interleave (Db.empty, fun i => (ops i).client) schedule).1

theorem run_insert (record : ContentRecord) (config : Option StorageConfig) (db : Db) :
    (insert record config).run db = match record.validateSize with
      | .error e => (db, .err ("record validation: " ++ e))
      | .ok () => ((Records.insertRecordTx record config db).1,
          (Records.insertRecordTx record config db).2.map .inserted) := by
  rw [run, client, Client.run_andThen_done, Records.insertRecord_run]
  cases record.validateSize <;> rfl

theorem run_delete (id : String) (db : Db) :
    (delete id).run db = match db.records[id]? with
      | none => (db, .ok (.flag false))
      | some record => (Records.deleteRecordTx id record.sourceHash db, .ok (.flag true)) := by
  rw [run, client, Client.run_andThen_done, Records.deleteRecord_run]
  cases db.records[id]? <;> rfl

theorem run_pin (id : String) (now : ℕ) (db : Db) :
    (pin id now).run db = if db.records[id]?.isNone then (db, .ok (.flag false))
      else ({ db with pins := db.pins.insert id (toString now) }, .ok (.flag true)) := by
  rw [run, client, Client.run_andThen_done, Records.pinRecord, Client.run_read]
  split <;> rfl

theorem run_unpin (id : String) (db : Db) :
    (unpin id).run db =
      ({ db with pins := db.pins.erase id }, .ok (.flag db.pins[id]?.isSome)) := rfl

theorem run_sweep (now : ℕ) (db : Db) :
    (sweep now).run db = (Records.removeRows (Records.expiredRows now db) db,
      .ok (.count (Records.expiredRows now db).length)) := by
  rw [run, client, Client.run_andThen_done, Records.deleteExpiredRecords_run]
  rfl

theorem run_evict (needed : ℕ) (db : Db) :
    (evict needed).run db = (Records.removeRows (Quota.victims needed db).1 db,
      .ok (.count (Quota.victims needed db).2)) := by
  rw [run, client, Client.run_andThen_done, Quota.evictOldest_run]
  rfl

/-- The effects a call can have on the store, whatever ran between its transactions: the insert's
transaction, the removal of rows that an earlier transaction picked, and writes to the pins. -/
theorem client_within {I : Db → Prop} {R : Db → Db → Prop} (op : RecordsOp)
    (hrefl : ∀ db, I db → R db db)
    (hinsert : ∀ record config, op = insert record config →
      ∀ db, I db → R db (Records.insertRecordTx record config db).1)
    (hremove : ∀ rows db, I db → R db (Records.removeRows rows db))
    (hdelete : ∀ id sourceHash db, I db → R db (Records.deleteRecordTx id sourceHash db))
    (hpins : ∀ pins db, I db → R db { db with pins := pins }) : op.client.Within I R := by
  cases op with
  | insert record config =>
    refine Client.Within.andThen ?_ fun _ => Client.Within.done _
    unfold Records.insertRecord
    cases record.validateSize with
    | error e => exact Client.Within.done _
    | ok _ =>
      exact Client.Within.atomically (hinsert record config rfl) fun _ => Client.Within.done _
  | delete id =>
    refine Client.Within.andThen ?_ fun _ => Client.Within.done _
    unfold Records.deleteRecord
    refine Client.Within.read hrefl fun db _ => ?_
    cases db.records[id]? with
    | none => exact Client.Within.done _
    | some record => exact Client.Within.write (hdelete id record.sourceHash) (Client.Within.done _)
  | pin id now =>
    refine Client.Within.andThen ?_ fun _ => Client.Within.done _
    unfold Records.pinRecord
    refine Client.Within.read hrefl fun db _ => ?_
    split
    · exact Client.Within.done _
    · exact Client.Within.write (fun db => hpins (db.pins.insert id (toString now)) db) (Client.Within.done _)
  | unpin id =>
    refine Client.Within.andThen ?_ fun _ => Client.Within.done _
    unfold Records.unpinRecord
    exact Client.Within.atomically (fun db => hpins (db.pins.erase id) db) fun _ => Client.Within.done _
  | sweep now =>
    refine Client.Within.andThen ?_ fun _ => Client.Within.done _
    unfold Records.deleteExpiredRecords
    refine Client.Within.read hrefl fun db _ => ?_
    dsimp only
    split
    · exact Client.Within.done _
    · exact Client.Within.write (hremove (Records.expiredRows now db)) (Client.Within.done _)
  | evict needed =>
    exact Client.Within.andThen (Quota.evictOldest_within hrefl hremove needed)
      fun _ => Client.Within.done _

theorem interleaved_invariant {I : Db → Prop} (hempty : I Db.empty)
    (hkeeps : ∀ op : RecordsOp, op.client.Keeps I) (ops : ℕ → RecordsOp) (schedule : List ℕ) :
    I (interleaved ops schedule) :=
  Client.Keeps.interleave (fun i => hkeeps (ops i)) hempty schedule

/-! ## Sweeps and evictions -/

def isCleanup : RecordsOp → Bool
  | sweep _ => true
  | evict _ => true
  | _ => false

def picks : RecordsOp → Db → List (String × String)
  | sweep now, db => Records.expiredRows now db
  | evict needed, db => (Quota.victims needed db).1
  | _, _ => []

/-- A sweep or an eviction that reads `db` picks the record stored under `id`. -/
def Picked (op : RecordsOp) (db : Db) (id : String) : Prop :=
  match op with
  | sweep now => Records.Expired db now id
  | evict needed => Quota.Evictable db needed id
  | _ => False

theorem mem_picks_ids {op : RecordsOp} {db : Db} {id : String} :
    id ∈ (op.picks db).map Prod.fst ↔ Picked op db id := by
  cases op with
  | sweep now => exact Records.mem_expiredRows_ids
  | evict needed => exact Quota.mem_victims_ids
  | _ => simp [picks, Picked]

theorem Picked.not_pinned {op : RecordsOp} {db : Db} {id : String} (h : Picked op db id) :
    db.pins[id]? = none := by
  cases op with
  | sweep now => exact h.choose_spec.2.2.2
  | evict needed => exact Quota.Evictable.not_pinned h
  | _ => exact h.elim

/-- The two transactions of a sweep or an eviction: it reads, and later removes what it picked. -/
theorem cleanup_turns {op : RecordsOp} (hop : op.isCleanup = true) (read write : Db) :
    (op.client.turn read).1 = read ∧
      ((op.client.turn read).2.turn write).1 = Records.removeRows (op.picks read) write := by
  cases op with
  | sweep now =>
    refine ⟨rfl, ?_⟩
    rw [client, Records.deleteExpiredRecords, picks]
    by_cases hempty : Records.expiredRows now read = []
    · simp [Client.read, Client.andThen, Client.bind, Client.turn, hempty]
    · simp [Client.read, Client.write, Client.andThen, Client.bind, Client.turn, hempty]
  | evict needed =>
    refine ⟨rfl, ?_⟩
    rw [client, Quota.evictOldest, picks]
    by_cases hempty : (Quota.victims needed read).1 = []
    · simp [Client.read, Client.andThen, Client.bind, Client.turn, hempty]
    · simp [Client.read, Client.write, Client.andThen, Client.bind, Client.turn, hempty]
  | _ => cases hop

theorem run_cleanup {op : RecordsOp} (hop : op.isCleanup = true) (db : Db) :
    (op.run db).1 = Records.removeRows (op.picks db) db := by
  cases op with
  | sweep now => rw [run_sweep]; rfl
  | evict needed => rw [run_evict]; rfl
  | _ => cases hop

/-- In an interleaving, the second turn of a sweep or an eviction removes what its first turn picked,
from the store as it is by then. -/
theorem interleaved_cleanup {ops : ℕ → RecordsOp} {i : ℕ} {pre mid : List ℕ}
    (hop : (ops i).isCleanup = true) (hpre : i ∉ pre) (hmid : i ∉ mid) :
    interleaved ops (pre ++ i :: (mid ++ [i])) =
      Records.removeRows ((ops i).picks (interleaved ops pre)) (interleaved ops (pre ++ i :: mid)) := by
  have hread := interleave_client_of_not_mem (Db.empty, fun i => (ops i).client) hpre
  unfold interleaved
  rw [interleave_append, interleave_append, interleave_cons, interleave_cons, interleave_append]
  generalize interleave (Db.empty, fun i => (ops i).client) pre = read at hread ⊢
  have hwrite := interleave_client_of_not_mem (turn read i) hmid
  generalize interleave (turn read i) mid = write at hwrite ⊢
  rw [turn_client_self, hread] at hwrite
  rw [interleave_cons, interleave_nil, turn, hwrite]
  exact (cleanup_turns hop read.1 write.1).2

end RecordsOp

end DSearch
