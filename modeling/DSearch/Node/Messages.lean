import DSearch.Storage.Store

/-! # Announcements and records from peers: `node/announce.rs`, `scraper/replicate.rs`

The two handlers that write what a peer sent, with the acknowledgement they answer. Sending it is not
modelled. A pushed record travels as JSON text; `serde_json::from_str`, which reads it, is the
parameter `fromStr`. -/

namespace DSearch
set_option autoImplicit false
open Transaction

structure Announce where
  recordId : String
  sourceHash : String
  schema : String
  tags : List String
  holderAddr : String
  expiresAt : ℕ
  sig : String
  deriving DecidableEq, Repr

structure AnnounceAck where
  recordId : String
  accepted : Bool
  reason : String
  deriving DecidableEq, Repr

structure ReplicatePush where
  recordId : String
  recordJson : Bytes
  sourceHash : String
  sig : String
  deriving DecidableEq, Repr

structure ReplicateAck where
  recordId : String
  accepted : Bool
  reason : String
  deriving DecidableEq, Repr

def Announce.announcement (msg : Announce) : Announcement where
  recordId := msg.recordId
  sourceHash := msg.sourceHash
  schema := msg.schema
  tags := msg.tags
  holderAddr := msg.holderAddr
  expiresAt := msg.expiresAt
  sig := msg.sig

/-- The message that `push_record` sends. -/
def pushRecord (record : ContentRecord) : ReplicatePush where
  recordId := record.id
  recordJson := record.toJson
  sourceHash := record.sourceHash
  sig := record.sig

namespace Node
variable {ed : Ed25519} (store : Store ed) (fromStr : Bytes → Except String ContentRecord)

def handleAnnounce (msg : Announce) : Client Db (Outcome AnnounceAck) :=
  (store.insertAnnouncement msg.announcement).bind fun
    | .ok _ => .done (.ok ⟨msg.recordId, true, ""⟩)
    | .err _ => .done (.ok ⟨msg.recordId, false, "insert failed"⟩)
    | .panic => .done .panic

def handleReplicatePush (msg : ReplicatePush) : Client Db (Outcome ReplicateAck) :=
  match fromStr msg.recordJson with
  | .error e => .done (.ok ⟨msg.recordId, false, "deserialize error: " ++ e⟩)
  | .ok record =>
    (store.insertRecord record).bind fun
      | .ok _ => .done (.ok ⟨msg.recordId, true, ""⟩)
      | .err _ => .done (.ok ⟨msg.recordId, false, "insert failed"⟩)
      | .panic => .done .panic

def pushAck (recordId : String) : Outcome InsertResult → Outcome ReplicateAck
  | .ok _ => .ok ⟨recordId, true, ""⟩
  | .err _ => .ok ⟨recordId, false, "insert failed"⟩
  | .panic => .panic

theorem handleReplicatePush_run {msg : ReplicatePush} {record : ContentRecord}
    (hjson : fromStr msg.recordJson = .ok record) (db : Db) :
    (handleReplicatePush store fromStr msg).run db =
      (((store.insertRecord record).run db).1,
        pushAck msg.recordId ((store.insertRecord record).run db).2) := by
  rw [handleReplicatePush, hjson]
  dsimp only
  rw [Client.run_bind]
  cases ((store.insertRecord record).run db).2 <;> rfl

theorem pushAck_rejects {recordId : String} {out : Outcome InsertResult} :
    (∃ ack, pushAck recordId out = .ok ack ∧ ack.accepted = false) ↔ ∃ e, out = .err e := by
  cases out <;> simp [pushAck]

end Node

end DSearch
