import DSearch.Node.Messages
import DSearch.Storage.InsertEnds

/-! # What a positive acknowledgement is worth: `handle_replicate_push` of `scraper/replicate.rs`

The answer says `accepted` for every insert that returns `Ok`, the one that skips an older record
included, and it names the id of the message, not that of the record in its JSON text. -/

namespace DSearch
set_option autoImplicit false
open Transaction

/-- The same record but for its signature, which the store adds. -/
def SameButSig (r r' : ContentRecord) : Prop := { r with sig := "" } = { r' with sig := "" }

instance (r r' : ContentRecord) : Decidable (SameButSig r r') :=
  inferInstanceAs (Decidable (_ = _))

theorem SameButSig.id_eq {r r' : ContentRecord} (h : SameButSig r r') : r.id = r'.id := by
  unfold SameButSig at h
  have hid := congrArg ContentRecord.id h
  exact hid

namespace Node
variable {ed : Ed25519} (store : Store ed) (fromStr : Bytes → Except String ContentRecord)

/-- The table holds the pushed record under the id of the message. -/
def HoldsPushed (db : Db) (msg : ReplicatePush) : Prop :=
  ∃ pushed stored, fromStr msg.recordJson = .ok pushed ∧
    Records.getRecord db msg.recordId = some stored ∧ stored.id = msg.recordId ∧
      SameButSig stored pushed

/-- If the push is accepted, the table holds its record afterwards. -/
def TruthfulAck (db : Db) (msg : ReplicatePush) : Prop :=
  ∀ ack, ((handleReplicatePush store fromStr msg).run db).2 = .ok ack → ack.accepted = true →
    ack.recordId = msg.recordId ∧
      HoldsPushed fromStr ((handleReplicatePush store fromStr msg).run db).1 msg

/-- The record of the message is not inserted with `Ok`, or it has the message's id and either is new
or is skipped for a stored copy of itself. -/
def AckDeserved (db : Db) (msg : ReplicatePush) : Prop :=
  ∀ pushed, fromStr msg.recordJson = .ok pushed → ¬ store.Refuses db pushed →
    (Store.Skips db pushed → msg.recordId = pushed.id ∧
      ∃ stored, Records.getRecord db pushed.id = some stored ∧ SameButSig stored pushed) ∧
    (¬ Store.Skips db pushed → ¬ Index.Relisted db pushed.id pushed.schema pushed.tags →
      msg.recordId = pushed.id)

theorem sameButSig_signed (record : ContentRecord) : SameButSig (store.signed record) record := by
  obtain ⟨sig, hsigned⟩ := store.signed_eq record
  rw [hsigned, SameButSig]

/-- Only a message with the id of its record can be held. -/
theorem holdsPushed_iff {db : Db} {msg : ReplicatePush} {pushed : ContentRecord}
    (hjson : fromStr msg.recordJson = .ok pushed) :
    HoldsPushed fromStr db msg ↔ msg.recordId = pushed.id ∧
      ∃ stored, Records.getRecord db pushed.id = some stored ∧ SameButSig stored pushed := by
  constructor
  · rintro ⟨pushed', stored, hjson', hstored, hid, hsame⟩
    obtain rfl := Except.ok.inj (hjson.symm.trans hjson')
    have hpushed : msg.recordId = pushed.id := hid.symm.trans hsame.id_eq
    rw [hpushed] at hstored
    exact ⟨hpushed, stored, hstored, hsame⟩
  · rintro ⟨hpushed, stored, hstored, hsame⟩
    rw [← hpushed] at hstored
    exact ⟨pushed, stored, hjson, hstored, hsame.id_eq.trans hpushed.symm, hsame⟩

/-- An answer is truthful about every insert that returns `Ok`. -/
theorem truthfulAck_of_ok {db : Db} {msg : ReplicatePush} {pushed : ContentRecord}
    {result : InsertResult} (hjson : fromStr msg.recordJson = .ok pushed)
    (hok : ((store.insertRecord pushed).run db).2 = .ok result) :
    TruthfulAck store fromStr db msg ↔ msg.recordId = pushed.id ∧
      ∃ stored, Records.getRecord ((store.insertRecord pushed).run db).1 pushed.id = some stored ∧
        SameButSig stored pushed := by
  unfold TruthfulAck
  rw [handleReplicatePush_run store fromStr hjson, hok, holdsPushed_iff fromStr hjson]
  constructor
  · intro h
    exact (h ⟨msg.recordId, true, ""⟩ rfl rfl).2
  · rintro h ack hack -
    obtain rfl := Outcome.ok.inj hack
    exact ⟨rfl, h⟩

/-- The answer to a push is truthful if and only if it is deserved. -/
theorem truthfulAck_iff (db : Db) (msg : ReplicatePush) :
    TruthfulAck store fromStr db msg ↔ AckDeserved store fromStr db msg := by
  cases hjson : fromStr msg.recordJson with
  | error e =>
    refine iff_of_true ?_ ?_
    · intro ack hack haccepted
      rw [handleReplicatePush, hjson] at hack
      obtain rfl := Outcome.ok.inj hack
      cases haccepted
    · intro pushed hpushed
      rw [hjson] at hpushed
      cases hpushed
  | ok pushed =>
    have hdeserved : AckDeserved store fromStr db msg ↔ (¬ store.Refuses db pushed →
        (Store.Skips db pushed → msg.recordId = pushed.id ∧
          ∃ stored, Records.getRecord db pushed.id = some stored ∧ SameButSig stored pushed) ∧
        (¬ Store.Skips db pushed → ¬ Index.Relisted db pushed.id pushed.schema pushed.tags →
          msg.recordId = pushed.id)) := by
      unfold AckDeserved
      rw [hjson]
      exact ⟨fun h => h pushed rfl, fun h pushed' hpushed' => Except.ok.inj hpushed' ▸ h⟩
    rw [hdeserved]
    rcases store.insertRecord_ends pushed db with ⟨hrefuses, e, hrun⟩ | ⟨hrefuses, hskips, hrun⟩ |
      ⟨hrefuses, hskips, hstored, ⟨hrelisted, hout⟩ | ⟨hfresh, result, -, hout⟩⟩
    · refine iff_of_true ?_ fun h => absurd hrefuses h
      intro ack hack haccepted
      rw [handleReplicatePush_run store fromStr hjson, hrun] at hack
      obtain rfl := Outcome.ok.inj hack
      cases haccepted
    · rw [truthfulAck_of_ok store fromStr hjson (congrArg Prod.snd hrun), hrun]
      exact ⟨fun h _ => ⟨fun _ => h, fun hnot => absurd hskips hnot⟩, fun h => (h hrefuses).1 hskips⟩
    · refine iff_of_true ?_ fun _ => ⟨fun h => absurd h hskips, fun _ h => absurd hrelisted h⟩
      intro ack hack
      rw [handleReplicatePush_run store fromStr hjson, hout] at hack
      cases hack
    · rw [truthfulAck_of_ok store fromStr hjson hout]
      -- the record is there under its own id
      have hheld : ∃ stored, Records.getRecord ((store.insertRecord pushed).run db).1 pushed.id =
          some stored ∧ SameButSig stored pushed := by
        refine ⟨store.signed pushed, ?_, sameButSig_signed store pushed⟩
        rw [Records.getRecord, hstored.records, OrderedTable.get_insert, if_pos rfl]
      rw [and_iff_left hheld]
      exact ⟨fun h _ => ⟨fun hyes => absurd hyes hskips, fun _ _ => h⟩,
        fun h => (h hrefuses).2 hskips hfresh⟩

/-- The push of an older record of a source, to a store that holds the newer one. -/
def olderPush : ReplicatePush := pushRecord (makeRecord "old" "src" 1 0)

def readsOlder (text : Bytes) : Except String ContentRecord :=
  if text = olderPush.recordJson then .ok (makeRecord "old" "src" 1 0) else .error "expected value"

def newerStored : Db := ((plainStore.insertRecord (makeRecord "new" "src" 2 0)).run .empty).1

/-- It is skipped, accepted, and not held. -/
theorem skipped_push_accepted : ¬ TruthfulAck plainStore readsOlder newerStored olderPush := by
  intro htruthful
  have haccepted : ((handleReplicatePush plainStore readsOlder olderPush).run newerStored).2 =
      .ok ⟨"old", true, ""⟩ := by
    decide +kernel
  have habsent : Records.getRecord ((handleReplicatePush plainStore readsOlder olderPush).run
      newerStored).1 "old" = none := by
    decide +kernel
  obtain ⟨-, pushed, stored, -, hstored, -⟩ := htruthful _ haccepted rfl
  cases habsent.symm.trans hstored

end Node

end DSearch
