import DSearch.Node.Messages

/-! # What a node checks before it stores what a peer sent

Neither handler verifies the signature that the message carries: `Store::verify_record` and
`Store::verify_announcement` exist and are not called on this path. What is refused is refused for
its size, the quota, or a text that is not a record; what is unsigned is signed by the receiver. -/

namespace DSearch
set_option autoImplicit false
open Transaction Node

/-- The announcement is stored as it was received and its signature verifies under the sender's key,
or nothing is written and the sender is told so. -/
def AnnounceChecked {ed : Ed25519} (store : Store ed) (sender : ed.VerifyingKey) (db : Db)
    (msg : Announce) : Prop :=
  let ann := msg.announcement
  let handled := (handleAnnounce store msg).run db
  (handled.1.announcements[ann.recordId ++ ":" ++ ann.holderAddr]? = some ann ∧
    Store.verifyAnnouncement ann sender = .ok .ok) ∨
  (handled.1 = db ∧ ∃ ack, handled.2 = .ok ack ∧ ack.accepted = false)

/-- The same for a pushed record. -/
def PushChecked {ed : Ed25519} (store : Store ed) (fromStr : Bytes → Except String ContentRecord)
    (sender : ed.VerifyingKey) (db : Db) (msg : ReplicatePush) : Prop :=
  let handled := (handleReplicatePush store fromStr msg).run db
  (∃ record, fromStr msg.recordJson = .ok record ∧ handled.1.records[record.id]? = some record ∧
    Store.verifyRecord record sender = .ok .ok) ∨
  (handled.1 = db ∧ ∃ ack, handled.2 = .ok ack ∧ ack.accepted = false)

theorem Store.verifySigText_ne_empty {sig failure : String} {check : Vector UInt8 64 → Bool}
    (h : Store.verifySigText sig check failure = .ok .ok) : sig ≠ "" := by
  rintro rfl
  simp [Store.verifySigText, Sign.parseSigBytes, asBytes, VerifyResult.ok, VerifyResult.fail] at h

variable {ed : Ed25519} (store : Store ed) (sender : ed.VerifyingKey) (db : Db)

theorem announceChecked_iff (msg : Announce) :
    AnnounceChecked store sender db msg ↔
      (store.signedAnnouncement msg.announcement).validateSize ≠ .ok () ∨
        Store.verifyAnnouncement msg.announcement sender = .ok .ok := by
  unfold AnnounceChecked handleAnnounce
  rw [Client.run_bind, Store.insertAnnouncement_run]
  cases hsize : (store.signedAnnouncement msg.announcement).validateSize with
  | error e => exact iff_of_true (.inr ⟨rfl, _, rfl, rfl⟩) (.inl (by simp))
  | ok _ =>
    simp only [Client.run_done, OrderedTable.get_insert, if_true, Option.some.injEq, ne_eq,
      not_true_eq_false, false_or]
    constructor
    · rintro (⟨-, hverified⟩ | ⟨-, _, ⟨⟩, hack⟩)
      · exact hverified
      · cases hack
    · intro hverified
      have hsig := Store.verifySigText_ne_empty hverified
      exact .inl ⟨store.signedAnnouncement_of_sig hsig, hverified⟩

theorem pushChecked_iff (fromStr : Bytes → Except String ContentRecord) (msg : ReplicatePush) :
    PushChecked store fromStr sender db msg ↔
      ∀ record, fromStr msg.recordJson = .ok record → store.Refuses db record ∨
        (Store.verifyRecord record sender = .ok .ok ∧
          (Store.Skips db record → db.records[record.id]? = some record)) := by
  unfold PushChecked
  cases hjson : fromStr msg.recordJson with
  | error e =>
    rw [handleReplicatePush, hjson]
    exact iff_of_true (.inr ⟨rfl, _, rfl, rfl⟩) (by simp)
  | ok record =>
    rw [handleReplicatePush_run store fromStr hjson]
    simp only [Except.ok.injEq, exists_eq_left', forall_eq', pushAck_rejects]
    obtain ⟨hrefused, e, heq⟩ | ⟨hnotRefused, hskips, heq⟩ |
      ⟨hnotRefused, hnotSkipped, db₁, result, hwritten, -, -, heq⟩ :=
      store.insertRecord_cases record db
    · rw [heq]
      exact iff_of_true (.inr ⟨rfl, e, rfl⟩) (.inl hrefused)
    · rw [heq]
      simp [hnotRefused, hskips, and_comm]
    · -- what is written is the record with a signature, whatever happens to the index after that
      have hstored := hwritten.stored
      rw [← (Index.indexRecord_onlyIndexChanged record.id record.schema record.tags db₁).records]
        at hstored
      have hanswer : ¬ ∃ e, ((store.insertRecord record).run db).2 = .err e := by
        rintro ⟨e, herr⟩
        rw [heq] at herr
        have hnoErr := Index.indexRecord_ne_err record.id record.schema record.tags db₁
        cases hout : ((Index.indexRecord record.id record.schema record.tags).run db₁).2 with
        | ok _ => simp [hout, Outcome.map] at herr
        | err e' => exact hnoErr e' hout
        | panic => simp [hout, Outcome.map] at herr
      rw [heq] at hanswer ⊢
      simp only [hanswer, and_false, or_false, hnotRefused, false_or, hnotSkipped, false_imp_iff,
        and_true, hstored, Option.some.injEq, and_iff_right_iff_imp]
      exact fun hverified => store.signed_of_sig (Store.verifySigText_ne_empty hverified)

/-- A message is handled as one whose signature was checked exactly if it is refused for its size or
the quota (or is no record), or if its signature verifies and its record is not skipped. -/
theorem messages_checked_iff (fromStr : Bytes → Except String ContentRecord) :
    (∀ msg, AnnounceChecked store sender db msg ↔
      (store.signedAnnouncement msg.announcement).validateSize ≠ .ok () ∨
        Store.verifyAnnouncement msg.announcement sender = .ok .ok) ∧
    ∀ msg, PushChecked store fromStr sender db msg ↔
      ∀ record, fromStr msg.recordJson = .ok record → store.Refuses db record ∨
        (Store.verifyRecord record sender = .ok .ok ∧
          (Store.Skips db record → db.records[record.id]? = some record)) :=
  ⟨announceChecked_iff store sender db, pushChecked_iff store sender db fromStr⟩

def unsignedAnnounce : Announce where
  recordId := "r1"
  sourceHash := "sh1"
  schema := "a/b"
  tags := []
  holderAddr := "h:1"
  expiresAt := 1
  sig := ""

/-- A node with a signing key stores an unsigned announcement, and signs it itself. -/
theorem unsigned_announce_accepted :
    ¬ ∀ (ed : Ed25519) (store : Store ed) (sender : ed.VerifyingKey) (db : Db)
      (fromStr : Bytes → Except String ContentRecord), store.signingKey.isSome →
        (∀ msg, AnnounceChecked store sender db msg) ∧
          ∀ msg, PushChecked store fromStr sender db msg := by
  intro hclaim
  obtain ⟨hchecked, -⟩ := hclaim .checksum ⟨⟨0, ""⟩, some (1 : UInt8)⟩ (2 : UInt8) Db.empty
    (fun _ => .error "not a record") rfl
  rcases (announceChecked_iff _ _ _ _).mp (hchecked unsignedAnnounce) with hrefused | hverified
  · revert hrefused
    decide +kernel
  · revert hverified
    decide +kernel

end DSearch
