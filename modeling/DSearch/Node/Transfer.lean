import DSearch.Node.MessageLoop
import DSearch.Storage.Capacity

/-! # Records on the wire

A record is stored if its JSON text has at most `MAX_RECORD_SIZE` bytes. It is sent as a string inside
another JSON text, in a `ReplicatePush` or a `RecordReply`, and a frame is read only if its payload has
at most `MAX_PAYLOAD_SIZE` bytes: the same number. -/

namespace DSearch
set_option autoImplicit false
open JsonText Transaction

/-- The frame that answers a `RecordFetch` for a stored record. -/
def fetchReplyFrame (record : ContentRecord) : Frame :=
  Frame.new .recordReply (recordReply record.id (some record)).toJson

/-- The bytes of a record's push besides the field names: its text with a backslash before each quote
and backslash, and three of its fields once more. -/
def pushedBytes (record : ContentRecord) : ℕ :=
  record.jsonLen + specials record.toJson + escapedLength record.id +
    escapedLength record.sourceHash + escapedLength record.sig

theorem length_ofText_toJson (record : ContentRecord) :
    (ofText record.toJson).length = record.jsonLen + specials record.toJson + 2 := by
  have hescaped := length_escaped_of_printable record.printable_toJson
  simp only [ofText, List.length_cons, List.length_append, hescaped, List.length_nil]
  rfl

theorem length_pushFrame (record : ContentRecord) :
    (pushFrame record).payload.length = pushedBytes record + 59 := by
  have htext := length_ofText_toJson record
  have hnames : (ofString "record_id").length = 11 ∧ (ofString "record_json").length = 13 ∧
      (ofString "source_hash").length = 13 ∧ (ofString "sig").length = 5 := by
    decide
  obtain ⟨hid, hjson, hhash, hsig⟩ := hnames
  simp only [pushFrame, Frame.new, ReplicatePush.toJson, pushRecord, ofFields, commaSeparated,
    List.map_cons, List.map_nil, List.length_cons, List.length_append, List.length_nil, hid, hjson,
    hhash, hsig, htext]
  simp only [length_ofString, pushedBytes]
  omega

/-- Each byte of the record's text takes two at most. -/
theorem length_pushFrame_le (record : ContentRecord) :
    (pushFrame record).payload.length ≤ 2 * record.jsonLen + escapedLength record.id +
      escapedLength record.sourceHash + escapedLength record.sig + 59 := by
  have hspecials : specials record.toJson ≤ record.jsonLen := List.countP_le_length
  rw [length_pushFrame, pushedBytes]
  omega

theorem pushFrame_fits {record : ContentRecord} (h : record.Short) :
    (pushFrame record).payload.length ≤ MAX_PAYLOAD_SIZE := by
  have hid := (escapedLength_le record.id).trans (Nat.mul_le_mul_left 6 h.id)
  have hhash := (escapedLength_le record.sourceHash).trans (Nat.mul_le_mul_left 6 h.sourceHash)
  have hsig := (escapedLength_le record.sig).trans (Nat.mul_le_mul_left 6 h.sig)
  have hlength := h.jsonLen_le
  have hpush := length_pushFrame_le record
  unfold MAX_PAYLOAD_SIZE
  omega

/-- The reply is shorter than the push: a flag stands in the place of two of the fields. -/
theorem length_fetchReplyFrame (record : ContentRecord) :
    (fetchReplyFrame record).payload.length =
      record.jsonLen + specials record.toJson + escapedLength record.id + 51 := by
  have htext := length_ofText_toJson record
  have hnames : (ofString "record_id").length = 11 ∧ (ofString "record_json").length = 13 ∧
      (ofString "not_found").length = 11 ∧ (ofBool false).length = 5 := by
    decide
  obtain ⟨hid, hjson, hflag, hfalse⟩ := hnames
  simp only [fetchReplyFrame, Frame.new, RecordReply.toJson, recordReply, Option.map_some,
    Option.isNone_some, Option.getD_some, ofFields, commaSeparated, List.map_cons, List.map_nil,
    List.length_cons, List.length_append, List.length_nil, hid, hjson, hflag, hfalse, htext]
  simp only [length_ofString]
  omega

/-- A frame that the receiver reads. -/
def Transferable (f : Frame) : Prop :=
  f.payload.length ≤ MAX_PAYLOAD_SIZE ∧ Wire.readFrame f.encode = .item f []

theorem transferable_iff {f : Frame} : Transferable f ↔ f.payload.length ≤ MAX_PAYLOAD_SIZE := by
  refine and_iff_left_of_imp fun hfits => ?_
  have hread := Wire.readFrame_encode hfits []
  rwa [List.append_nil] at hread

section
variable {ed : Ed25519} (read : PayloadReader) (fromStr : Bytes → Except String ContentRecord)
  (store : Store ed) (peerNodeId : String)

/-- The loop's answer to a fetch of a record that is stored. -/
theorem handleFrame_recordFetch {f : Frame} {message : RecordFetch} {s : NodeState}
    {record : ContentRecord} (env : LoopEnv) (htype : f.msgType = .recordFetch)
    (hread : read.recordFetch f.payload = .ok message) (hid : message.recordId = record.id)
    (hstored : Records.getRecord s.db record.id = some record) :
    ((handleFrame read fromStr (some store) peerNodeId env f).run s).2 =
      .ok (.reply (fetchReplyFrame record)) := by
  simp only [handleFrame, htype, decodePayload, hread, Client.run_read, hid, hstored]
  rfl

end

/-- A record that an empty store accepts. -/
theorem insertRecord_first {record : ContentRecord} (hvalid : record.validateSize = .ok ())
    (hcomma : ',' ∉ record.id.toList)
    (hkeys : (record.tags.map (Index.indexKey record.schema)).Nodup) :
    ((plainStore.insertRecord record).run .empty).2 = .ok .inserted := by
  have hdedup : Records.dedupResult .empty record = none := rfl
  have htx : Records.insertRecordTx record (some plainStore.config) .empty =
      ({ Db.empty with
        records := Db.empty.records.insert record.id record
        sourceIndex := Db.empty.sourceIndex.insert record.sourceHash record.id }, .ok .inserted) := by
    rw [Records.insertRecordTx, hdedup]
    rfl
  have hsigned : plainStore.signed record = record := rfl
  rw [plainStore.insertRecord_run, hsigned, Records.insertRecord_run, hvalid]
  dsimp only
  rw [htx]
  dsimp only
  rw [(Index.indexRecord_ok_iff hcomma record.schema record.tags _).mpr ⟨hkeys, ?_⟩]
  · rfl
  · intro tag _ hlisted
    exact absurd hlisted List.not_mem_nil

/-- An accepted record can be pushed and fetched if and only if its push is within the cap. -/
theorem insertRecord_transferable_iff {ed : Ed25519} (store : Store ed) (record : ContentRecord)
    (db db' : Db) (result : InsertResult)
    (haccepted : (store.insertRecord record).run db = (db', .ok result)) :
    (result ≠ .skippedOlder → Records.getRecord db' record.id = some (store.signed record)) ∧
    (Transferable (pushFrame (store.signed record)) ∧
        Transferable (fetchReplyFrame (store.signed record)) ↔
      pushedBytes (store.signed record) + 59 ≤ MAX_PAYLOAD_SIZE) := by
  constructor
  · intro hstored
    obtain ⟨-, e, herr⟩ | ⟨-, -, hskipped⟩ | ⟨-, -, db₁, _, hwritten, -, -, hrun⟩ :=
      store.insertRecord_cases record db
    · rw [haccepted] at herr
      cases congrArg Prod.snd herr
    · rw [haccepted] at hskipped
      exact absurd (Outcome.ok.inj (congrArg Prod.snd hskipped)) hstored
    · have htables := Index.indexRecord_onlyIndexChanged record.id record.schema record.tags db₁
      have hdb : db' = ((Index.indexRecord record.id record.schema record.tags).run db₁).1 :=
        congrArg Prod.fst (haccepted.symm.trans hrun)
      rw [Records.getRecord, hdb, htables.records]
      exact hwritten.stored
  · have hpush := length_pushFrame (store.signed record)
    have hreply := length_fetchReplyFrame (store.signed record)
    rw [transferable_iff, transferable_iff, hpush, hreply]
    unfold pushedBytes
    omega

theorem insertRecord_transferable_iff_small :
    (InsertResult.inserted ≠ .skippedOlder →
      Records.getRecord ((plainStore.insertRecord (makeRecord "r1" "sh1" 1000 5000)).run .empty).1 "r1" =
        some (plainStore.signed (makeRecord "r1" "sh1" 1000 5000))) ∧
    (Transferable (pushFrame (plainStore.signed (makeRecord "r1" "sh1" 1000 5000))) ∧
        Transferable (fetchReplyFrame (plainStore.signed (makeRecord "r1" "sh1" 1000 5000))) ↔
      pushedBytes (plainStore.signed (makeRecord "r1" "sh1" 1000 5000)) + 59 ≤ MAX_PAYLOAD_SIZE) :=
  insertRecord_transferable_iff plainStore (makeRecord "r1" "sh1" 1000 5000) .empty _ .inserted
    (Client.run_eq (insertRecord_first
      (makeRecord_short "" (by decide) (by decide) (by decide) (by decide) (by decide)).validateSize
      (by decide) (by decide)))

/-- A record of almost the largest size is stored, and neither its push nor its reply can be read. -/
theorem longRecord_untransferable (length : ℕ) (hlong : 1024 * 1024 - 256 < length)
    (hshort : length + 207 ≤ 1024 * 1024) :
    ((plainStore.insertRecord (longRecord 1000 length)).run .empty).2 = .ok .inserted ∧
      ¬ Transferable (pushFrame (longRecord 1000 length)) ∧
      ¬ Transferable (fetchReplyFrame (longRecord 1000 length)) := by
  have hlen := longRecord_jsonLen length (show (JsonText.ofNat 1000).length = 4 by decide)
  have hvalid := longRecord_valid hlen hshort
  have hcomma : ',' ∉ "r1".toList := by decide
  have hkeys : (["test"].map (Index.indexKey "wiki/article")).Nodup := by simp
  have hpush := length_pushFrame (longRecord 1000 length)
  have hreply := length_fetchReplyFrame (longRecord 1000 length)
  refine ⟨insertRecord_first hvalid hcomma hkeys, ?_, ?_⟩
  · rw [transferable_iff, hpush, pushedBytes, hlen]
    unfold MAX_PAYLOAD_SIZE
    omega
  · rw [transferable_iff, hreply, hlen]
    unfold MAX_PAYLOAD_SIZE
    omega

/-- A record of exactly `MAX_RECORD_SIZE` bytes. -/
theorem insertRecord_accepts_untransferable :
    ¬ ∀ record : ContentRecord, ((plainStore.insertRecord record).run .empty).2 = .ok .inserted →
      Transferable (pushFrame (plainStore.signed record)) ∧
        Transferable (fetchReplyFrame (plainStore.signed record)) := by
  intro hclaim
  obtain ⟨haccepted, hpush, -⟩ := longRecord_untransferable 1048369 (by decide) (by decide)
  exact hpush (hclaim _ haccepted).1

end DSearch
