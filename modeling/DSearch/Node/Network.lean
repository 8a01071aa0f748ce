import DSearch.Foundations.Replicas
import DSearch.Node.Handshake
import DSearch.Node.MessageLoop
import DSearch.Storage.IndexRuns

/-! # A network of nodes: `connect_to_peer`, `handle_announce`, `handle_replicate_push`

Each node runs calls of its store and, whenever it connects to a peer, announces up to 50 of its records
and pushes up to 10. What it writes is in flight until the message loop of the peer reads it, in any
order over the streams of the network, or until its stream breaks. Acknowledgements are frames like any
other; the loop that gets them takes no notice. -/

namespace DSearch
set_option autoImplicit false
open Transaction Replicas

/-- What a node of the network is besides its state. The environment is what its message loops find. -/
structure NetNode (ed : Ed25519) where
  nodeId : String
  listenAddr : String
  store : Store ed
  env : LoopEnv

structure Packet (ι : Type) where
  src : ι
  dst : ι
  frame : Frame

/-- What may happen at a node besides the reception of a frame. `written` is the result of each write
to the stream of the peer. -/
inductive NodeCall (ι : Type) where
  | store (op : StoreOp)
  | announce (ann : Announcement)
  | announceTo (peer : ι) (written : ℕ → Except String Unit)
  | pushTo (peer : ι) (written : ℕ → Except String Unit)

namespace Network
variable {ι : Type} {ed : Ed25519} (nodes : ι → NetNode ed) (read : PayloadReader)
  (fromStr : Bytes → Except String ContentRecord)

/-- The announcements of `connect_to_peer`. -/
def announceFrames (listenAddr : String) (db : Db) : List Frame :=
  (Records.listRecords db none 50).map (announceFrame listenAddr)

/-- The pushes of `connect_to_peer`. -/
def pushFrames (db : Db) : List Frame := (Records.listRecords db none 10).map pushFrame

def call (i : ι) : NodeCall ι → NodeState → NodeState × List (Packet ι)
  | .store op, s => ({ s with db := (op.run (nodes i).store s.db).1 }, [])
  | .announce ann, s =>
    ({ s with db := (((nodes i).store.insertAnnouncement ann).run s.db).1 }, [])
  | .announceTo peer written, s =>
    (s, (writeAll written 0 (announceFrames (nodes i).listenAddr s.db)).map fun f => ⟨i, peer, f⟩)
  | .pushTo peer written, s =>
    (s, (writeAll written 0 (pushFrames s.db)).map fun f => ⟨i, peer, f⟩)

/-- The message loop of the addressee reads the frame; `read_frame` refuses one that is too large. -/
def receive (m : Packet ι) (s : NodeState) : NodeState × List (Packet ι) :=
  if m.frame.payload.length ≤ MAX_PAYLOAD_SIZE then
    let ran := (handleFrame read fromStr (some (nodes m.dst).store) (nodes m.src).nodeId
      (nodes m.dst).env m.frame).run s
    match ran.2 with
    | .ok (.reply frame) => (ran.1, [⟨m.dst, m.src, frame⟩])
    | _ => (ran.1, [])
  else (s, [])

def protocol : Protocol ι NodeState (Packet ι) (NodeCall ι) where
  call := call nodes
  dst := Packet.dst
  receive := receive nodes read fromStr

def start : Net ι NodeState (Packet ι) := ⟨fun _ => .new .empty, []⟩

theorem call_insert (i : ι) (record : ContentRecord) (s : NodeState) :
    ((protocol nodes read fromStr).call i (.store (.insert record)) s).1.db =
      (((nodes i).store.insertRecord record).run s.db).1 := by
  dsimp only [protocol, call]
  rw [StoreOp.run_insert]

/-! ## The frames of a connection -/

theorem writeAll_append (written : ℕ → Except String Unit) (n : ℕ) (first second : List Frame) :
    writeAll written n (first ++ second) =
      writeAll written n first ++ writeAll written (n + first.length) second := by
  induction first generalizing n with
  | nil => rfl
  | cons frame first ih =>
    have hn : n + (frame :: first).length = n + 1 + first.length := by
      rw [List.length_cons]
      omega
    rw [List.cons_append, writeAll, writeAll, hn]
    cases written n with
    | error e => exact ih (n + 1)
    | ok _ => rw [ih, List.cons_append]

theorem writeAll_shift (written : ℕ → Except String Unit) (n m : ℕ) (frames : List Frame) :
    writeAll written (n + m) frames = writeAll (fun k => written (n + k)) m frames := by
  induction frames generalizing m with
  | nil => rfl
  | cons frame frames ih =>
    rw [writeAll, writeAll, Nat.add_assoc, ih]

theorem mem_of_mem_writeAll {written : ℕ → Except String Unit} {n : ℕ} {frames : List Frame}
    {f : Frame} (h : f ∈ writeAll written n frames) : f ∈ frames := by
  induction frames generalizing n with
  | nil => exact h
  | cons frame frames ih =>
    rw [writeAll] at h
    cases hw : written n with
    | error e =>
      rw [hw] at h
      exact List.mem_cons_of_mem frame (ih h)
    | ok _ =>
      rw [hw] at h
      rcases List.mem_cons.mp h with rfl | hrest
      · exact List.mem_cons_self
      · exact List.mem_cons_of_mem frame (ih hrest)

/-- What `connect_to_peer` writes after the handshake is what the two calls of the network send. -/
theorem greetNewPeer_sends (ctx : ConnectionContext) (conn : Outbound) (sent : List Frame)
    (nodeId : String) (i peer : ι) (s : Shared) (haddr : ctx.listenAddr = (nodes i).listenAddr) :
    let announced := call nodes i (.announceTo peer fun k => conn.written (1 + k)) s.node
    let pushed := call nodes i (.pushTo peer fun k =>
      conn.written (1 + (announceFrames (nodes i).listenAddr s.node.db).length + k)) s.node
    ((greetNewPeer ctx (some (nodes i).store) conn sent nodeId).run s).2 =
      ⟨sent ++ (announced.2 ++ pushed.2).map Packet.frame, .ok nodeId⟩ := by
  have hannounced := writeAll_shift conn.written 1 0 (announceFrames (nodes i).listenAddr s.node.db)
  have hpushed := writeAll_shift conn.written
    (1 + (announceFrames (nodes i).listenAddr s.node.db).length) 0 (pushFrames s.node.db)
  rw [Nat.add_zero] at hannounced hpushed
  dsimp only [call]
  rw [greetNewPeer, Client.run_read, Client.run_read, Client.run_done, haddr, writeAll_append,
    ← hannounced, ← hpushed, List.map_append, List.map_map, List.map_map]
  have hframes : ∀ frames : List Frame,
      frames.map (Packet.frame ∘ fun f => (⟨i, peer, f⟩ : Packet ι)) = frames := fun frames =>
    List.map_id frames
  rw [hframes, hframes]
  rfl

/-! ## What the loops make of the frames -/

/-- `serde_json` reads back the push of a record, its record, and the announcements of it. -/
structure ReadsBack (record : ContentRecord) : Prop where
  push : read.replicatePush (pushRecord record).toJson = .ok (pushRecord record)
  json : fromStr record.toJson = .ok record
  announce : ∀ i, read.announce
    (sendAnnounce (connectAnnouncement (nodes i).listenAddr record)).toJson =
      .ok (sendAnnounce (connectAnnouncement (nodes i).listenAddr record))

def isAck : MsgType → Bool
  | .announceAck => true
  | .replicateAck => true
  | _ => false

variable {nodes read fromStr}

/-- A push that is read inserts its record. -/
theorem receive_push {m : Packet ι} {record : ContentRecord} (hframe : m.frame = pushFrame record)
    (hreads : ReadsBack nodes read fromStr record)
    (hfits : m.frame.payload.length ≤ MAX_PAYLOAD_SIZE) (s : NodeState) :
    (receive nodes read fromStr m s).1 =
        { s with db := (((nodes m.dst).store.insertRecord record).run s.db).1 } ∧
      ∀ reply ∈ (receive nodes read fromStr m s).2, isAck reply.frame.msgType = true := by
  have hdecoded : read.replicatePush m.frame.payload = .ok (pushRecord record) := by
    rw [hframe]
    exact hreads.push
  have htype : m.frame.msgType = .replicatePush := by
    rw [hframe]
    rfl
  have hrun := Node.handleReplicatePush_run (nodes m.dst).store fromStr
    (show fromStr (pushRecord record).recordJson = .ok record from hreads.json) s.db
  unfold receive
  rw [if_pos hfits]
  simp only [handleFrame, htype, hdecoded, decodePayload]
  rw [Client.run_andThen, NodeState.run_onDb, hrun]
  cases ((nodes m.dst).store.insertRecord record).run s.db with
  | mk db' out => cases out <;> simp [Node.pushAck, replyWith, isAck, Frame.new]

/-- A push that is read is acknowledged, unless the insertion panics. -/
theorem receive_push_acks {m : Packet ι} {record : ContentRecord} (hframe : m.frame = pushFrame record)
    (hreads : ReadsBack nodes read fromStr record)
    (hfits : m.frame.payload.length ≤ MAX_PAYLOAD_SIZE) {s : NodeState}
    (hout : (((nodes m.dst).store.insertRecord record).run s.db).2 ≠ .panic) :
    (receive nodes read fromStr m s).2.length = 1 := by
  have hdecoded : read.replicatePush m.frame.payload = .ok (pushRecord record) := by
    rw [hframe]
    exact hreads.push
  have htype : m.frame.msgType = .replicatePush := by
    rw [hframe]
    rfl
  have hrun := Node.handleReplicatePush_run (nodes m.dst).store fromStr
    (show fromStr (pushRecord record).recordJson = .ok record from hreads.json) s.db
  unfold receive
  rw [if_pos hfits]
  simp only [handleFrame, htype, hdecoded, decodePayload]
  rw [Client.run_andThen, NodeState.run_onDb, hrun]
  cases hinserted : ((nodes m.dst).store.insertRecord record).run s.db with
  | mk db' out =>
    rw [hinserted] at hout
    cases out with
    | panic => exact absurd rfl hout
    | ok _ => simp [Node.pushAck, replyWith]
    | err _ => simp [Node.pushAck, replyWith]

/-- An announcement that is read is offered to the announcements table. -/
theorem receive_announce {m : Packet ι} {record : ContentRecord} {i : ι}
    (hframe : m.frame = announceFrame (nodes i).listenAddr record)
    (hreads : ReadsBack nodes read fromStr record)
    (hfits : m.frame.payload.length ≤ MAX_PAYLOAD_SIZE) (s : NodeState) :
    (receive nodes read fromStr m s).1 = { s with db :=
        (((nodes m.dst).store.insertAnnouncement
          (connectAnnouncement (nodes i).listenAddr record)).run s.db).1 } ∧
      ∀ reply ∈ (receive nodes read fromStr m s).2, isAck reply.frame.msgType = true := by
  have hdecoded : read.announce m.frame.payload =
      .ok (sendAnnounce (connectAnnouncement (nodes i).listenAddr record)) := by
    rw [hframe]
    exact hreads.announce i
  have htype : m.frame.msgType = .announce := by
    rw [hframe]
    rfl
  have hannouncement : (sendAnnounce (connectAnnouncement (nodes i).listenAddr record)).announcement =
      connectAnnouncement (nodes i).listenAddr record := rfl
  unfold receive
  rw [if_pos hfits]
  simp only [handleFrame, htype, hdecoded, decodePayload]
  rw [Client.run_andThen, NodeState.run_onDb, Node.handleAnnounce, hannouncement, Client.run_bind]
  cases ((nodes m.dst).store.insertAnnouncement
    (connectAnnouncement (nodes i).listenAddr record)).run s.db with
  | mk db' out => cases out <;> simp [replyWith, isAck, Frame.new]

/-- The loop takes no notice of an acknowledgement. -/
theorem receive_ack {m : Packet ι} (hack : isAck m.frame.msgType = true) (s : NodeState) :
    receive nodes read fromStr m s = (s, []) := by
  unfold receive
  split
  · unfold isAck at hack
    split at hack
    · next htype => simp [handleFrame, htype]
    · next htype => simp [handleFrame, htype]
    · cases hack
  · rfl

/-- A frame over the cap ends the read. -/
theorem receive_large {m : Packet ι} (hlarge : ¬ m.frame.payload.length ≤ MAX_PAYLOAD_SIZE)
    (s : NodeState) : receive nodes read fromStr m s = (s, []) := if_neg hlarge

/-! ## Stand-ins for concrete runs -/

/-- Nodes at one address, without a quota and without a signing key. -/
def plainNodes (_ : ι) : NetNode .checksum := ⟨"ab12", "127.0.0.1:7744", plainStore, .quiet⟩

end Network

/-- A reader that knows the pushes and the announcements of these records. -/
def PayloadReader.ofRecords (records : List ContentRecord) : PayloadReader where
  __ := PayloadReader.onePing
  replicatePush text :=
    match records.find? fun record => (pushRecord record).toJson = text with
    | some record => .ok (pushRecord record)
    | none => .error "expected value"
  announce text :=
    let told := fun record => sendAnnounce (connectAnnouncement "127.0.0.1:7744" record)
    match records.find? fun record => (told record).toJson = text with
    | some record => .ok (told record)
    | none => .error "expected value"

def recordOf (records : List ContentRecord) (text : Bytes) : Except String ContentRecord :=
  match records.find? fun record => record.toJson = text with
  | some record => .ok record
  | none => .error "expected value"

/-- Records of distinct ids are told apart by what is printed of them, if it begins with the id. -/
theorem find?_printed {records : List ContentRecord} {record : ContentRecord}
    (hids : (records.map ContentRecord.id).Nodup) (h : record ∈ records) (text : ContentRecord → Bytes)
    (htext : ∀ r r', text r = text r' → r.id = r'.id) :
    records.find? (fun r => text r = text record) = some record := by
  have hfound : (records.find? fun r => text r = text record).isSome = true :=
    List.find?_isSome.mpr ⟨record, h, decide_eq_true rfl⟩
  obtain ⟨r, hr⟩ := Option.isSome_iff_exists.mp hfound
  have hprinted := List.find?_some hr
  have hsame : r.id = record.id := htext r record (of_decide_eq_true hprinted)
  rw [hr, List.inj_on_of_nodup_map hids (List.mem_of_find?_eq_some hr) h hsame]

theorem Network.readsBack_ofRecords {ι : Type} {records : List ContentRecord} {record : ContentRecord}
    (hids : (records.map ContentRecord.id).Nodup) (h : record ∈ records) :
    ReadsBack (plainNodes : ι → _) (.ofRecords records) (recordOf records) record := by
  constructor
  · have hpush := find?_printed hids h (fun r => (pushRecord r).toJson)
      fun _ _ => JsonText.ofFields_first_inj
    simp only [PayloadReader.ofRecords, hpush]
  · simp only [recordOf, find?_printed hids h _ fun _ _ => ContentRecord.id_of_toJson]
  · intro _
    have htold := find?_printed hids h
      (fun r => (sendAnnounce (connectAnnouncement "127.0.0.1:7744" r)).toJson)
      fun _ _ => JsonText.ofFields_first_inj
    simp only [PayloadReader.ofRecords, plainNodes, htold]

end DSearch
