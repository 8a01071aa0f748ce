import DSearch.Node.Handshake
import DSearch.Node.MessageLoop
import DSearch.Storage.InsertEnds

/-! # Panics of a connection: `node/server.rs`

The code of one connection, with the lines of its log that slice the peer's id: the task that the accept
loop spawns for it, `connect_to_peer`, and the task of its message loop (`handle_messages`). A panic ends
its task there, and what would have run after it in the task does not. -/

namespace DSearch
set_option autoImplicit false
open Transaction Framing

/-! ## The message loop with its log -/

/-- How the stream of a loop ends that no frame has ended: closed by the peer, a read that fails, or a
timer that finds the node stopped, with the result of writing the Goodbye. -/
inductive StreamEnd where
  | closed
  | failed (reason : String)
  | shutdown (written : Except String Unit)

/-- What a message loop meets: what it finds at every frame, the store, its stream, and the stream's
end. -/
structure LoopInput where
  envs : ℕ → LoopEnv
  node : NodeState
  events : List (Event UInt8)
  streamEnd : StreamEnd

def FrameError.display : FrameError → String
  | .payloadTooLarge got max =>
    "payload too large: " ++ toString got ++ " bytes (max " ++ toString max ++ ")"
  | .unknownMsgType t => "unknown message type: 0x" ++ (Sign.toHex [t]).toUpper

section
variable {ed : Ed25519} (logs : Logs) (read : PayloadReader)
  (fromStr : Bytes → Except String ContentRecord) (store : Option (Store ed)) (peerNodeId : String)

/-- The arm of a frame writes a line with the peer's id, right after it has decoded the payload. -/
def logsPeer (f : Frame) : Bool :=
  match f.msgType with
  | .announce => logs.debug && store.isNone && (read.announce f.payload).toBool
  | .searchQuery => logs.debug && (read.searchQuery f.payload).toBool
  | .recordFetch => logs.debug && (read.recordFetch f.payload).toBool
  | .replicatePush => logs.debug && store.isNone && (read.replicatePush f.payload).toBool
  | .peerExchange => logs.debug && (read.peerExchange f.payload).toBool
  | .goodbye => logs.info && (read.goodbye f.payload).toBool
  | _ => false

/-- `dispatch` with the log lines of its arms. -/
def dispatchLogged (envs : ℕ → LoopEnv) (s : LoopState) (f : Frame) : LoopState × Option LoopEnd :=
  if LogPanics (logsPeer logs read store f) peerNodeId then
    (⟨(envs s.turn).meanwhile s.node, s.sent, s.turn + 1⟩, some .panicked)
  else dispatch read fromStr store peerNodeId envs s f

/-- `handle_messages_inner` to the end of its stream. -/
def runMessages (input : LoopInput) : Outcome Unit :=
  let loop := Session.run Wire.frameCodec
    (dispatchLogged logs read fromStr store peerNodeId input.envs) input.events
    (Session.start ⟨input.node, [], 0⟩)
  match loop.ending with
  | some (.handler .closed) => .ok ()
  | some (.handler (.failed reason)) => .err reason
  | some (.handler .panicked) => .panic
  | some (.unreadable e) => .err e.display
  | none =>
    match input.streamEnd with
    | .closed => logged logs.info peerNodeId (.ok ())
    | .failed reason => .err reason
    | .shutdown (.error e) => .err e
    | .shutdown (.ok _) => logged logs.info peerNodeId (.ok ())

def handleMessages (input : LoopInput) : Client Shared (Outcome Unit) :=
  match runMessages logs read fromStr store peerNodeId input with
  | .panic => .done .panic
  | result => .write (·.leave peerNodeId) (.done (logged logs.info peerNodeId result))

/-- The task that is spawned for the loop: an error of `handle_messages` is logged. -/
def messageTask (input : LoopInput) : Client Shared (Outcome Unit) :=
  (handleMessages logs read fromStr store peerNodeId input).bind fun
    | .err e => .done (logged logs.debug peerNodeId (.err e))
    | result => .done result

end

/-- The task that the accept loop spawns for a connection. -/
def acceptedTask (ctx : ConnectionContext) (conn : Inbound) :
    Client Shared (Outcome (Option String)) :=
  .write (·.fetchAdd) ((handleConnection ctx conn).bind fun exchange =>
    match exchange.outcome with
    | .panic => .done .panic
    | result => .write (·.fetchSub) (.done result))

/-! ## Panics of one frame -/

section
variable {ed : Ed25519} (read : PayloadReader) (fromStr : Bytes → Except String ContentRecord)
  (store : Option (Store ed)) (peerNodeId : String)

/-- A push whose record is written and is then met in the inverted index. -/
def PushPanics (db : Db) (f : Frame) : Prop :=
  f.msgType = .replicatePush ∧ ∃ push s record, read.replicatePush f.payload = .ok push ∧
    store = some s ∧ fromStr push.recordJson = .ok record ∧ ¬ s.Refuses db record ∧
      ¬ Store.Skips db record ∧ Index.Relisted db record.id record.schema record.tags

theorem decodePayload_panic {α : Type} {decoded : Except String α}
    {next : α → Client NodeState (Outcome Answer)} {s : NodeState} :
    ((decodePayload decoded next).run s).2 = .panic ↔
      ∃ message, decoded = .ok message ∧ ((next message).run s).2 = .panic := by
  cases decoded <;> simp [decodePayload]

theorem decodePayload_ne_panic {α : Type} {decoded : Except String α}
    {next : α → Client NodeState (Outcome Answer)} {s : NodeState}
    (h : ∀ message, ((next message).run s).2 ≠ .panic) :
    ((decodePayload decoded next).run s).2 ≠ .panic := by
  rw [Ne, decodePayload_panic]
  rintro ⟨message, -, hpanic⟩
  exact h message hpanic

theorem handleAnnounce_ne_panic (s : Store ed) (msg : Announce) (db : Db) :
    ((Node.handleAnnounce s msg).run db).2 ≠ .panic := by
  unfold Node.handleAnnounce
  rw [Client.run_bind, Store.insertAnnouncement_run]
  cases (s.signedAnnouncement msg.announcement).validateSize <;> simp

theorem handleReplicatePush_panic_iff (s : Store ed) (push : ReplicatePush) (db : Db) :
    ((Node.handleReplicatePush s fromStr push).run db).2 = .panic ↔
      ∃ record, fromStr push.recordJson = .ok record ∧ ¬ s.Refuses db record ∧
        ¬ Store.Skips db record ∧ Index.Relisted db record.id record.schema record.tags := by
  cases hjson : fromStr push.recordJson with
  | error e => simp [Node.handleReplicatePush, hjson]
  | ok record =>
    rw [Node.handleReplicatePush_run s fromStr hjson]
    have hpanic := s.insertRecord_panic_iff record db
    have hack : Node.pushAck push.recordId ((s.insertRecord record).run db).2 = .panic ↔
        ((s.insertRecord record).run db).2 = .panic := by
      cases ((s.insertRecord record).run db).2 <;> simp [Node.pushAck]
    simp [hack, hpanic]

/-- A call on the database whose answer becomes a reply panics if the call does. -/
theorem run_reply_panic_iff {α : Type} (c : Client Db (Outcome α)) (msgType : MsgType)
    (toJson : α → Bytes) (node : NodeState) :
    (((NodeState.onDb c).andThen fun ack => replyWith msgType (toJson ack)).run node).2 = .panic ↔
      (c.run node.db).2 = .panic := by
  rw [Client.run_andThen, NodeState.run_onDb]
  cases (c.run node.db).2 <;> simp [replyWith]

/-- The one arm that may panic is that of a push. -/
theorem handleFrame_panic_iff (env : LoopEnv) (f : Frame) (node : NodeState) :
    ((handleFrame read fromStr store peerNodeId env f).run node).2 = .panic ↔
      PushPanics read fromStr store node.db f := by
  have hother : f.msgType ≠ .replicatePush → ¬ PushPanics read fromStr store node.db f :=
    fun h hpanics => h hpanics.1
  unfold handleFrame
  split
  case h_6 hpush =>
    rw [decodePayload_panic]
    unfold PushPanics
    cases store with
    | none => simp [replyWith]
    | some s =>
      simp only [run_reply_panic_iff, handleReplicatePush_panic_iff, hpush]
      constructor
      · rintro ⟨push, hread, record, hjson, hrest⟩
        exact ⟨trivial, push, s, record, hread, rfl, hjson, hrest⟩
      · rintro ⟨-, push, s', record, hread, hs, hjson, hrest⟩
        obtain rfl := Option.some.inj hs
        exact ⟨push, hread, record, hjson, hrest⟩
  case h_3 hannounce =>
    refine iff_of_false (decodePayload_ne_panic fun ann => ?_) (hother (by rw [hannounce]; decide))
    cases store with
    | none => simp [replyWith]
    | some s =>
      rw [Ne, run_reply_panic_iff]
      exact handleAnnounce_ne_panic s ann node.db
  case h_4 hsearch =>
    refine iff_of_false (decodePayload_ne_panic fun message => ?_) (hother (by rw [hsearch]; decide))
    cases store with
    | none => simp
    | some s => simp [replyWith]
  case h_5 hfetch =>
    refine iff_of_false (decodePayload_ne_panic fun message => ?_) (hother (by rw [hfetch]; decide))
    cases store with
    | none => simp
    | some s => simp [replyWith]
  case h_9 _ _ _ _ _ hpush _ _ => exact iff_of_false (by simp) (hother hpush)
  all_goals
    next htype =>
      refine iff_of_false (decodePayload_ne_panic fun message => ?_) (hother (by rw [htype]; decide))
      simp [replyWith]

theorem dispatch_panicked_iff (envs : ℕ → LoopEnv) (s : LoopState) (f : Frame) :
    (dispatch read fromStr store peerNodeId envs s f).2 = some .panicked ↔
      PushPanics read fromStr store ((envs s.turn).meanwhile s.node).db f := by
  rw [← handleFrame_panic_iff read fromStr store peerNodeId (envs s.turn) f]
  unfold dispatch
  dsimp only
  split <;> simp_all

/-- Every push that the loop dispatches finds a store that refuses its record, skips it, or does not
list it yet. -/
def PushesSafe (input : LoopInput) : Prop :=
  Served (dispatch read fromStr store peerNodeId input.envs)
    (fun s f => ¬ PushPanics read fromStr store ((input.envs s.turn).meanwhile s.node).db f)
    ⟨input.node, [], 0⟩
    (handleMessagesInner read fromStr store peerNodeId input.envs input.node input.events).dispatched

theorem handleMessagesInner_panicked_iff (input : LoopInput) :
    (handleMessagesInner read fromStr store peerNodeId input.envs input.node input.events).ending =
        some (.handler .panicked) ↔
      ¬ PushesSafe read fromStr store peerNodeId input := by
  have hserved := Session.servedFrom_run Wire.frameCodec
    (dispatch read fromStr store peerNodeId input.envs) input.events ⟨input.node, [], 0⟩
  have hend : (handleMessagesInner read fromStr store peerNodeId input.envs input.node
      input.events).handlerEnd = some .panicked ↔
      (handleMessagesInner read fromStr store peerNodeId input.envs input.node
        input.events).ending = some (.handler .panicked) := by
    unfold Session.handlerEnd
    split <;> simp_all
  unfold Session.ServedFrom at hserved
  unfold PushesSafe
  rw [served_iff (e := LoopEnd.panicked) fun s f => by rw [dispatch_panicked_iff, not_not], not_not,
    ← hend]
  unfold handleMessagesInner
  rw [hserved]

end

/-! ## Ids that no line panics on -/

/-- No line of the log panics on the id. -/
def Quiet (logs : Logs) (nodeId : String) : Prop :=
  ¬ LogPanics logs.debug nodeId ∧ ¬ LogPanics logs.info nodeId

theorem quiet_of_shortId {logs : Logs} {nodeId : String} (h : shortId nodeId ≠ none) :
    Quiet logs nodeId :=
  ⟨fun hpanics => h hpanics.2, fun hpanics => h hpanics.2⟩

/-- The outbound loop of a peer that has sent no id. -/
theorem quiet_empty (logs : Logs) : Quiet logs "" := quiet_of_shortId (by decide +kernel)

section
variable {ed : Ed25519} {logs : Logs} {read : PayloadReader}
  {fromStr : Bytes → Except String ContentRecord} {store : Option (Store ed)} {peerNodeId : String}

theorem logsPeer_level {f : Frame} (h : logsPeer logs read store f = true) :
    logs.debug = true ∨ logs.info = true := by
  unfold logsPeer at h
  split at h <;> simp_all

theorem dispatchLogged_eq (hquiet : Quiet logs peerNodeId) :
    dispatchLogged logs read fromStr store peerNodeId = dispatch read fromStr store peerNodeId := by
  funext envs s f
  unfold dispatchLogged
  rw [if_neg]
  rintro ⟨hlogs, hid⟩
  rcases logsPeer_level hlogs with hdebug | hinfo
  · exact hquiet.1 ⟨hdebug, hid⟩
  · exact hquiet.2 ⟨hinfo, hid⟩

theorem runMessages_panic_iff (hquiet : Quiet logs peerNodeId) (input : LoopInput) :
    runMessages logs read fromStr store peerNodeId input = .panic ↔
      ¬ PushesSafe read fromStr store peerNodeId input := by
  rw [← handleMessagesInner_panicked_iff]
  unfold runMessages
  rw [dispatchLogged_eq hquiet]
  have hinfo : ∀ result : Outcome Unit, logged logs.info peerNodeId result = result :=
    fun _ => if_neg hquiet.2
  unfold handleMessagesInner
  simp only [hinfo]
  generalize (Session.run _ _ _ _).ending = ending
  rcases ending with _ | (_ | reason | _) | e
  · rcases input.streamEnd with _ | reason | (e | _) <;> simp
  all_goals simp

/-- The task of a loop panics on a push, and on nothing else. -/
theorem messageTask_panic_iff (hquiet : Quiet logs peerNodeId) (input : LoopInput) (s : Shared) :
    ((messageTask logs read fromStr store peerNodeId input).run s).2 = .panic ↔
      ¬ PushesSafe read fromStr store peerNodeId input := by
  rw [← runMessages_panic_iff hquiet]
  unfold messageTask handleMessages
  have hinfo : ∀ result : Outcome Unit, logged logs.info peerNodeId result = result :=
    fun _ => if_neg hquiet.2
  have hdebug : ∀ result : Outcome Unit, logged logs.debug peerNodeId result = result :=
    fun _ => if_neg hquiet.1
  cases runMessages logs read fromStr store peerNodeId input <;> simp [hinfo, hdebug]

end

/-! ## The calls of a handshake -/

namespace Inbound
variable (conn : Inbound)

/-- The handshake that the peer has sent, if it has sent one that decodes. -/
def handshake? (reader : HandshakeReader) : Option Handshake :=
  match conn.opened, conn.firstFrame with
  | .ok _, .ok (some f) =>
    if f.msgType = .handshake then (reader.handshake f.payload).toOption else none
  | _, _ => none

/-- The version is compatible, and the ack could be written. -/
def enters (hs : Handshake) : Bool :=
  decide (absDiff hs.version PROTOCOL_VERSION ≤ 1) && conn.written.toBool

/-- A line with the peer's id is reached at a level that is enabled. -/
def logsId (logs : Logs) (hs : Handshake) : Bool := logs.debug || (logs.info && conn.enters hs)

end Inbound

/-- A call that neither panics nor starts a message loop. -/
def Idle {α : Type} (out : Outcome (Option α)) : Prop := out ≠ .panic ∧ ∀ a, out ≠ .ok (some a)

section
variable (ctx : ConnectionContext) (conn : Inbound)

theorem answerHandshake_outcome (addr : String) (hs : Handshake) :
    LogPanics ctx.logs.debug hs.nodeId ∧
        (answerHandshake ctx addr conn.written hs).outcome = .panic ∨
    ¬ LogPanics ctx.logs.debug hs.nodeId ∧
      (conn.enters hs = true ∧
          (answerHandshake ctx addr conn.written hs).outcome = .ok (some ⟨hs.nodeId, addr, hs.roles⟩) ∨
        conn.enters hs = false ∧ Idle (answerHandshake ctx addr conn.written hs).outcome) := by
  unfold answerHandshake
  by_cases hpanics : LogPanics ctx.logs.debug hs.nodeId
  · exact .inl ⟨hpanics, by rw [if_pos hpanics]⟩
  · refine .inr ⟨hpanics, ?_⟩
    rw [if_neg hpanics]
    by_cases hversion : absDiff hs.version PROTOCOL_VERSION > 1
    · refine .inr ⟨by simp [Inbound.enters, hversion], ?_⟩
      rw [if_pos hversion]
      cases hwritten : conn.written <;> simp [refuseVersion, afterWrite, Idle]
    · rw [if_neg hversion]
      cases hwritten : conn.written with
      | error e =>
        exact .inr ⟨by simp [Inbound.enters, hwritten, Except.toBool], by simp [afterWrite, Idle]⟩
      | ok _ =>
        exact .inl ⟨by simp [Inbound.enters, hwritten, Except.toBool, Nat.not_lt.mp hversion], rfl⟩

/-- `handle_connection` greets the peer whose handshake it has read, or does nothing. -/
theorem greetInbound_outcome :
    (conn.handshake? ctx.reader = none ∧ Idle (greetInbound ctx conn).outcome) ∨
    ∃ hs addr, conn.handshake? ctx.reader = some hs ∧
      (greetInbound ctx conn).outcome = (answerHandshake ctx addr conn.written hs).outcome := by
  unfold greetInbound Inbound.handshake?
  cases hopened : conn.opened with
  | error e => exact .inl ⟨rfl, by simp [Idle]⟩
  | ok addr =>
    rcases hframe : conn.firstFrame with e | _ | f
    · exact .inl ⟨rfl, by simp [onFirstFrame, Idle]⟩
    · exact .inl ⟨rfl, by simp [onFirstFrame, Idle]⟩
    · by_cases htype : f.msgType = .handshake
      · cases hdecoded : ctx.reader.handshake f.payload with
        | error e => exact .inl (by simp [onFirstFrame, htype, hdecoded, Idle, Except.toOption])
        | ok hs => exact .inr ⟨hs, addr, by simp [onFirstFrame, htype, hdecoded, Except.toOption]⟩
      · exact .inl (by simp [onFirstFrame, htype, Idle])

/-- The last line of the log before the message loop. -/
def afterEntry (logs : Logs) : Outcome (Option Peer) → Outcome (Option String)
  | .ok (some peer) => logged logs.info peer.nodeId (.ok (some peer.nodeId))
  | .ok none => .ok none
  | .err e => .err e
  | .panic => .panic

theorem Idle.afterEntry {logs : Logs} {out : Outcome (Option Peer)} (h : Idle out) :
    Idle (afterEntry logs out) := by
  rcases out with (_ | peer) | e | _
  · simp [DSearch.afterEntry, Idle]
  · exact absurd rfl (h.2 peer)
  · simp [DSearch.afterEntry, Idle]
  · exact absurd rfl h.1

theorem handleConnection_run (s : Shared) :
    ((handleConnection ctx conn).run s).1.activeConnections = s.activeConnections ∧
      ((handleConnection ctx conn).run s).2.outcome =
        afterEntry ctx.logs (greetInbound ctx conn).outcome := by
  unfold handleConnection
  dsimp only
  rcases (greetInbound ctx conn).outcome with (_ | peer) | e | _ <;> exact ⟨rfl, rfl⟩

/-- How `handle_connection` ends: idle, in a panic of the log, or with the peer's loop. -/
theorem handleConnection_cases (s : Shared) :
    (conn.handshake? ctx.reader = none ∧ Idle ((handleConnection ctx conn).run s).2.outcome) ∨
    ∃ hs, conn.handshake? ctx.reader = some hs ∧
      (LogPanics (conn.logsId ctx.logs hs) hs.nodeId ∧
          ((handleConnection ctx conn).run s).2.outcome = .panic ∨
        ¬ LogPanics (conn.logsId ctx.logs hs) hs.nodeId ∧
          (conn.enters hs = true ∧
              ((handleConnection ctx conn).run s).2.outcome = .ok (some hs.nodeId) ∨
            conn.enters hs = false ∧ Idle ((handleConnection ctx conn).run s).2.outcome)) := by
  rw [(handleConnection_run ctx conn s).2]
  rcases greetInbound_outcome ctx conn with ⟨hnone, hidle⟩ | ⟨hs, addr, hsome, hgreeting⟩
  · exact .inl ⟨hnone, hidle.afterEntry⟩
  · refine .inr ⟨hs, hsome, ?_⟩
    rw [hgreeting]
    rcases answerHandshake_outcome ctx conn addr hs with
      ⟨hdebug, hout⟩ | ⟨hdebug, ⟨henters, hout⟩ | ⟨henters, hidle⟩⟩
    · refine .inl ⟨⟨by simp [Inbound.logsId, hdebug.1], hdebug.2⟩, ?_⟩
      rw [hout]
      rfl
    · rw [hout]
      by_cases hinfo : LogPanics ctx.logs.info hs.nodeId
      · refine .inl ⟨⟨by simp [Inbound.logsId, hinfo.1, henters], hinfo.2⟩, ?_⟩
        exact if_pos hinfo
      · refine .inr ⟨fun hpanics => ?_, .inl ⟨henters, if_neg hinfo⟩⟩
        rcases Bool.or_eq_true_iff.mp hpanics.1 with hlevel | hlevel
        · exact hdebug ⟨hlevel, hpanics.2⟩
        · exact hinfo ⟨(Bool.and_eq_true_iff.mp hlevel).1, hpanics.2⟩
    · refine .inr ⟨fun hpanics => hdebug ⟨?_, hpanics.2⟩, .inr ⟨henters, hidle.afterEntry⟩⟩
      simpa [Inbound.logsId, henters] using hpanics.1

end

namespace Outbound
variable (conn : Outbound)

/-- The first frame of a connection that has opened and taken the handshake. -/
def answer (conn : Outbound) : Option (Option Frame) :=
  match conn.opened, conn.written 0, conn.firstFrame with
  | .ok _, .ok _, .ok frame => some frame
  | _, _, _ => none

def ack? (reader : HandshakeReader) : Option HandshakeAck :=
  match conn.answer with
  | some (some f) =>
    if f.msgType = .handshakeAck then (reader.handshakeAck f.payload).toOption else none
  | _ => none

/-- The peer closes the stream or answers with another frame. -/
def unacknowledged : Bool :=
  match conn.answer with
  | some none => true
  | some (some f) => decide (f.msgType ≠ .handshakeAck)
  | none => false

end Outbound

def HandshakeAck.compatible (ack : HandshakeAck) : Bool :=
  decide (absDiff ack.version PROTOCOL_VERSION ≤ 1)

def HandshakeAck.logsId (logs : Logs) (ack : HandshakeAck) : Bool :=
  logs.debug || (logs.info && ack.compatible)

/-- A call that ends in an error. -/
def Fails {α : Type} (out : Outcome α) : Prop := ∃ e, out = .err e

section
variable (ctx : ConnectionContext) (conn : Outbound)

theorem acceptAck_outcome (addr : String) (written : Except String Unit) (ack : HandshakeAck) :
    LogPanics ctx.logs.debug ack.nodeId ∧ (acceptAck ctx addr written ack).outcome = .panic ∨
    ¬ LogPanics ctx.logs.debug ack.nodeId ∧
      (ack.compatible = true ∧
          (acceptAck ctx addr written ack).outcome = .ok (some ⟨ack.nodeId, addr, ack.roles⟩) ∨
        ack.compatible = false ∧ Fails (acceptAck ctx addr written ack).outcome) := by
  unfold acceptAck
  by_cases hpanics : LogPanics ctx.logs.debug ack.nodeId
  · exact .inl ⟨hpanics, by rw [if_pos hpanics]⟩
  · refine .inr ⟨hpanics, ?_⟩
    rw [if_neg hpanics]
    by_cases hversion : absDiff ack.version PROTOCOL_VERSION > 1
    · refine .inr ⟨by simp [HandshakeAck.compatible, hversion], ?_⟩
      rw [if_pos hversion]
      cases written <;> simp [refuseVersion, afterWrite, Fails]
    · exact .inl ⟨by simp [HandshakeAck.compatible, Nat.not_lt.mp hversion], by rw [if_neg hversion]⟩

/-- `connect_to_peer` greets the peer whose ack it has read, a peer without an ack, or fails. -/
theorem greetOutbound_outcome :
    (conn.unacknowledged = true ∧ conn.ack? ctx.reader = none ∧
        (greetOutbound ctx conn).outcome = .ok none) ∨
    (conn.unacknowledged = false ∧ conn.ack? ctx.reader = none ∧ Fails (greetOutbound ctx conn).outcome) ∨
    ∃ ack addr, conn.unacknowledged = false ∧ conn.ack? ctx.reader = some ack ∧
      (greetOutbound ctx conn).outcome = (acceptAck ctx addr (conn.written 1) ack).outcome := by
  unfold greetOutbound Outbound.unacknowledged Outbound.ack? Outbound.answer
  cases hopened : conn.opened with
  | error e => exact .inr (.inl (by simp [Fails]))
  | ok addr =>
    cases hwritten : conn.written 0 with
    | error e => exact .inr (.inl (by simp [afterWrite, Fails]))
    | ok _ =>
      rcases hframe : conn.firstFrame with e | _ | f
      · exact .inr (.inl (by simp [afterWrite, onFirstFrame, Fails]))
      · exact .inl (by simp [afterWrite, onFirstFrame])
      · by_cases htype : f.msgType = .handshakeAck
        · cases hdecoded : ctx.reader.handshakeAck f.payload with
          | error e =>
            exact .inr (.inl (by
              simp [afterWrite, onFirstFrame, htype, hdecoded, Fails, Except.toOption]))
          | ok ack =>
            exact .inr (.inr ⟨ack, addr, by
              simp [afterWrite, onFirstFrame, htype, hdecoded, Except.toOption]⟩)
        · exact .inl (by simp [afterWrite, onFirstFrame, htype])

variable {ed : Ed25519} (store : Option (Store ed))

theorem greetNewPeer_outcome (sent : List Frame) (nodeId : String) (s : Shared) :
    ((greetNewPeer ctx store conn sent nodeId).run s).2.outcome = .ok nodeId := by
  unfold greetNewPeer
  cases store <;> rfl

/-- How `connect_to_peer` ends: with the loop of a peer, with that of a peer without an id, in a panic
of the log, or in an error. -/
theorem connectToPeer_cases (s : Shared) :
    (conn.unacknowledged = true ∧ conn.ack? ctx.reader = none ∧
        ((connectToPeer ctx store conn).run s).2.outcome = .ok "") ∨
    (conn.unacknowledged = false ∧ conn.ack? ctx.reader = none ∧
        Fails ((connectToPeer ctx store conn).run s).2.outcome) ∨
    ∃ ack, conn.unacknowledged = false ∧ conn.ack? ctx.reader = some ack ∧
      (LogPanics (ack.logsId ctx.logs) ack.nodeId ∧
          ((connectToPeer ctx store conn).run s).2.outcome = .panic ∨
        ¬ LogPanics (ack.logsId ctx.logs) ack.nodeId ∧
          (ack.compatible = true ∧
              ((connectToPeer ctx store conn).run s).2.outcome = .ok ack.nodeId ∨
            ack.compatible = false ∧ Fails ((connectToPeer ctx store conn).run s).2.outcome)) := by
  unfold connectToPeer
  dsimp only
  rcases greetOutbound_outcome ctx conn with ⟨hun, hnone, hout⟩ | ⟨hun, hnone, e, hout⟩ |
    ⟨ack, addr, hun, hsome, hgreeting⟩
  · refine .inl ⟨hun, hnone, ?_⟩
    rw [hout]
    rfl
  · refine .inr (.inl ⟨hun, hnone, e, ?_⟩)
    rw [hout]
    rfl
  · refine .inr (.inr ⟨ack, hun, hsome, ?_⟩)
    rw [hgreeting]
    rcases acceptAck_outcome ctx addr (conn.written 1) ack with
      ⟨hdebug, hout⟩ | ⟨hdebug, ⟨hcompatible, hout⟩ | ⟨hcompatible, e, hout⟩⟩
    · refine .inl ⟨⟨by simp [HandshakeAck.logsId, hdebug.1], hdebug.2⟩, ?_⟩
      rw [hout]
      rfl
    · rw [hout]
      dsimp only
      rw [Client.run_write]
      by_cases hinfo : LogPanics ctx.logs.info ack.nodeId
      · refine .inl ⟨⟨by simp [HandshakeAck.logsId, hinfo.1, hcompatible], hinfo.2⟩, ?_⟩
        rw [logged, if_pos hinfo]
        rfl
      · refine .inr ⟨fun hpanics => ?_, .inl ⟨hcompatible, ?_⟩⟩
        · rcases Bool.or_eq_true_iff.mp hpanics.1 with hlevel | hlevel
          · exact hdebug ⟨hlevel, hpanics.2⟩
          · exact hinfo ⟨(Bool.and_eq_true_iff.mp hlevel).1, hpanics.2⟩
        · rw [logged, if_neg hinfo]
          exact greetNewPeer_outcome ctx conn store _ _ _
    · refine .inr ⟨fun hpanics => hdebug ⟨?_, hpanics.2⟩, .inr ⟨hcompatible, e, ?_⟩⟩
      · simpa [HandshakeAck.logsId, hcompatible] using hpanics.1
      · rw [hout]
        rfl

end

/-! ## Connections that do not panic -/

theorem Inbound.quiet {conn : Inbound} {logs : Logs} {hs : Handshake}
    (hlogs : ¬ LogPanics (conn.logsId logs hs) hs.nodeId) (henters : conn.enters hs = true) :
    Quiet logs hs.nodeId := by
  constructor
  · exact fun h => hlogs ⟨by simp [Inbound.logsId, h.1], h.2⟩
  · exact fun h => hlogs ⟨by simp [Inbound.logsId, h.1, henters], h.2⟩

theorem HandshakeAck.quiet {logs : Logs} {ack : HandshakeAck}
    (hlogs : ¬ LogPanics (ack.logsId logs) ack.nodeId) (hcompatible : ack.compatible = true) :
    Quiet logs ack.nodeId := by
  constructor
  · exact fun h => hlogs ⟨by simp [HandshakeAck.logsId, h.1], h.2⟩
  · exact fun h => hlogs ⟨by simp [HandshakeAck.logsId, h.1, hcompatible], h.2⟩

section
variable {ed : Ed25519} (ctx : ConnectionContext) (read : PayloadReader)
  (fromStr : Bytes → Except String ContentRecord) (store : Option (Store ed))

/-- The message loop of a peer does not panic, whatever the tasks of the node share then. -/
def LoopSafe (input : LoopInput) (peerNodeId : String) : Prop :=
  ∀ s : Shared, ((messageTask ctx.logs read fromStr store peerNodeId input).run s).2 ≠ .panic

/-- Nothing panics that runs for an incoming connection, and the counter is what it was. -/
def InboundSafe (conn : Inbound) (input : LoopInput) : Prop :=
  ∀ s : Shared, ((acceptedTask ctx conn).run s).2 ≠ .panic ∧
    ((acceptedTask ctx conn).run s).1.activeConnections = s.activeConnections ∧
    ∀ p, ((acceptedTask ctx conn).run s).2 = .ok (some p) → LoopSafe ctx read fromStr store input p

/-- Nothing panics that runs for a connection that the node has dialled. -/
def OutboundSafe (conn : Outbound) (input : LoopInput) : Prop :=
  ∀ s : Shared, ((connectToPeer ctx store conn).run s).2.outcome ≠ .panic ∧
    ∀ p, ((connectToPeer ctx store conn).run s).2.outcome = .ok p →
      LoopSafe ctx read fromStr store input p

theorem loopSafe_iff {peerNodeId : String} (hquiet : Quiet ctx.logs peerNodeId) (input : LoopInput) :
    LoopSafe ctx read fromStr store input peerNodeId ↔
      PushesSafe read fromStr store peerNodeId input := by
  unfold LoopSafe
  simp only [Ne, messageTask_panic_iff hquiet, not_not]
  exact ⟨fun h => h ⟨0, .new, true, 0, input.node⟩, fun h _ => h⟩

/-- The counter after the task of a connection: `fetch_sub` runs if `handle_connection` returns. -/
theorem acceptedTask_run (conn : Inbound) (s : Shared) :
    ((acceptedTask ctx conn).run s).2 = ((handleConnection ctx conn).run s.fetchAdd).2.outcome ∧
      (((acceptedTask ctx conn).run s).1.activeConnections = s.activeConnections ↔
        ((handleConnection ctx conn).run s.fetchAdd).2.outcome ≠ .panic) := by
  have hcount : ((handleConnection ctx conn).run s.fetchAdd).1.activeConnections =
      s.activeConnections + 1 := (handleConnection_run ctx conn s.fetchAdd).1
  unfold acceptedTask
  rw [Client.run_write, Client.run_bind]
  cases hout : ((handleConnection ctx conn).run s.fetchAdd).2.outcome with
  | ok result =>
    refine ⟨rfl, iff_of_true ?_ (by simp)⟩
    exact (congrArg (· - 1) hcount).trans (UInt64.add_sub_cancel _ _)
  | err e =>
    refine ⟨rfl, iff_of_true ?_ (by simp)⟩
    exact (congrArg (· - 1) hcount).trans (UInt64.add_sub_cancel _ _)
  | panic =>
    refine ⟨rfl, iff_of_false (fun hsame => ?_) (by simp)⟩
    have hbalanced : s.activeConnections + 1 = s.activeConnections := hcount.symm.trans hsame
    simp at hbalanced

/-- An incoming connection is safe if and only if its handshake, if it has sent one, has an id that no
line reached slices inside a character, and the pushes of its loop, if it gets one, are safe. -/
theorem inboundSafe_iff (conn : Inbound) (input : LoopInput) :
    InboundSafe ctx read fromStr store conn input ↔
      ∀ hs ∈ conn.handshake? ctx.reader, ¬ LogPanics (conn.logsId ctx.logs hs) hs.nodeId ∧
        (conn.enters hs = true → PushesSafe read fromStr store hs.nodeId input) := by
  have hrun := acceptedTask_run ctx conn
  unfold InboundSafe
  simp only [(hrun _).1, (hrun _).2]
  constructor
  · intro hsafe hs hhs
    obtain ⟨hpanic, -, hloop⟩ := hsafe ⟨0, .new, true, 0, input.node⟩
    rcases handleConnection_cases ctx conn _ with ⟨hnone, -⟩ |
      ⟨hs', hsome, ⟨-, hout⟩ | ⟨hlogs, ⟨henters, hout⟩ | ⟨hstays, -⟩⟩⟩
    · rw [hnone] at hhs
      cases hhs
    · exact absurd hout hpanic
    · obtain rfl := Option.some.inj (hsome.symm.trans hhs)
      have hquiet := Inbound.quiet hlogs henters
      exact ⟨hlogs, fun _ => (loopSafe_iff ctx read fromStr store hquiet input).mp (hloop _ hout)⟩
    · obtain rfl := Option.some.inj (hsome.symm.trans hhs)
      refine ⟨hlogs, fun henters => ?_⟩
      rw [henters] at hstays
      cases hstays
  · intro hsafe s
    rcases handleConnection_cases ctx conn s.fetchAdd with ⟨-, hidle⟩ |
      ⟨hs, hsome, ⟨hlogs, hout⟩ | ⟨hlogs, ⟨henters, hout⟩ | ⟨-, hidle⟩⟩⟩
    · exact ⟨hidle.1, hidle.1, fun p hp => absurd hp (hidle.2 p)⟩
    · exact absurd hlogs (hsafe hs hsome).1
    · rw [hout]
      refine ⟨by simp, by simp, fun p hp => ?_⟩
      obtain rfl := Option.some.inj (Outcome.ok.inj hp)
      exact (loopSafe_iff ctx read fromStr store (Inbound.quiet hlogs henters) input).mpr
        ((hsafe hs hsome).2 henters)
    · exact ⟨hidle.1, hidle.1, fun p hp => absurd hp (hidle.2 p)⟩

theorem outboundSafe_iff (conn : Outbound) (input : LoopInput) :
    OutboundSafe ctx read fromStr store conn input ↔
      (∀ ack ∈ conn.ack? ctx.reader, ¬ LogPanics (ack.logsId ctx.logs) ack.nodeId ∧
        (ack.compatible = true → PushesSafe read fromStr store ack.nodeId input)) ∧
      (conn.unacknowledged = true → PushesSafe read fromStr store "" input) := by
  unfold OutboundSafe
  constructor
  · intro hsafe
    obtain ⟨hpanic, hloop⟩ := hsafe ⟨0, .new, true, 0, input.node⟩
    rcases connectToPeer_cases ctx conn store _ with ⟨hun, hnone, hout⟩ | ⟨hun, hnone, -⟩ |
      ⟨ack', hun, hsome, ⟨-, hout⟩ | ⟨hlogs, ⟨hcompatible, hout⟩ | ⟨hincompatible, -⟩⟩⟩
    · rw [hnone]
      refine ⟨fun ack hack => (by cases hack), fun _ => ?_⟩
      exact (loopSafe_iff ctx read fromStr store (quiet_empty _) input).mp (hloop _ hout)
    · rw [hnone, hun]
      exact ⟨fun ack hack => (by cases hack), fun h => absurd h (by simp)⟩
    · exact absurd hout hpanic
    · rw [hsome, hun]
      refine ⟨fun ack hack => ?_, fun h => absurd h (by simp)⟩
      obtain rfl := Option.some.inj hack
      have hquiet := HandshakeAck.quiet hlogs hcompatible
      exact ⟨hlogs, fun _ => (loopSafe_iff ctx read fromStr store hquiet input).mp (hloop _ hout)⟩
    · rw [hsome, hun]
      refine ⟨fun ack hack => ?_, fun h => absurd h (by simp)⟩
      obtain rfl := Option.some.inj hack
      exact ⟨hlogs, fun h => absurd h (by simp [hincompatible])⟩
  · rintro ⟨hacks, hunacknowledged⟩ s
    rcases connectToPeer_cases ctx conn store s with ⟨hun, -, hout⟩ | ⟨-, -, e, hout⟩ |
      ⟨ack, -, hsome, ⟨hlogs, hout⟩ | ⟨hlogs, ⟨hcompatible, hout⟩ | ⟨-, e, hout⟩⟩⟩
    · rw [hout]
      refine ⟨by simp, fun p hp => ?_⟩
      obtain rfl := Outcome.ok.inj hp
      exact (loopSafe_iff ctx read fromStr store (quiet_empty _) input).mpr (hunacknowledged hun)
    · rw [hout]
      exact ⟨by simp, fun p hp => by cases hp⟩
    · exact absurd hlogs (hacks ack hsome).1
    · rw [hout]
      refine ⟨by simp, fun p hp => ?_⟩
      obtain rfl := Outcome.ok.inj hp
      exact (loopSafe_iff ctx read fromStr store (HandshakeAck.quiet hlogs hcompatible) input).mpr
        ((hacks ack hsome).2 hcompatible)
    · rw [hout]
      exact ⟨by simp, fun p hp => by cases hp⟩

/-- Connections either way are safe under the two conditions, and under no others. -/
theorem connections_safe_iff (inbound : Inbound) (outbound : Outbound) (input : LoopInput) :
    (InboundSafe ctx read fromStr store inbound input ↔
      ∀ hs ∈ inbound.handshake? ctx.reader, ¬ LogPanics (inbound.logsId ctx.logs hs) hs.nodeId ∧
        (inbound.enters hs = true → PushesSafe read fromStr store hs.nodeId input)) ∧
    (OutboundSafe ctx read fromStr store outbound input ↔
      (∀ ack ∈ outbound.ack? ctx.reader, ¬ LogPanics (ack.logsId ctx.logs) ack.nodeId ∧
        (ack.compatible = true → PushesSafe read fromStr store ack.nodeId input)) ∧
      (outbound.unacknowledged = true → PushesSafe read fromStr store "" input)) :=
  ⟨inboundSafe_iff ctx read fromStr store inbound input,
    outboundSafe_iff ctx read fromStr store outbound input⟩

end

def slicedId : Handshake := handshakeOf "aaaaaaaé"

/-- An id whose eighth byte is inside a character: the line after the insertion panics, and the counter
stays up. -/
theorem handshake_panics_in_log :
    ((acceptedTask (.reading slicedId) (.sending slicedId)).run
        ⟨0, .new, true, 0, .new .empty⟩).2 = .panic ∧
      ((acceptedTask (.reading slicedId) (.sending slicedId)).run
        ⟨0, .new, true, 0, .new .empty⟩).1.activeConnections = 1 := by
  decide +kernel

end DSearch
