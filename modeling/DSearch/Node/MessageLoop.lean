import DSearch.Node.Routing
import DSearch.Node.State
import DSearch.Proto.Payload

/-! # The message loop of a connection: `handle_messages_inner` of `node/server.rs`

The loop waits in a `select!` for a frame or for its 500 ms timer. A frame is dispatched on its type;
when the timer fires first, the `read_frame` under way is dropped, with the bytes that its `read_exact`
calls have taken. The runs are those of a running node over an open stream; a failed read or write of
the stream is not modelled, and log lines are left out. -/

namespace DSearch
set_option autoImplicit false
open Transaction Framing

/-- What the loop finds when it dispatches a frame: what other tasks have done to the store since the
last one, the routing table that they share, and what a call on the store reads besides it. -/
structure LoopEnv where
  meanwhile : NodeState → NodeState
  routingTable : RoutingTable
  nodeEnv : NodeEnv

inductive LoopEnd where
  | closed
  | failed (reason : String)
  | panicked
  deriving DecidableEq, Repr

/-- What a frame leads to: a reply, nothing, or the end of the loop. -/
inductive Answer where
  | reply (frame : Frame)
  | silent
  | leave
  deriving DecidableEq, Repr

/-- The loop between two frames: the store, the frames sent, and how many were dispatched. -/
structure LoopState where
  node : NodeState
  sent : List Frame
  turn : ℕ

section
variable {ed : Ed25519} (read : PayloadReader) (fromStr : Bytes → Except String ContentRecord)
  (store : Option (Store ed)) (peerNodeId : String)

/-- `f.decode_payload()?` and what follows it. -/
def decodePayload {α : Type} (decoded : Except String α)
    (next : α → Client NodeState (Outcome Answer)) : Client NodeState (Outcome Answer) :=
  match decoded with
  | .error e => .done (.err e)
  | .ok message => next message

def replyWith (msgType : MsgType) (payload : Bytes) : Client NodeState (Outcome Answer) :=
  .done (.ok (.reply (Frame.new msgType payload)))

def peerInfo (entry : RoutingEntry) : NodeInfo := ⟨entry.nodeId, entry.addr⟩

def searchReply (query : String) (results : List ContentRecord) : SearchReply where
  query := query
  results := results.map fun r => ⟨r.id, r.schema, r.tags, "", asBytes "1.0"⟩
  fromNode := peerNodeId

/-- The reply of the `RecordFetch` arm. -/
def recordReply (recordId : String) (found : Option ContentRecord) : RecordReply where
  recordId := recordId
  recordJson := found.map ContentRecord.toJson
  notFound := found.isNone

/-- One arm for each message type that the loop answers. -/
def handleFrame (env : LoopEnv) (f : Frame) : Client NodeState (Outcome Answer) :=
  match f.msgType with
  | .ping => decodePayload (read.ping f.payload) fun ping =>
    replyWith .pong (Pong.toJson ⟨ping.nonce⟩)
  | .findNode => decodePayload (read.findNode f.payload) fun message =>
    let closest := env.routingTable.findClosest message.targetId 20
    replyWith .findNodeReply (FindNodeReply.toJson ⟨closest.map peerInfo⟩)
  | .announce => decodePayload (read.announce f.payload) fun ann =>
    match store with
    | some s => (NodeState.onDb (Node.handleAnnounce s ann)).andThen fun ack =>
      replyWith .announceAck ack.toJson
    | none => replyWith .announceAck (AnnounceAck.toJson ⟨ann.recordId, false, "no store"⟩)
  | .searchQuery => decodePayload (read.searchQuery f.payload) fun message =>
    match store with
    | some _ => (NodeState.searchRecords env.nodeEnv message.query message.limit).bind fun results =>
      replyWith .searchReply (searchReply peerNodeId message.query results).toJson
    | none => .done (.ok .silent)
  | .recordFetch => decodePayload (read.recordFetch f.payload) fun message =>
    match store with
    | some _ => .read fun s =>
      replyWith .recordReply
        (recordReply message.recordId (Records.getRecord s.db message.recordId)).toJson
    | none => .done (.ok .silent)
  | .replicatePush => decodePayload (read.replicatePush f.payload) fun push =>
    match store with
    | some s => (NodeState.onDb (Node.handleReplicatePush s fromStr push)).andThen fun ack =>
      replyWith .replicateAck ack.toJson
    | none => replyWith .replicateAck (ReplicateAck.toJson ⟨push.recordId, false, "no store"⟩)
  | .peerExchange => decodePayload (read.peerExchange f.payload) fun _ =>
    let ourPeers := env.routingTable.list.filter fun e => e.nodeId ≠ peerNodeId
    replyWith .peerExchange (PeerExchange.toJson ⟨ourPeers.map peerInfo⟩)
  | .goodbye => decodePayload (read.goodbye f.payload) fun _ => .done (.ok .leave)
  -- a handshake, or a reply that the loop did not ask for
  | _ => .done (.ok .silent)

/-- The `match` of the loop on a frame that it has read. -/
def dispatch (envs : ℕ → LoopEnv) (s : LoopState) (f : Frame) : LoopState × Option LoopEnd :=
  let env := envs s.turn
  let ran := (handleFrame read fromStr store peerNodeId env f).run (env.meanwhile s.node)
  match ran.2 with
  | .ok (.reply frame) => (⟨ran.1, s.sent ++ [frame], s.turn + 1⟩, none)
  | .ok .silent => (⟨ran.1, s.sent, s.turn + 1⟩, none)
  | .ok .leave => (⟨ran.1, s.sent, s.turn + 1⟩, some .closed)
  | .err reason => (⟨ran.1, s.sent, s.turn + 1⟩, some (.failed reason))
  | .panic => (⟨ran.1, s.sent, s.turn + 1⟩, some .panicked)

abbrev MessageSession := Session LoopState Frame UInt8 FrameError LoopEnd

/-- `handle_messages_inner` over chunks of the stream and timers. -/
def handleMessagesInner (envs : ℕ → LoopEnv) (node : NodeState) (events : List (Event UInt8)) :
    MessageSession :=
  Session.run Wire.frameCodec (dispatch read fromStr store peerNodeId envs) events
    (Session.start ⟨node, [], 0⟩)

/-- The loop as it would be on frames that need not be read from a stream. -/
def serveFrames (envs : ℕ → LoopEnv) (node : NodeState) (frames : List Frame) :
    LoopState × List Frame × Option LoopEnd :=
  serve (dispatch read fromStr store peerNodeId envs) ⟨node, [], 0⟩ frames

end

/-! ## Stand-ins for concrete runs -/

/-- A reader that knows one ping. -/
def PayloadReader.onePing : PayloadReader where
  ping text := if text = Pong.toJson ⟨7⟩ then .ok ⟨7⟩ else .error "expected value"
  findNode _ := .error "expected value"
  announce _ := .error "expected value"
  searchQuery _ := .error "expected value"
  recordFetch _ := .error "expected value"
  replicatePush _ := .error "expected value"
  peerExchange _ := .error "expected value"
  goodbye _ := .error "expected value"

def LoopEnv.quiet : LoopEnv := ⟨id, .new, ⟨0, 0, .sorted, id⟩⟩

def pingFrame : Frame := Frame.new .ping (Pong.toJson ⟨7⟩)

def noStore : Option (Store .checksum) := none

/-- The loop of a node without a store, on those. -/
def runOnePing (events : List (Event UInt8)) : MessageSession :=
  handleMessagesInner .onePing (fun _ => .error "expected value") noStore "" (fun _ => .quiet)
    (.new .empty) events

example : (runOnePing [.chunk pingFrame.encode]).state.sent = [Frame.new .pong pingFrame.payload] := by
  decide +kernel

section
variable {ed : Ed25519} (read : PayloadReader) (fromStr : Bytes → Except String ContentRecord)
  (store : Option (Store ed)) (peerNodeId : String) (envs : ℕ → LoopEnv) (node : NodeState)

/-! ## Timers -/

/-- The frames sent are the frames dispatched if and only if every payload is within the cap, no timer
fires inside a frame, and no frame but the last one ends the loop. -/
theorem handleMessagesInner_dispatched_iff (frames : List Frame) (events : List (Event UInt8))
    (hbytes : arrived events = frames.flatMap Frame.encode) :
    (handleMessagesInner read fromStr store peerNodeId envs node events).dispatched = frames ↔
      (∀ f ∈ frames, f.payload.length ≤ MAX_PAYLOAD_SIZE) ∧
      ¬ Session.Cut Wire.frameCodec frames events ∧
      ∀ done left, frames = done ++ left → left ≠ [] →
        (serveFrames read fromStr store peerNodeId envs node done).2.2 = none :=
  Session.dispatched_eq_iff rfl _ hbytes

end

theorem handleMessagesInner_dispatched_iff_timerBetween :
    (handleMessagesInner .onePing (fun _ => .error "expected value") noStore ""
        (fun _ => .quiet) (.new .empty)
        [.chunk pingFrame.encode, .timer, .chunk pingFrame.encode]).dispatched =
        [pingFrame, pingFrame] ↔
      (∀ f ∈ [pingFrame, pingFrame], f.payload.length ≤ MAX_PAYLOAD_SIZE) ∧
      ¬ Session.Cut Wire.frameCodec [pingFrame, pingFrame]
          [.chunk pingFrame.encode, .timer, .chunk pingFrame.encode] ∧
      ∀ done left, [pingFrame, pingFrame] = done ++ left → left ≠ [] →
        (serveFrames .onePing (fun _ => .error "expected value") noStore ""
          (fun _ => .quiet) (.new .empty) done).2.2 = none :=
  handleMessagesInner_dispatched_iff _ _ _ _ _ _ _ _ (by decide +kernel)

/-- A timer after three bytes of a ping: the ping is lost, and the loop reads its other bytes as the
header of a frame that is too large. -/
theorem timer_inside_frame_loses_it :
    arrived [.chunk (pingFrame.encode.take 3), .timer, .chunk (pingFrame.encode.drop 3)] =
        [pingFrame].flatMap Frame.encode ∧
      (runOnePing [.chunk (pingFrame.encode.take 3), .timer,
        .chunk (pingFrame.encode.drop 3)]).dispatched = [] ∧
      (runOnePing [.chunk (pingFrame.encode.take 3), .timer,
        .chunk (pingFrame.encode.drop 3)]).ending =
          some (.unreadable (.payloadTooLarge 192619118 MAX_PAYLOAD_SIZE)) := by
  decide +kernel

/-! ## Unknown message types -/

/-- What a peer may send: a frame, or a frame with a type byte that this version does not know. -/
inductive Sent where
  | known (f : Frame)
  | unknown (version msgByte : UInt8) (payload : Bytes)
  deriving DecidableEq, Repr

namespace Sent

def encode : Sent → Bytes
  | known f => f.encode
  | unknown version msgByte payload =>
    version :: msgByte :: Sign.lengthPrefix payload.length ++ payload

def WellFormed : Sent → Prop
  | known f => f.payload.length ≤ MAX_PAYLOAD_SIZE
  | unknown _ msgByte payload =>
    MsgType.fromU8 msgByte = none ∧ payload.length ≤ MAX_PAYLOAD_SIZE

instance : DecidablePred WellFormed := fun
  | known _ => inferInstanceAs (Decidable (_ ≤ _))
  | unknown _ _ _ => inferInstanceAs (Decidable (_ ∧ _))

def frame? : Sent → Option Frame
  | known f => some f
  | unknown _ _ _ => none

/-- The frames before the first unknown one. -/
def framesBefore : List Sent → List Frame
  | known f :: sent => f :: framesBefore sent
  | _ => []

/-- The frames before the first unknown one, and that one if there is one. -/
theorem split_first_unknown (sent : List Sent) :
    (∃ frames : List Frame, sent = frames.map known) ∨
    ∃ version msgByte payload rest,
      sent = (framesBefore sent).map known ++ unknown version msgByte payload :: rest := by
  induction sent with
  | nil => exact .inl ⟨[], rfl⟩
  | cons m sent ih =>
    cases m with
    | unknown version msgByte payload => exact .inr ⟨version, msgByte, payload, sent, rfl⟩
    | known f =>
      rcases ih with ⟨frames, hframes⟩ | ⟨version, msgByte, payload, rest, hsplit⟩
      · exact .inl ⟨f :: frames, by rw [hframes]; rfl⟩
      · refine .inr ⟨version, msgByte, payload, rest, ?_⟩
        rw [framesBefore, List.map_cons, List.cons_append, ← hsplit]

theorem filterMap_known (frames : List Frame) : (frames.map known).filterMap frame? = frames := by
  induction frames with
  | nil => rfl
  | cons f frames ih =>
    have hhead : frame? (known f) = some f := rfl
    rw [List.map_cons, List.filterMap_cons_some hhead, ih]

theorem flatMap_encode_known (frames : List Frame) :
    (frames.map known).flatMap encode = frames.flatMap Frame.encode := by
  rw [List.flatMap_map]
  rfl

/-- The reader fails on the header of an unknown frame. -/
theorem read_unknown {version msgByte : UInt8} {payload : Bytes}
    (h : (unknown version msgByte payload).WellFormed) (rest : Bytes) :
    Wire.readFrame ((unknown version msgByte payload).encode ++ rest) =
      .fail (.unknownMsgType msgByte) := by
  obtain ⟨hbyte, hfits⟩ := h
  unfold MAX_PAYLOAD_SIZE at hfits
  have hlength := Wire.fromBeBytes_lengthPrefix (n := payload.length) (by omega)
  have hcap : ¬ payload.length > MAX_PAYLOAD_SIZE := by
    unfold MAX_PAYLOAD_SIZE
    omega
  simp only [encode, Sign.lengthPrefix, List.cons_append, List.nil_append, Wire.readFrame, hlength,
    hcap, if_false, hbyte]

end Sent

section
variable {ed : Ed25519} (read : PayloadReader) (fromStr : Bytes → Except String ContentRecord)
  (store : Option (Store ed)) (peerNodeId : String) (envs : ℕ → LoopEnv) (node : NodeState)

theorem handleMessagesInner_chunks (chunks : List Bytes) :
    handleMessagesInner read fromStr store peerNodeId envs node (chunks.map .chunk) =
      handleMessagesInner read fromStr store peerNodeId envs node [.chunk chunks.flatten] := by
  cases chunks with
  | nil => rfl
  | cons chunk chunks => exact Session.run_chunks _ chunk chunks

/-- The loop does with unknown frames what it does without them if and only if there are none, or the
frames before the first one have ended it. -/
theorem handleMessagesInner_unknown_iff (sent : List Sent) (hsent : ∀ m ∈ sent, m.WellFormed)
    (chunks : List Bytes) (hbytes : chunks.flatten = sent.flatMap Sent.encode) :
    handleMessagesInner read fromStr store peerNodeId envs node (chunks.map .chunk) =
        handleMessagesInner read fromStr store peerNodeId envs node
          [.chunk ((sent.filterMap Sent.frame?).flatMap Frame.encode)] ↔
      (∀ m ∈ sent, m.frame? ≠ none) ∨
        (serveFrames read fromStr store peerNodeId envs node (Sent.framesBefore sent)).2.2 ≠ none := by
  rw [handleMessagesInner_chunks read fromStr store peerNodeId envs node, hbytes]
  rcases Sent.split_first_unknown sent with ⟨frames, hframes⟩ | ⟨version, msgByte, payload, rest, hsplit⟩
  · have hknown : ∀ m ∈ sent, m.frame? ≠ none := by
      intro m hm
      rw [hframes] at hm
      obtain ⟨f, -, rfl⟩ := List.mem_map.mp hm
      exact Option.some_ne_none f
    rw [hframes, Sent.filterMap_known, Sent.flatMap_encode_known, ← hframes]
    exact ⟨fun _ => .inl hknown, fun _ => rfl⟩
  · generalize Sent.framesBefore sent = frames at hsplit ⊢
    subst hsplit
    have hnotKnown : ¬ ∀ m ∈ frames.map Sent.known ++ .unknown version msgByte payload :: rest,
        m.frame? ≠ none := by
      intro hknown
      exact hknown (.unknown version msgByte payload) (by simp) rfl
    have hbad : Wire.frameCodec.read
        ((Sent.unknown version msgByte payload).encode ++ rest.flatMap Sent.encode) =
          .fail (.unknownMsgType msgByte) :=
      Sent.read_unknown (hsent (.unknown version msgByte payload) (by simp)) _
    have hvalid : ∀ f ∈ frames ++ rest.filterMap Sent.frame?, Wire.Fits f := by
      intro f hf
      rcases List.mem_append.mp hf with hf | hf
      · exact hsent (.known f) (List.mem_append_left _ (List.mem_map_of_mem hf))
      · obtain ⟨m, hm, hframe⟩ := List.mem_filterMap.mp hf
        cases m with
        | unknown version msgByte payload => cases hframe
        | known f' =>
          obtain rfl := Option.some.inj hframe
          exact hsent (.known f') (List.mem_append_right _ (List.mem_cons_of_mem _ hm))
    have hiff := Session.feed_unreadable_eq_iff Wire.frameCodec
      (dispatch read fromStr store peerNodeId envs) rfl hvalid hbad ⟨node, [], 0⟩
    rw [List.filterMap_append, Sent.filterMap_known, List.filterMap_cons_none rfl,
      List.flatMap_append, Sent.flatMap_encode_known, List.flatMap_cons]
    rw [or_iff_right hnotKnown]
    exact hiff

end

theorem handleMessagesInner_unknown_iff_afterGoodbye :
    handleMessagesInner .onePing (fun _ => .error "expected value") noStore ""
        (fun _ => .quiet) (.new .empty)
        ([Frame.encode ⟨1, .goodbye, []⟩, [1, 0x10, 0, 0, 0, 0]].map .chunk) =
      handleMessagesInner .onePing (fun _ => .error "expected value") noStore ""
        (fun _ => .quiet) (.new .empty)
        [.chunk (([Sent.known ⟨1, .goodbye, []⟩, .unknown 1 0x10 []].filterMap Sent.frame?).flatMap
          Frame.encode)] ↔
      (∀ m ∈ [Sent.known ⟨1, .goodbye, []⟩, .unknown 1 0x10 []], m.frame? ≠ none) ∨
        (serveFrames .onePing (fun _ => .error "expected value") noStore ""
          (fun _ => .quiet) (.new .empty)
          (Sent.framesBefore [Sent.known ⟨1, .goodbye, []⟩, .unknown 1 0x10 []])).2.2 ≠ none :=
  handleMessagesInner_unknown_iff _ _ _ _ _ _ _ (by decide) _ (by decide)

/-- An unknown frame, and then a ping: the loop ends at the first and never answers the second. -/
theorem unknown_frame_ends_loop :
    (runOnePing [.chunk ((Sent.unknown 1 0x10 [7]).encode ++ pingFrame.encode)]).dispatched = [] ∧
      (runOnePing [.chunk ((Sent.unknown 1 0x10 [7]).encode ++ pingFrame.encode)]).ending =
        some (.unreadable (.unknownMsgType 0x10)) ∧
      (runOnePing [.chunk pingFrame.encode]).dispatched = [pingFrame] := by
  decide +kernel

end DSearch
