import DSearch.Node.State
import DSearch.Proto.Payload
import DSearch.Node.Routing

/-! # Handshakes: `handle_connection` and `connect_to_peer` of `node/server.rs`

One call on one connection, up to the message loop that it starts: what it writes, what it puts into
the routing table, and how it ends. What the connection gives (the first frame, which writes succeed)
is an input. Lines of the log that slice the peer's id are part of the model, since `&id[..8]` panics
inside a character; `peers.json` is left out. -/

namespace DSearch
set_option autoImplicit false
open JsonText Transaction

inductive NodeRole where
  | light | full | bootstrap | relay | stun | scraper | archive | indexer | gateway | observer
  deriving DecidableEq, Repr

def NodeRole.asStr : NodeRole → String
  | .light => "light"
  | .full => "full"
  | .bootstrap => "bootstrap"
  | .relay => "relay"
  | .stun => "stun"
  | .scraper => "scraper"
  | .archive => "archive"
  | .indexer => "indexer"
  | .gateway => "gateway"
  | .observer => "observer"

structure Handshake where
  version : UInt8
  nodeId : String
  roles : List String
  capabilities : List String
  deriving DecidableEq, Repr

structure HandshakeAck where
  version : UInt8
  nodeId : String
  roles : List String
  capabilities : List String
  deriving DecidableEq, Repr

def helloJson (version : UInt8) (nodeId : String) (roles capabilities : List String) : Bytes :=
  ofFields [
    ("version", ofNat version.toNat),
    ("node_id", ofString nodeId),
    ("roles", ofArray (roles.map ofString)),
    ("capabilities", ofArray (capabilities.map ofString))]

def Handshake.toJson (hs : Handshake) : Bytes :=
  helloJson hs.version hs.nodeId hs.roles hs.capabilities

def HandshakeAck.toJson (ack : HandshakeAck) : Bytes :=
  helloJson ack.version ack.nodeId ack.roles ack.capabilities

def Goodbye.toJson (goodbye : Goodbye) : Bytes := ofFields [("reason", ofString goodbye.reason)]

def Announce.toJson (msg : Announce) : Bytes :=
  ofFields [
    ("record_id", ofString msg.recordId),
    ("source_hash", ofString msg.sourceHash),
    ("schema", ofString msg.schema),
    ("tags", ofArray (msg.tags.map ofString)),
    ("holder_addr", ofString msg.holderAddr),
    ("expires_at", ofNat msg.expiresAt),
    ("sig", ofString msg.sig)]

/-- `Frame::decode_payload` at the two messages of a handshake. -/
structure HandshakeReader where
  handshake : Bytes → Except String Handshake
  handshakeAck : Bytes → Except String HandshakeAck

/-! ## Ids in the log -/

/-- The levels of this module that the log filter lets through. -/
structure Logs where
  debug : Bool
  info : Bool
  deriving DecidableEq, Repr

/-- `str::is_char_boundary`. -/
def isCharBoundary (text : Bytes) (index : ℕ) : Bool :=
  if index = 0 then true
  else
    match text[index]? with
    | none => index = text.length
    | some b => ¬ Sign.isContinuation b

/-- `&id[..8.min(id.len())]`; `none` is the panic of a slice that ends inside a character. -/
def shortId (nodeId : String) : Option Bytes :=
  let bytes := asBytes nodeId
  let n := min 8 bytes.length
  if isCharBoundary bytes n then some (bytes.take n) else none

/-- A line of the log with the id of a peer panics: its arguments are evaluated at an enabled level
only. -/
def LogPanics (enabled : Bool) (nodeId : String) : Prop := enabled = true ∧ shortId nodeId = none

instance (enabled : Bool) (nodeId : String) : Decidable (LogPanics enabled nodeId) :=
  inferInstanceAs (Decidable (_ ∧ _))

/-- Such a line, before the rest of a call. -/
def logged {α : Type} (enabled : Bool) (nodeId : String) (rest : Outcome α) : Outcome α :=
  if LogPanics enabled nodeId then .panic else rest

example : shortId "ab12" = some (asBytes "ab12") := by decide +kernel

example : shortId "aaaaaaaé" = none := by decide +kernel

/-! ## What the tasks of a node share -/

/-- `active_connections` is an `AtomicUsize`. `now` is what the clock shows. -/
structure Shared where
  activeConnections : UInt64
  routingTable : RoutingTable
  running : Bool
  now : ℕ
  node : NodeState

/-- A peer as it introduced itself on a connection. -/
structure Peer where
  nodeId : String
  addr : String
  roles : List String
  deriving DecidableEq, Repr

namespace Shared
variable (s : Shared)

/-- `routing_table.write().await.insert(entry)`, with the time of the call. -/
def enter (peer : Peer) : Shared :=
  { s with routingTable := s.routingTable.insert ⟨peer.nodeId, peer.addr, peer.roles, s.now⟩ }

def leave (nodeId : String) : Shared := { s with routingTable := (s.routingTable.remove nodeId).1 }

def fetchAdd : Shared := { s with activeConnections := s.activeConnections + 1 }

def fetchSub : Shared := { s with activeConnections := s.activeConnections - 1 }

end Shared

/-! ## Up to the routing table -/

/-- What a call has written, and how it goes on. -/
structure Exchange (α : Type) where
  sent : List Frame
  outcome : Outcome α
  deriving DecidableEq, Repr

/-- What the network gives to `handle_connection`: the remote address or an error of the connection or
its stream, the first frame read, and the result of the one write. -/
structure Inbound where
  opened : Except String String
  firstFrame : Except String (Option Frame)
  written : Except String Unit

/-- What the network gives to `connect_to_peer`; `written` is the result of each write in turn. -/
structure Outbound where
  opened : Except String String
  firstFrame : Except String (Option Frame)
  written : ℕ → Except String Unit

structure ConnectionContext where
  logs : Logs
  localNodeId : String
  localRole : NodeRole
  listenAddr : String
  reader : HandshakeReader

def absDiff (a b : UInt8) : ℕ := (a.toNat - b.toNat) + (b.toNat - a.toNat)

def goodbyeFrame (reason : String) : Frame := Frame.new .goodbye (Goodbye.toJson ⟨reason⟩)

/-- One write, and what follows it. -/
def afterWrite {α : Type} (frame : Frame) (written : Except String Unit) (rest : Exchange α) :
    Exchange α :=
  match written with
  | .error e => ⟨[], .err e⟩
  | .ok _ => ⟨frame :: rest.sent, rest.outcome⟩

/-- The first frame, if it is one of the wanted type, and what follows from its message. A stream that
is closed and a frame of another type are no error. -/
def onFirstFrame {α β : Type} (firstFrame : Except String (Option Frame)) (wanted : MsgType)
    (decode : Bytes → Except String α) (next : α → Exchange (Option β)) : Exchange (Option β) :=
  match firstFrame with
  | .error e => ⟨[], .err e⟩
  | .ok none => ⟨[], .ok none⟩
  | .ok (some f) =>
    if f.msgType = wanted then
      match decode f.payload with
      | .error e => ⟨[], .err e⟩
      | .ok message => next message
    else ⟨[], .ok none⟩

section
variable (ctx : ConnectionContext)

/-- Both sides refuse a version that differs by more than one. -/
def refuseVersion (version : UInt8) (written : Except String Unit) : Exchange (Option Peer) :=
  afterWrite (goodbyeFrame "incompatible version") written
    ⟨[], .err ("Incompatible protocol version: " ++ toString version.toNat)⟩

def handshakeAckFrame : Frame :=
  Frame.new .handshakeAck
    (HandshakeAck.toJson ⟨PROTOCOL_VERSION, ctx.localNodeId, [ctx.localRole.asStr], []⟩)

def handshakeFrame : Frame :=
  Frame.new .handshake
    (Handshake.toJson ⟨PROTOCOL_VERSION, ctx.localNodeId, [ctx.localRole.asStr], []⟩)

def answerHandshake (remoteAddr : String) (written : Except String Unit) (hs : Handshake) :
    Exchange (Option Peer) :=
  if LogPanics ctx.logs.debug hs.nodeId then ⟨[], .panic⟩
  else if absDiff hs.version PROTOCOL_VERSION > 1 then refuseVersion hs.version written
  else
    afterWrite (handshakeAckFrame ctx) written ⟨[], .ok (some ⟨hs.nodeId, remoteAddr, hs.roles⟩)⟩

/-- `handle_connection` up to the routing table: the peer that enters it, if one does. -/
def greetInbound (conn : Inbound) : Exchange (Option Peer) :=
  match conn.opened with
  | .error e => ⟨[], .err e⟩
  | .ok remoteAddr =>
    onFirstFrame conn.firstFrame .handshake ctx.reader.handshake
      (answerHandshake ctx remoteAddr conn.written)

def acceptAck (remoteAddr : String) (written : Except String Unit) (ack : HandshakeAck) :
    Exchange (Option Peer) :=
  if LogPanics ctx.logs.debug ack.nodeId then ⟨[], .panic⟩
  else if absDiff ack.version PROTOCOL_VERSION > 1 then refuseVersion ack.version written
  else ⟨[], .ok (some ⟨ack.nodeId, remoteAddr, ack.roles⟩)⟩

/-- `connect_to_peer` up to the routing table. -/
def greetOutbound (conn : Outbound) : Exchange (Option Peer) :=
  match conn.opened with
  | .error e => ⟨[], .err e⟩
  | .ok remoteAddr =>
    afterWrite (handshakeFrame ctx) (conn.written 0)
      (onFirstFrame conn.firstFrame .handshakeAck ctx.reader.handshakeAck
        (acceptAck ctx remoteAddr (conn.written 1)))

/-! ## Announcing to a new peer -/

/-- The announcement that `connect_to_peer` builds of a stored record. -/
def connectAnnouncement (listenAddr : String) (record : ContentRecord) : Announcement where
  recordId := record.id
  sourceHash := record.sourceHash
  schema := record.schema
  tags := record.tags
  holderAddr := listenAddr
  expiresAt := record.expiresAt
  sig := record.sig

def sendAnnounce (ann : Announcement) : Announce where
  recordId := ann.recordId
  sourceHash := ann.sourceHash
  schema := ann.schema
  tags := ann.tags
  holderAddr := ann.holderAddr
  expiresAt := ann.expiresAt
  sig := ann.sig

def announceFrame (listenAddr : String) (record : ContentRecord) : Frame :=
  Frame.new .announce (sendAnnounce (connectAnnouncement listenAddr record)).toJson

/-- Writes one after the other; one that fails is logged and skipped. -/
def writeAll (written : ℕ → Except String Unit) : ℕ → List Frame → List Frame
  | _, [] => []
  | n, frame :: frames =>
    match written n with
    | .error _ => writeAll written (n + 1) frames
    | .ok _ => frame :: writeAll written (n + 1) frames

/-! ## The calls -/

/-- `handle_connection`: the id of the peer whose message loop it has started, if it has. -/
def handleConnection (conn : Inbound) : Client Shared (Exchange (Option String)) :=
  let greeting := greetInbound ctx conn
  match greeting.outcome with
  | .ok (some peer) =>
    .write (·.enter peer)
      (.done ⟨greeting.sent, logged ctx.logs.info peer.nodeId (.ok (some peer.nodeId))⟩)
  | .ok none => .done ⟨greeting.sent, .ok none⟩
  | .err e => .done ⟨greeting.sent, .err e⟩
  | .panic => .done ⟨greeting.sent, .panic⟩

variable {ed : Ed25519} (store : Option (Store ed))

/-- The records that a new peer is told of: up to 50 announced, then up to 10 pushed. -/
def greetNewPeer (conn : Outbound) (sent : List Frame) (nodeId : String) :
    Client Shared (Exchange String) :=
  match store with
  | none => .done ⟨sent, .ok nodeId⟩
  | some _ =>
    .read fun s =>
      let announces := (Records.listRecords s.node.db none 50).map (announceFrame ctx.listenAddr)
      .read fun s' =>
        let pushes := (Records.listRecords s'.node.db none 10).map pushFrame
        .done ⟨sent ++ writeAll conn.written 1 (announces ++ pushes), .ok nodeId⟩

/-- `connect_to_peer`: the id that it has started a message loop for. A peer that has not sent a
`HandshakeAck` gets a loop too, with the empty id. -/
def connectToPeer (conn : Outbound) : Client Shared (Exchange String) :=
  let greeting := greetOutbound ctx conn
  match greeting.outcome with
  | .ok (some peer) =>
    .write (·.enter peer)
      (match logged ctx.logs.info peer.nodeId (.ok ()) with
        | .ok _ => greetNewPeer ctx store conn greeting.sent peer.nodeId
        | .err e => .done ⟨greeting.sent, .err e⟩
        | .panic => .done ⟨greeting.sent, .panic⟩)
  | .ok none => .done ⟨greeting.sent, .ok ""⟩
  | .err e => .done ⟨greeting.sent, .err e⟩
  | .panic => .done ⟨greeting.sent, .panic⟩

end

/-! ## Stand-ins for concrete runs -/

/-- A reader that knows one handshake. -/
def HandshakeReader.only (hs : Handshake) : HandshakeReader where
  handshake text := if text = hs.toJson then .ok hs else .error "expected value"
  handshakeAck _ := .error "expected value"

/-- A node with this reader, at the default level of the log. -/
def ConnectionContext.reading (hs : Handshake) : ConnectionContext where
  logs := ⟨false, true⟩
  localNodeId := "ef56ab78"
  localRole := .full
  listenAddr := "127.0.0.1:9000"
  reader := .only hs

/-- A peer that opens a stream and sends the handshake. -/
def Inbound.sending (hs : Handshake) : Inbound where
  opened := .ok "10.0.0.7:4000"
  firstFrame := .ok (some (Frame.new .handshake hs.toJson))
  written := .ok ()

def handshakeOf (nodeId : String) : Handshake := ⟨PROTOCOL_VERSION, nodeId, ["full"], []⟩

end DSearch
