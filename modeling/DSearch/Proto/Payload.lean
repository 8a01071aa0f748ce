import DSearch.Node.Messages
import DSearch.Proto.Frame

/-! # Payloads of the wire messages: `proto/msg_type.rs`

The messages that a peer sends and the replies they get. A payload is the JSON text of its message:
`serde_json::to_vec` of a reply is its `toJson`, and `serde_json::from_slice`, which reads what a peer
sent, is the parameter `PayloadReader`. -/

namespace DSearch
set_option autoImplicit false
open JsonText

structure Ping where
  nonce : ℕ
  deriving DecidableEq, Repr

structure Pong where
  nonce : ℕ
  deriving DecidableEq, Repr

structure FindNode where
  targetId : String
  deriving DecidableEq, Repr

structure NodeInfo where
  id : String
  addr : String
  deriving DecidableEq, Repr

structure FindNodeReply where
  nodes : List NodeInfo
  deriving DecidableEq, Repr

structure SearchQuery where
  query : String
  schema : Option String
  limit : ℕ
  requesterId : String
  replyTo : String
  deriving DecidableEq, Repr

/-- `score` is the JSON text of a number. -/
structure SearchResultEntry where
  recordId : String
  schema : String
  tags : List String
  holderAddr : String
  score : Bytes
  deriving DecidableEq, Repr

structure SearchReply where
  query : String
  results : List SearchResultEntry
  fromNode : String
  deriving DecidableEq, Repr

structure RecordFetch where
  recordId : String
  requesterId : String
  deriving DecidableEq, Repr

structure RecordReply where
  recordId : String
  recordJson : Option Bytes
  notFound : Bool
  deriving DecidableEq, Repr

structure PeerExchange where
  peers : List NodeInfo
  deriving DecidableEq, Repr

structure Goodbye where
  reason : String
  deriving DecidableEq, Repr

/-- `Frame::decode_payload` at the messages that the loop reads. -/
structure PayloadReader where
  ping : Bytes → Except String Ping
  findNode : Bytes → Except String FindNode
  announce : Bytes → Except String Announce
  searchQuery : Bytes → Except String SearchQuery
  recordFetch : Bytes → Except String RecordFetch
  replicatePush : Bytes → Except String ReplicatePush
  peerExchange : Bytes → Except String PeerExchange
  goodbye : Bytes → Except String Goodbye

def Pong.toJson (pong : Pong) : Bytes := ofFields [("nonce", ofNat pong.nonce)]

def NodeInfo.toJson (node : NodeInfo) : Bytes :=
  ofFields [("id", ofString node.id), ("addr", ofString node.addr)]

def FindNodeReply.toJson (reply : FindNodeReply) : Bytes :=
  ofFields [("nodes", ofArray (reply.nodes.map NodeInfo.toJson))]

def PeerExchange.toJson (reply : PeerExchange) : Bytes :=
  ofFields [("peers", ofArray (reply.peers.map NodeInfo.toJson))]

def ackJson (recordId : String) (accepted : Bool) (reason : String) : Bytes :=
  ofFields [
    ("record_id", ofString recordId),
    ("accepted", ofBool accepted),
    ("reason", ofString reason)]

def AnnounceAck.toJson (ack : AnnounceAck) : Bytes := ackJson ack.recordId ack.accepted ack.reason

def ReplicateAck.toJson (ack : ReplicateAck) : Bytes := ackJson ack.recordId ack.accepted ack.reason

def SearchResultEntry.toJson (entry : SearchResultEntry) : Bytes :=
  ofFields [
    ("record_id", ofString entry.recordId),
    ("schema", ofString entry.schema),
    ("tags", ofArray (entry.tags.map ofString)),
    ("holder_addr", ofString entry.holderAddr),
    ("score", entry.score)]

def SearchReply.toJson (reply : SearchReply) : Bytes :=
  ofFields [
    ("query", ofString reply.query),
    ("results", ofArray (reply.results.map SearchResultEntry.toJson)),
    ("from_node", ofString reply.fromNode)]

def RecordReply.toJson (reply : RecordReply) : Bytes :=
  ofFields [
    ("record_id", ofString reply.recordId),
    ("record_json", (reply.recordJson.map ofText).getD null),
    ("not_found", ofBool reply.notFound)]

def ReplicatePush.toJson (msg : ReplicatePush) : Bytes :=
  ofFields [
    ("record_id", ofString msg.recordId),
    ("record_json", ofText msg.recordJson),
    ("source_hash", ofString msg.sourceHash),
    ("sig", ofString msg.sig)]

/-- The frame that `push_record` writes. -/
def pushFrame (record : ContentRecord) : Frame :=
  Frame.new .replicatePush (pushRecord record).toJson

end DSearch
