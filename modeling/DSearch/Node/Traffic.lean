import DSearch.Foundations.Traffic
import DSearch.Node.Network

/-! # Does the traffic of a network end?

The message loops at both ends of a connection answer requests and take no notice of answers. So the
frames in flight lead to few others, and then to none. The one exception is a peer exchange, which is
answered by a peer exchange. -/

namespace DSearch.Network
set_option autoImplicit false
open Transaction Replicas

/-- The type of the reply to a frame. -/
def replyType : MsgType → Option MsgType
  | .ping => some .pong
  | .findNode => some .findNodeReply
  | .announce => some .announceAck
  | .searchQuery => some .searchReply
  | .recordFetch => some .recordReply
  | .replicatePush => some .replicateAck
  | .peerExchange => some .peerExchange
  | _ => none

theorem replyType_reply {t u : MsgType} (h : replyType t = some u) (ht : t ≠ .peerExchange) :
    replyType u = none ∧ u ≠ .peerExchange := by
  cases t <;> cases h
  case peerExchange => exact absurd rfl ht
  all_goals decide

theorem eq_peerExchange_of_reply {t : MsgType} (h : replyType t = some .peerExchange) :
    t = .peerExchange := by
  by_contra ht
  exact (replyType_reply h ht).2 rfl

section
variable {ed : Ed25519} (read : PayloadReader) (fromStr : Bytes → Except String ContentRecord)
  (store : Option (Store ed)) (peerNodeId : String)

/-- Whatever a client ends in: a reply of this type, or no reply. -/
def RepliesWith (t : MsgType) (c : Client NodeState (Outcome Answer)) : Prop :=
  ∀ s g, (c.run s).2 = .ok (.reply g) → g.msgType = t

variable {t : MsgType}

theorem repliesWith_replyWith (payload : Bytes) : RepliesWith t (replyWith t payload) := by
  intro s g h
  cases h
  rfl

theorem repliesWith_silent : RepliesWith t (.done (.ok .silent)) := by
  intro s g h
  cases h

theorem RepliesWith.decodePayload {α : Type} {decoded : Except String α}
    {next : α → Client NodeState (Outcome Answer)} (h : ∀ a, RepliesWith t (next a)) :
    RepliesWith t (decodePayload decoded next) := by
  cases decoded with
  | error e =>
    intro s g hrun
    cases hrun
  | ok a => exact h a

theorem RepliesWith.bind {α : Type} {c : Client NodeState α}
    {next : α → Client NodeState (Outcome Answer)} (h : ∀ a, RepliesWith t (next a)) :
    RepliesWith t (c.bind next) := by
  intro s g hrun
  rw [Client.run_bind] at hrun
  exact h _ _ g hrun

theorem RepliesWith.andThen {α : Type} {c : Client NodeState (Outcome α)}
    {next : α → Client NodeState (Outcome Answer)} (h : ∀ a, RepliesWith t (next a)) :
    RepliesWith t (c.andThen next) := by
  intro s g hrun
  rw [Client.run_andThen] at hrun
  cases hout : (c.run s).2 with
  | ok a =>
    rw [show c.run s = ((c.run s).1, (c.run s).2) from rfl, hout] at hrun
    exact h a _ g hrun
  | err e =>
    rw [show c.run s = ((c.run s).1, (c.run s).2) from rfl, hout] at hrun
    cases hrun
  | panic =>
    rw [show c.run s = ((c.run s).1, (c.run s).2) from rfl, hout] at hrun
    cases hrun

/-- A frame is answered by its reply type, or not at all. -/
theorem handleFrame_reply {env : LoopEnv} {f g : Frame} {s : NodeState}
    (h : ((handleFrame read fromStr store peerNodeId env f).run s).2 = .ok (.reply g)) :
    replyType f.msgType = some g.msgType := by
  have harm : ∀ u, RepliesWith u (handleFrame read fromStr store peerNodeId env f) →
      replyType f.msgType = some u → replyType f.msgType = some g.msgType := by
    intro u hreplies hu
    rw [hu, hreplies s g h]
  cases htype : f.msgType <;> simp only [handleFrame, htype] at h harm ⊢
  case ping =>
    exact harm .pong (.decodePayload fun _ => repliesWith_replyWith _) rfl
  case findNode =>
    exact harm .findNodeReply (.decodePayload fun _ => repliesWith_replyWith _) rfl
  case announce =>
    refine harm .announceAck (.decodePayload fun _ => ?_) rfl
    cases store with
    | none => exact repliesWith_replyWith _
    | some s => exact .andThen fun _ => repliesWith_replyWith _
  case searchQuery =>
    refine harm .searchReply (.decodePayload fun _ => ?_) rfl
    cases store with
    | none => exact repliesWith_silent
    | some s => exact .bind fun _ => repliesWith_replyWith _
  case recordFetch =>
    refine harm .recordReply (.decodePayload fun _ => ?_) rfl
    cases store with
    | none => exact repliesWith_silent
    | some s =>
      intro s g hrun
      rw [Client.run_read] at hrun
      exact repliesWith_replyWith _ s g hrun
  case replicatePush =>
    refine harm .replicateAck (.decodePayload fun _ => ?_) rfl
    cases store with
    | none => exact repliesWith_replyWith _
    | some s => exact .andThen fun _ => repliesWith_replyWith _
  case peerExchange =>
    exact harm .peerExchange (.decodePayload fun _ => repliesWith_replyWith _) rfl
  case goodbye =>
    cases hread : read.goodbye f.payload with
    | error e => simp [hread, decodePayload] at h
    | ok message => simp [hread, decodePayload] at h
  all_goals cases h

end

variable {ι : Type} {ed : Ed25519} (nodes : ι → NetNode ed) (read : PayloadReader)
  (fromStr : Bytes → Except String ContentRecord)

/-- What a reception sends: nothing, or one frame back, of the reply type. -/
theorem receive_sends (m : Packet ι) (s : NodeState) :
    (receive nodes read fromStr m s).2 = [] ∨ ∃ frame,
      (receive nodes read fromStr m s).2 = [⟨m.dst, m.src, frame⟩] ∧
      replyType m.frame.msgType = some frame.msgType := by
  unfold receive
  split
  · dsimp only
    split
    · next frame hran => exact .inr ⟨frame, rfl, handleFrame_reply _ _ _ _ hran⟩
    · exact .inl rfl
  · exact .inl rfl

/-! ## The frames of a connection are answered once -/

/-- A request counts for itself and for its answer. -/
def frameWeight (m : Packet ι) : ℕ := if (replyType m.frame.msgType).isSome then 2 else 1

theorem one_le_frameWeight (m : Packet ι) : 1 ≤ frameWeight m := by
  unfold frameWeight
  split <;> decide

def NotExchange (m : Packet ι) : Prop := m.frame.msgType ≠ .peerExchange

theorem draining : Draining (protocol nodes read fromStr) NotExchange frameWeight where
  receive m s hm := by
    change ((receive nodes read fromStr m s).2.map frameWeight).sum < frameWeight m
    obtain hnone | ⟨frame, hone, hreply⟩ := receive_sends nodes read fromStr m s
    · rw [hnone]
      exact one_le_frameWeight m
    · have hlast := (replyType_reply hreply hm).1
      rw [hone]
      simp [frameWeight, hreply, hlast]

theorem notExchange_inductive :
    Inductive (protocol nodes read fromStr) (fun _ _ => False) (fun _ _ => True) NotExchange where
  call _ _ _ hop := hop.elim
  receive m s hm _ := by
    refine ⟨trivial, fun m' hm' => ?_⟩
    change m' ∈ (receive nodes read fromStr m s).2 at hm'
    obtain hnone | ⟨frame, hone, hreply⟩ := receive_sends nodes read fromStr m s
    · rw [hnone] at hm'
      cases hm'
    · rw [hone, List.mem_singleton] at hm'
      rw [hm']
      exact (replyType_reply hreply hm).2

section
variable [DecidableEq ι]

/-- Without a peer exchange in flight the traffic ends: once no node calls, no more frames are received
than two for each request and one for each other frame in flight, and then nothing is in flight. -/
theorem network_quiesces (net : Net ι NodeState (Packet ι))
    (hnet : ∀ m ∈ net.flight, m.frame.msgType ≠ .peerExchange) (steps : List (Step ι (NodeCall ι)))
    (hcalls : Calls (fun _ _ => False) steps) :
    deliveries (protocol nodes read fromStr) net steps +
        (run (protocol nodes read fromStr) net steps).flight.length ≤
      (net.flight.map frameWeight).sum ∧
    (run (protocol nodes read fromStr) net
      (List.replicate (net.flight.map frameWeight).sum (.deliver 0))).flight = [] := by
  have hwithin : net.Within (fun _ _ => True) NotExchange := ⟨fun _ => trivial, hnet⟩
  have hdraining := draining nodes read fromStr
  have hI := notExchange_inductive nodes read fromStr
  refine ⟨?_, hdraining.empties hI hwithin le_rfl⟩
  have hload := hdraining.run hI hwithin hcalls
  have hlength : (run (protocol nodes read fromStr) net steps).flight.length ≤
      (run (protocol nodes read fromStr) net steps).load frameWeight := by
    have hle := List.card_nsmul_le_sum
      ((run (protocol nodes read fromStr) net steps).flight.map frameWeight) 1
      (fun w hw => by
        obtain ⟨m, -, rfl⟩ := List.mem_map.mp hw
        exact one_le_frameWeight m)
    rwa [List.length_map, smul_eq_mul, Nat.mul_one] at hle
  change _ ≤ net.load frameWeight
  omega

end

/-- Two nodes, and a ping on its way. -/
def pinged : Net Bool NodeState (Packet Bool) := ⟨fun _ => .new .empty, [⟨false, true, pingFrame⟩]⟩

theorem network_quiesces_pinged :
    deliveries (protocol plainNodes .onePing fun _ => .error "expected value") pinged
        [.deliver 0, .deliver 0] +
      (run (protocol plainNodes .onePing fun _ => .error "expected value") pinged
        [.deliver 0, .deliver 0]).flight.length ≤ 2 ∧
    (run (protocol plainNodes .onePing fun _ => .error "expected value") pinged
      (List.replicate 2 (.deliver 0))).flight = [] := by
  have hcalls : Calls (fun _ _ => False) [(.deliver 0 : Step Bool (NodeCall Bool)), .deliver 0] := by
    intro i op hop
    simp at hop
  exact network_quiesces plainNodes .onePing (fun _ => .error "expected value") pinged (by decide)
    [.deliver 0, .deliver 0] hcalls

/-! ## A peer exchange goes on -/

/-- What a node sends for a peer exchange: all peers but the one that asks. -/
def peersBut (node : NetNode ed) (nodeId : String) : PeerExchange :=
  ⟨(node.env.routingTable.list.filter fun e => e.nodeId ≠ nodeId).map peerInfo⟩

/-- The list of each node is within the cap, and `serde_json` reads it back. -/
structure Exchanging : Prop where
  reads : ∀ i nodeId,
    read.peerExchange (peersBut (nodes i) nodeId).toJson = .ok (peersBut (nodes i) nodeId)
  fits : ∀ i nodeId, (peersBut (nodes i) nodeId).toJson.length ≤ MAX_PAYLOAD_SIZE

/-- A frame that is a peer exchange can be read. -/
def Readable (m : Packet ι) : Prop :=
  m.frame.msgType = .peerExchange →
    m.frame.payload.length ≤ MAX_PAYLOAD_SIZE ∧
      ∃ message, read.peerExchange m.frame.payload = .ok message

variable {nodes read}

/-- The answer to a peer exchange. -/
theorem receive_peerExchange {m : Packet ι} (hm : Readable read m)
    (htype : m.frame.msgType = .peerExchange) (s : NodeState) :
    (receive nodes read fromStr m s).2 = [⟨m.dst, m.src,
      Frame.new .peerExchange (peersBut (nodes m.dst) (nodes m.src).nodeId).toJson⟩] := by
  obtain ⟨hfits, message, hread⟩ := hm htype
  unfold receive
  rw [if_pos hfits]
  simp only [handleFrame, htype]
  rw [hread]
  rfl

theorem call_notExchange (i : ι) (op : NodeCall ι) (s : NodeState) :
    ∀ m ∈ (call nodes i op s).2, m.frame.msgType ≠ .peerExchange := by
  intro m hm
  cases op with
  | store op => cases hm
  | announce ann => cases hm
  | announceTo peer written =>
    obtain ⟨f, hf, rfl⟩ := List.mem_map.mp hm
    obtain ⟨r, -, rfl⟩ := List.mem_map.mp (mem_of_mem_writeAll hf)
    exact fun heq => MsgType.noConfusion heq
  | pushTo peer written =>
    obtain ⟨f, hf, rfl⟩ := List.mem_map.mp hm
    obtain ⟨r, -, rfl⟩ := List.mem_map.mp (mem_of_mem_writeAll hf)
    exact fun heq => MsgType.noConfusion heq

theorem readable_inductive (h : Exchanging nodes read) :
    Inductive (protocol nodes read fromStr) (fun _ _ => True) (fun _ _ => True)
      (Readable read) where
  call i op s _ _ := ⟨trivial, fun m hm htype => absurd htype (call_notExchange i op s m hm)⟩
  receive m s hm _ := by
    refine ⟨trivial, fun m' hm' htype => ?_⟩
    change m' ∈ (receive nodes read fromStr m s).2 at hm'
    by_cases hexchange : m.frame.msgType = .peerExchange
    · rw [receive_peerExchange fromStr hm hexchange, List.mem_singleton] at hm'
      rw [hm']
      exact ⟨h.fits _ _, _, h.reads _ _⟩
    · obtain hnone | ⟨frame, hone, hreply⟩ := receive_sends nodes read fromStr m s
      · rw [hnone] at hm'
        cases hm'
      · rw [hone, List.mem_singleton] at hm'
        rw [hm'] at htype
        exact absurd htype (replyType_reply hreply hexchange).2

theorem conserving :
    Conserving (protocol nodes read fromStr) (Readable read)
      (fun m : Packet ι => m.frame.msgType = .peerExchange) where
  call i op s m hm := call_notExchange i op s m hm
  receive m s hm := by
    change (receive nodes read fromStr m s).2.countP _ = _
    by_cases hexchange : m.frame.msgType = .peerExchange
    · rw [receive_peerExchange fromStr hm hexchange, if_pos hexchange]
      rfl
    · rw [if_neg hexchange, List.countP_eq_zero]
      intro m' hm'
      obtain hnone | ⟨frame, hone, hreply⟩ := receive_sends nodes read fromStr m s
      · rw [hnone] at hm'
        cases hm'
      · rw [hone, List.mem_singleton] at hm'
        rw [hm']
        simpa using (replyType_reply hreply hexchange).2

/-- As long as nothing is lost there are as many peer exchanges in flight as at the start, whatever the
nodes call and receive: each one goes back and forth. -/
theorem peerExchange_never_ends [DecidableEq ι] (nodes : ι → NetNode ed) (read : PayloadReader)
    (fromStr : Bytes → Except String ContentRecord) (hexchanging : Exchanging nodes read)
    (net : Net ι NodeState (Packet ι)) (hnet : ∀ m ∈ net.flight, Readable read m)
    (steps : List (Step ι (NodeCall ι))) (hlossless : Lossless steps) :
    (run (protocol nodes read fromStr) net steps).number
        (fun m => m.frame.msgType = .peerExchange) =
      net.number fun m => m.frame.msgType = .peerExchange :=
  (conserving fromStr).run (readable_inductive fromStr hexchanging)
    ⟨fun _ => trivial, hnet⟩ (fun _ _ _ => trivial) hlossless

/-- A reader that knows the peer exchange of a node without other peers. -/
def noPeersReader : PayloadReader where
  __ := PayloadReader.onePing
  peerExchange text :=
    if text = PeerExchange.toJson ⟨[]⟩ then .ok ⟨[]⟩ else .error "expected value"

def asksForPeers : Net Bool NodeState (Packet Bool) :=
  ⟨fun _ => .new .empty, [⟨false, true, Frame.new .peerExchange (PeerExchange.toJson ⟨[]⟩)⟩]⟩

theorem peerExchange_never_ends_two :
    (run (protocol plainNodes noPeersReader fun _ => .error "expected value") asksForPeers
      [.deliver 0, .deliver 0]).number (fun m => m.frame.msgType = .peerExchange) = 1 := by
  have hexchanging : Exchanging (plainNodes : Bool → _) noPeersReader :=
    ⟨fun _ _ => by rfl, fun _ _ => by change (PeerExchange.toJson ⟨[]⟩).length ≤ _; decide⟩
  have hreadable : ∀ m ∈ asksForPeers.flight, Readable noPeersReader m := by
    intro m hm _
    rw [List.mem_singleton.mp hm]
    exact ⟨by decide, _, rfl⟩
  have hlossless : Lossless [(.deliver 0 : Step Bool (NodeCall Bool)), .deliver 0] := by
    intro n hn
    simp at hn
  exact peerExchange_never_ends plainNodes noPeersReader (fun _ => .error "expected value") hexchanging
    asksForPeers hreadable [.deliver 0, .deliver 0] hlossless

end DSearch.Network
