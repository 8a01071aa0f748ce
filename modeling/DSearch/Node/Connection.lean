import DSearch.Node.Panics
import DSearch.Node.Server

/-! # Two nodes on one connection: `connect_to_peer` and `handle_connection` of `node/server.rs`

One node dials another, and each takes its turns on the stream between them in any order: the handshake,
the entry in its routing table, the message loop, and the removal of the entry when the loop has ended.
Writes and reads may fail at any time. An end that is over has dropped the stream, so the reader at the
other end finds it closed once it has read what was written before. -/

namespace DSearch
set_option autoImplicit false
open Transaction

def Side.other : Side → Side
  | .inbound => .outbound
  | .outbound => .inbound

/-- What one end of a connection does next. -/
inductive Phase where
  /-- In `connect_to_peer`, before the handshake is written. -/
  | dialing
  /-- It waits for the first frame. -/
  | greeting
  /-- Its answer is written, the entry in the routing table is next. -/
  | entering (peer : Peer)
  | looping (peerNodeId : String)
  /-- The loop has ended, the removal from the routing table is next. -/
  | leaving (peerNodeId : String)
  | ended
  deriving DecidableEq, Repr

/-- A phase, as far as the other end can tell. -/
inductive Stage where
  | dialing
  | greeting
  /-- It has let the other end in. -/
  | met
  | ended
  deriving DecidableEq, Repr

def Phase.stage : Phase → Stage
  | dialing => .dialing
  | greeting => .greeting
  | ended => .ended
  | _ => .met

/-- One end: the routing table of its node, and the frames written at the other end that it has not
read. -/
structure Endpoint where
  phase : Phase
  table : RoutingTable
  inbox : List Frame

/-- What a read of the stream finds. -/
inductive Heard where
  | frame
  | closed
  | broken (e : String)
  deriving DecidableEq, Repr

inductive EndAct where
  | dial (written : Except String Unit)
  | greet (heard : Heard) (written : Except String Unit)
  | enter (now : ℕ)
  /-- The loop writes a frame, or `connect_to_peer` before it. -/
  | say (frame : Frame)
  /-- The loop reads a frame, and ends with it or not; or it finds the stream closed. -/
  | hear (ends : Bool)
  /-- The loop ends by itself. -/
  | fail (panicked : Bool)
  | leave
  /-- Another task of the node changes the routing table. -/
  | others (change : RoutingTable → RoutingTable)

structure Connection where
  dialer : Endpoint
  acceptor : Endpoint

namespace Connection
variable (c : Connection)

def endAt : Side → Endpoint
  | .outbound => c.dialer
  | .inbound => c.acceptor

def set (side : Side) (e : Endpoint) : Connection :=
  match side with
  | .outbound => { c with dialer := e }
  | .inbound => { c with acceptor := e }

/-- Frames on their way to an end. -/
def deliver (side : Side) (frames : List Frame) : Connection :=
  c.set side { c.endAt side with inbox := (c.endAt side).inbox ++ frames }

def start (dialerTable acceptorTable : RoutingTable) : Connection where
  dialer := ⟨.dialing, dialerTable, []⟩
  acceptor := ⟨.greeting, acceptorTable, []⟩

end Connection

/-! ## The turns of an end -/

/-- What `read_frame` returns, and what is left to read. -/
def Heard.read (otherEnded : Bool) (inbox : List Frame) :
    Heard → Option (Except String (Option Frame) × List Frame)
  | .frame =>
    match inbox with
    | f :: rest => some (.ok (some f), rest)
    | [] => none
  | .closed => if inbox = [] ∧ otherEnded = true then some (.ok none, []) else none
  | .broken e => some (.error e, inbox)

/-- `connect_to_peer` starts a loop without an id where it has got no `HandshakeAck`. -/
def afterGreeting (side : Side) : Outcome (Option Peer) → Phase
  | .ok (some peer) => .entering peer
  | .ok none =>
    match side with
    | .inbound => .ended
    | .outbound => .looping ""
  | _ => .ended

/-- The nodes at the two ends, and the address that each sees the other at. -/
structure Meeting where
  ctx : Side → ConnectionContext
  remoteAddr : Side → String

namespace Meeting
variable (m : Meeting)

/-- What an end makes of its first frame. -/
def greeting (side : Side) (first : Except String (Option Frame)) (written : Except String Unit) :
    Exchange (Option Peer) :=
  match side with
  | .inbound =>
    onFirstFrame first .handshake (m.ctx .inbound).reader.handshake
      (answerHandshake (m.ctx .inbound) (m.remoteAddr .inbound) written)
  | .outbound =>
    onFirstFrame first .handshakeAck (m.ctx .outbound).reader.handshakeAck
      (acceptAck (m.ctx .outbound) (m.remoteAddr .outbound) written)

/-- One turn of an end: what it becomes, and the frames that it writes. -/
def act (side : Side) (otherEnded : Bool) (e : Endpoint) : EndAct → Option (Endpoint × List Frame)
  | .dial written =>
    match e.phase, written with
    | .dialing, .ok _ => some ({ e with phase := .greeting }, [handshakeFrame (m.ctx side)])
    | .dialing, .error _ => some ({ e with phase := .ended }, [])
    | _, _ => none
  | .greet heard written =>
    match e.phase, heard.read otherEnded e.inbox with
    | .greeting, some (first, rest) =>
      let greeting := m.greeting side first written
      some ({ e with phase := afterGreeting side greeting.outcome, inbox := rest }, greeting.sent)
    | _, _ => none
  | .enter now =>
    match e.phase with
    | .entering peer =>
      let table := e.table.insert ⟨peer.nodeId, peer.addr, peer.roles, now⟩
      if LogPanics (m.ctx side).logs.info peer.nodeId then
        some ({ e with phase := .ended, table := table }, [])
      else some ({ e with phase := .looping peer.nodeId, table := table }, [])
    | _ => none
  | .say frame =>
    match e.phase with
    | .looping _ => some (e, [frame])
    | _ => none
  | .hear ends =>
    match e.phase, e.inbox with
    | .looping p, _ :: rest =>
      some ({ e with phase := if ends then .leaving p else .looping p, inbox := rest }, [])
    | .looping p, [] => if otherEnded then some ({ e with phase := .leaving p }, []) else none
    | _, _ => none
  | .fail panicked =>
    match e.phase with
    | .looping p => some ({ e with phase := if panicked then .ended else .leaving p }, [])
    | _ => none
  | .leave =>
    match e.phase with
    | .leaving p => some ({ e with phase := .ended, table := (e.table.remove p).1 }, [])
    | _ => none
  | .others change => some ({ e with table := change e.table }, [])

def step (c : Connection) (turn : Side × EndAct) : Option Connection :=
  (m.act turn.1 ((c.endAt turn.1.other).phase = .ended) (c.endAt turn.1) turn.2).map fun done =>
    (c.set turn.1 done.1).deliver turn.1.other done.2

def run : Connection → List (Side × EndAct) → Option Connection := List.foldlM m.step

/-- The dialer's turns are what `connect_to_peer` does up to the routing table. -/
theorem greetOutbound_eq (first : Except String (Option Frame)) (written : ℕ → Except String Unit) :
    greetOutbound (m.ctx .outbound) ⟨.ok (m.remoteAddr .outbound), first, written⟩ =
      afterWrite (handshakeFrame (m.ctx .outbound)) (written 0)
        (m.greeting .outbound first (written 1)) := rfl

theorem greetInbound_eq (first : Except String (Option Frame)) (written : Except String Unit) :
    greetInbound (m.ctx .inbound) ⟨.ok (m.remoteAddr .inbound), first, written⟩ =
      m.greeting .inbound first written := rfl

/-! ## What is certain of the two ends -/

/-- What an end is to read first. -/
def firstFrame : Side → Frame
  | .inbound => handshakeFrame (m.ctx .outbound)
  | .outbound => handshakeAckFrame (m.ctx .inbound)

/-- The node at the other end, as an end enters it. -/
def peerAt (side : Side) : Peer :=
  ⟨(m.ctx side.other).localNodeId, m.remoteAddr side, [(m.ctx side.other).localRole.asStr]⟩

/-- Each end decodes what the other one writes, and no line of its log panics on the other's id. -/
structure Understands : Prop where
  handshake : (m.ctx .inbound).reader.handshake (m.firstFrame .inbound).payload =
    .ok ⟨PROTOCOL_VERSION, (m.peerAt .inbound).nodeId, (m.peerAt .inbound).roles, []⟩
  handshakeAck : (m.ctx .outbound).reader.handshakeAck (m.firstFrame .outbound).payload =
    .ok ⟨PROTOCOL_VERSION, (m.peerAt .outbound).nodeId, (m.peerAt .outbound).roles, []⟩
  logs : ∀ side, Quiet (m.ctx side).logs (m.peerAt side).nodeId

/-- What an end answers to its first frame. -/
def answer : Side → List Frame
  | .inbound => [m.firstFrame .outbound]
  | .outbound => []

/-- How far the two ends may be apart, by what each of them has not read. -/
def Apart (dialerInbox acceptorInbox : List Frame) : Stage → Stage → Prop
  | .dialing, .greeting => dialerInbox = [] ∧ acceptorInbox = []
  | .dialing, .ended => dialerInbox = []
  | .greeting, .greeting => dialerInbox = [] ∧ acceptorInbox = [m.firstFrame .inbound]
  | .greeting, .met => dialerInbox.head? = some (m.firstFrame .outbound)
  | .greeting, .ended => dialerInbox = [] ∨ dialerInbox.head? = some (m.firstFrame .outbound)
  | .met, .met => True
  | .met, .ended => True
  | .ended, .greeting => acceptorInbox = [] ∨ acceptorInbox = [m.firstFrame .inbound]
  | .ended, .met => True
  | .ended, .ended => True
  | _, _ => False

def Fits (c : Connection) : Prop :=
  m.Apart c.dialer.inbox c.acceptor.inbox c.dialer.phase.stage c.acceptor.phase.stage

variable {m}

/-! ## All that a turn can do -/

theorem greeting_first (h : m.Understands) (side : Side) (written : Except String Unit) :
    m.greeting side (.ok (some (m.firstFrame side))) written =
        ⟨m.answer side, .ok (some (m.peerAt side))⟩ ∨
      ∃ e, m.greeting side (.ok (some (m.firstFrame side))) written = ⟨[], .err e⟩ := by
  have hversion : ¬ absDiff PROTOCOL_VERSION PROTOCOL_VERSION > 1 := by decide
  cases side with
  | inbound =>
    have hlog := (h.logs .inbound).1
    have htype : (m.firstFrame .inbound).msgType = .handshake := rfl
    unfold greeting onFirstFrame
    simp only [htype, h.handshake, answerHandshake, if_neg hlog, if_neg hversion, if_true]
    cases written with
    | error e => exact .inr ⟨e, rfl⟩
    | ok _ => exact .inl rfl
  | outbound =>
    have hlog := (h.logs .outbound).1
    have htype : (m.firstFrame .outbound).msgType = .handshakeAck := rfl
    unfold greeting onFirstFrame
    simp only [htype, h.handshakeAck, acceptAck, if_neg hlog, if_neg hversion, if_true]
    exact .inl rfl

/-- The turn of an end that greets. -/
theorem greet_cases (hknow : m.Understands) {side : Side} {otherEnded : Bool} {inbox rest : List Frame}
    (hfirst : inbox = [] ∨ inbox.head? = some (m.firstFrame side)) {heard : Heard}
    {first : Except String (Option Frame)} (hread : heard.read otherEnded inbox = some (first, rest))
    (written : Except String Unit) :
    (inbox = m.firstFrame side :: rest ∧
      m.greeting side first written = ⟨m.answer side, .ok (some (m.peerAt side))⟩) ∨
    (∃ e, m.greeting side first written = ⟨[], .err e⟩) ∨
    (otherEnded = true ∧ m.greeting side first written = ⟨[], .ok none⟩) := by
  cases heard with
  | frame =>
    cases inbox with
    | nil => cases hread
    | cons f inbox =>
      obtain ⟨rfl, rfl⟩ := Prod.mk.inj (Option.some.inj hread)
      obtain rfl : f = m.firstFrame side := by simpa using hfirst
      obtain hok | ⟨e, herr⟩ := greeting_first hknow side written
      · exact .inl ⟨rfl, hok⟩
      · exact .inr (.inl ⟨e, herr⟩)
  | closed =>
    simp only [Heard.read] at hread
    split at hread
    · next hclosed =>
      obtain ⟨rfl, rfl⟩ := Prod.mk.inj (Option.some.inj hread)
      exact .inr (.inr ⟨hclosed.2, by cases side <;> rfl⟩)
    · cases hread
  | broken e =>
    obtain ⟨rfl, rfl⟩ := Prod.mk.inj (Option.some.inj hread)
    exact .inr (.inl ⟨e, by cases side <;> rfl⟩)

variable (m) in
/-- A turn after the greeting. -/
inductive MetTurn (side : Side) (a : EndAct) (e e' : Endpoint) : Prop
  | enters (peer : Peer) (now : ℕ) (hphase : e.phase = .entering peer)
      (htable : e'.table = e.table.insert ⟨peer.nodeId, peer.addr, peer.roles, now⟩)
      (hnext : e'.phase = .looping peer.nodeId ∨
        e'.phase = .ended ∧ LogPanics (m.ctx side).logs.info peer.nodeId)
  | loops (p : String) (hphase : e.phase = .looping p) (htable : e'.table = e.table)
      (hnext : e'.phase = .looping p ∨ e'.phase = .leaving p ∨ e'.phase = .ended ∧ a = .fail true)
  | leaves (p : String) (hphase : e.phase = .leaving p) (htable : e'.table = (e.table.remove p).1)
      (hnext : e'.phase = .ended)

theorem MetTurn.stage {side : Side} {a : EndAct} {e e' : Endpoint} (h : m.MetTurn side a e e') :
    e.phase.stage = .met ∧ (e'.phase.stage = .met ∨ e'.phase.stage = .ended) := by
  cases h with
  | enters peer now hphase htable hnext =>
    obtain hnext | ⟨hnext, -⟩ := hnext <;> simp [hphase, hnext, Phase.stage]
  | loops p hphase htable hnext =>
    obtain hnext | hnext | ⟨hnext, -⟩ := hnext <;> simp [hphase, hnext, Phase.stage]
  | leaves p hphase htable hnext => simp [hphase, hnext, Phase.stage]

theorem act_met {side : Side} {otherEnded : Bool} {e e' : Endpoint} {a : EndAct} {sent : List Frame}
    (hact : m.act side otherEnded e a = some (e', sent)) (hdial : ∀ written, a ≠ .dial written)
    (hgreet : ∀ heard written, a ≠ .greet heard written) (hothers : ∀ change, a ≠ .others change) :
    m.MetTurn side a e e' := by
  cases a with
  | dial written => exact absurd rfl (hdial written)
  | greet heard written => exact absurd rfl (hgreet heard written)
  | others change => exact absurd rfl (hothers change)
  | enter now =>
    simp only [act] at hact
    split at hact
    · next peer hphase =>
      split at hact
      · next hpanics =>
        obtain ⟨rfl, rfl⟩ := Prod.mk.inj (Option.some.inj hact)
        exact .enters peer now hphase rfl (.inr ⟨rfl, hpanics⟩)
      · obtain ⟨rfl, rfl⟩ := Prod.mk.inj (Option.some.inj hact)
        exact .enters peer now hphase rfl (.inl rfl)
    · cases hact
  | say frame =>
    simp only [act] at hact
    split at hact
    · next p hphase =>
      obtain ⟨rfl, rfl⟩ := Prod.mk.inj (Option.some.inj hact)
      exact .loops p hphase rfl (.inl hphase)
    · cases hact
  | hear ends =>
    simp only [act] at hact
    split at hact
    · next p f rest hphase hinbox =>
      obtain ⟨rfl, rfl⟩ := Prod.mk.inj (Option.some.inj hact)
      cases ends with
      | false => exact .loops p hphase rfl (.inl rfl)
      | true => exact .loops p hphase rfl (.inr (.inl rfl))
    · next p hphase hinbox =>
      split at hact
      · obtain ⟨rfl, rfl⟩ := Prod.mk.inj (Option.some.inj hact)
        exact .loops p hphase rfl (.inr (.inl rfl))
      · cases hact
    · cases hact
  | fail panicked =>
    simp only [act] at hact
    split at hact
    · next p hphase =>
      obtain ⟨rfl, rfl⟩ := Prod.mk.inj (Option.some.inj hact)
      cases panicked with
      | false => exact .loops p hphase rfl (.inr (.inl rfl))
      | true => exact .loops p hphase rfl (.inr (.inr ⟨rfl, rfl⟩))
    · cases hact
  | leave =>
    simp only [act] at hact
    split at hact
    · next p hphase =>
      obtain ⟨rfl, rfl⟩ := Prod.mk.inj (Option.some.inj hact)
      exact .leaves p hphase rfl rfl
    · cases hact

variable (m) in
inductive Turn (side : Side) (otherEnded : Bool) (a : EndAct) (e e' : Endpoint) (sent : List Frame) :
    Prop
  | dials (hphase : e.phase = .dialing) (htable : e'.table = e.table) (hinbox : e'.inbox = e.inbox)
      (hnext : e'.phase = .greeting ∧ sent = [handshakeFrame (m.ctx side)] ∨
        e'.phase = .ended ∧ sent = [])
  | meets (hphase : e.phase = .greeting) (htable : e'.table = e.table)
      (hinbox : e.inbox = m.firstFrame side :: e'.inbox)
      (hnext : e'.phase = .entering (m.peerAt side)) (hsent : sent = m.answer side)
  | fails (hphase : e.phase = .greeting) (htable : e'.table = e.table) (hnext : e'.phase = .ended)
      (hsent : sent = [])
  | isAlone (hphase : e.phase = .greeting) (htable : e'.table = e.table)
      (hother : otherEnded = true) (hside : side = .outbound) (hnext : e'.phase = .looping "")
      (hsent : sent = [])
  | met (h : m.MetTurn side a e e')
  | others (change : RoutingTable → RoutingTable) (hact : a = .others change)
      (htable : e'.table = change e.table) (hphase : e'.phase = e.phase) (hinbox : e'.inbox = e.inbox)
      (hsent : sent = [])

theorem act_cases (hknow : m.Understands) {side : Side} {otherEnded : Bool} {e e' : Endpoint}
    {a : EndAct} {sent : List Frame} (hact : m.act side otherEnded e a = some (e', sent))
    (hfirst : e.phase = .greeting → e.inbox = [] ∨ e.inbox.head? = some (m.firstFrame side)) :
    m.Turn side otherEnded a e e' sent := by
  cases a with
  | dial written =>
    simp only [act] at hact
    split at hact
    · next hphase =>
      obtain ⟨rfl, rfl⟩ := Prod.mk.inj (Option.some.inj hact)
      exact .dials hphase rfl rfl (.inl ⟨rfl, rfl⟩)
    · next hphase =>
      obtain ⟨rfl, rfl⟩ := Prod.mk.inj (Option.some.inj hact)
      exact .dials hphase rfl rfl (.inr ⟨rfl, rfl⟩)
    · cases hact
  | greet heard written =>
    simp only [act] at hact
    split at hact
    · next first rest hphase hread =>
      obtain ⟨rfl, rfl⟩ := Prod.mk.inj (Option.some.inj hact)
      obtain ⟨hinbox, hmet⟩ | ⟨err, herr⟩ | ⟨hended, hnone⟩ :=
        greet_cases hknow (hfirst hphase) hread written
      · rw [hmet]
        exact .meets hphase rfl hinbox rfl rfl
      · rw [herr]
        exact .fails hphase rfl rfl rfl
      · rw [hnone]
        cases side with
        | inbound => exact .fails hphase rfl rfl rfl
        | outbound => exact .isAlone hphase rfl hended rfl rfl rfl
    · cases hact
  | others change =>
    obtain ⟨rfl, rfl⟩ := Prod.mk.inj (Option.some.inj hact)
    exact .others change rfl rfl rfl rfl rfl
  | enter now => exact .met (act_met hact nofun nofun nofun)
  | say frame => exact .met (act_met hact nofun nofun nofun)
  | hear ends => exact .met (act_met hact nofun nofun nofun)
  | fail panicked => exact .met (act_met hact nofun nofun nofun)
  | leave => exact .met (act_met hact nofun nofun nofun)

theorem Fits.first {c : Connection} (h : m.Fits c) (side : Side)
    (hphase : (c.endAt side).phase = .greeting) :
    (c.endAt side).inbox = [] ∨ (c.endAt side).inbox.head? = some (m.firstFrame side) := by
  unfold Fits at h
  cases side with
  | inbound =>
    have hstage : c.acceptor.phase.stage = .greeting := congrArg Phase.stage hphase
    rw [hstage] at h
    show c.acceptor.inbox = [] ∨ c.acceptor.inbox.head? = some (m.firstFrame .inbound)
    cases hdialer : c.dialer.phase.stage <;> simp only [hdialer, Apart] at h
    · exact .inl h.2
    · exact .inr (by rw [h.2]; rfl)
    · exact h.imp id fun hinbox => by rw [hinbox]; rfl
  | outbound =>
    have hstage : c.dialer.phase.stage = .greeting := congrArg Phase.stage hphase
    rw [hstage] at h
    show c.dialer.inbox = [] ∨ c.dialer.inbox.head? = some (m.firstFrame .outbound)
    cases hacceptor : c.acceptor.phase.stage <;> simp only [hacceptor, Apart] at h
    · exact .inl h.1
    · exact .inr h
    · exact h

/-- A turn of the acceptor. -/
theorem apart_inbound {c : Connection} {e : Endpoint} {sent : List Frame} {a : EndAct}
    {otherEnded : Bool} (hturn : m.Turn .inbound otherEnded a c.acceptor e sent) (hfits : m.Fits c) :
    m.Apart (c.dialer.inbox ++ sent) e.inbox c.dialer.phase.stage e.phase.stage := by
  unfold Fits at hfits
  cases hturn with
  | dials hphase htable hinbox hnext =>
    rw [hphase] at hfits
    cases hdialer : c.dialer.phase.stage <;> simp [Apart, Phase.stage] at hfits
  | meets hphase htable hinbox hnext hsent =>
    rw [hphase] at hfits
    rw [hnext, hsent]
    cases hdialer : c.dialer.phase.stage <;> simp_all [Apart, Phase.stage, answer]
  | fails hphase htable hnext hsent =>
    rw [hphase] at hfits
    rw [hnext, hsent]
    cases hdialer : c.dialer.phase.stage <;> simp_all [Apart, Phase.stage]
  | isAlone hphase htable hother hside => cases hside
  | met h =>
    obtain ⟨hmet, hnext⟩ := h.stage
    rw [hmet] at hfits
    obtain hnext | hnext := hnext <;> rw [hnext] <;>
      cases hdialer : c.dialer.phase.stage <;> simp_all [Apart]
  | others change hact htable hphase hinbox hsent =>
    rw [hphase, hinbox, hsent, List.append_nil]
    exact hfits

/-- A turn of the dialer. -/
theorem apart_outbound {c : Connection} {e : Endpoint} {sent : List Frame} {a : EndAct}
    {otherEnded : Bool} (hturn : m.Turn .outbound otherEnded a c.dialer e sent)
    (hended : otherEnded = true → c.acceptor.phase = .ended) (hfits : m.Fits c) :
    m.Apart e.inbox (c.acceptor.inbox ++ sent) e.phase.stage c.acceptor.phase.stage := by
  unfold Fits at hfits
  cases hturn with
  | dials hphase htable hinbox hnext =>
    have hhello : handshakeFrame (m.ctx .outbound) = m.firstFrame .inbound := rfl
    rw [hphase] at hfits
    rw [hinbox]
    obtain ⟨hnext, hsent⟩ | ⟨hnext, hsent⟩ := hnext <;> rw [hnext, hsent] <;>
      cases hacceptor : c.acceptor.phase.stage <;> simp_all [Apart, Phase.stage]
  | meets hphase htable hinbox hnext hsent =>
    rw [hphase] at hfits
    rw [hnext, hsent]
    cases hacceptor : c.acceptor.phase.stage <;> simp_all [Apart, Phase.stage]
  | fails hphase htable hnext hsent =>
    rw [hphase] at hfits
    rw [hnext, hsent]
    cases hacceptor : c.acceptor.phase.stage <;> simp_all [Apart, Phase.stage]
  | isAlone hphase htable hother hside hnext hsent =>
    rw [hnext, hended hother]
    trivial
  | met h =>
    obtain ⟨hmet, hnext⟩ := h.stage
    rw [hmet] at hfits
    obtain hnext | hnext := hnext <;> rw [hnext] <;>
      cases hacceptor : c.acceptor.phase.stage <;> simp_all [Apart]
  | others change hact htable hphase hinbox hsent =>
    rw [hphase, hinbox, hsent, List.append_nil]
    exact hfits

theorem step_cases (hknow : m.Understands) {c c' : Connection} {turn : Side × EndAct}
    (hstep : m.step c turn = some c') (hfits : m.Fits c) :
    ∃ e sent, m.Turn turn.1 ((c.endAt turn.1.other).phase = .ended) turn.2 (c.endAt turn.1) e sent ∧
      c' = (c.set turn.1 e).deliver turn.1.other sent := by
  obtain ⟨⟨e, sent⟩, hact, rfl⟩ := Option.map_eq_some_iff.mp hstep
  exact ⟨e, sent, act_cases hknow hact (hfits.first turn.1), rfl⟩

theorem fits_step (hknow : m.Understands) {c c' : Connection} {turn : Side × EndAct}
    (hstep : m.step c turn = some c') (hfits : m.Fits c) : m.Fits c' := by
  obtain ⟨e, sent, hturn, rfl⟩ := step_cases hknow hstep hfits
  obtain ⟨side, a⟩ := turn
  cases side with
  | inbound =>
    have happart := apart_inbound (c := c) hturn hfits
    exact happart
  | outbound =>
    have happart := apart_outbound (c := c) hturn of_decide_eq_true hfits
    exact happart

/-! ## The routing tables -/

variable (m) in
/-- The other end is in the routing table while the loop with it is not over. -/
structure EndSound (side : Side) (otherEnded : Bool) (e : Endpoint) : Prop where
  entering : ∀ peer, e.phase = .entering peer → peer = m.peerAt side
  loops : ∀ p, e.phase = .looping p ∨ e.phase = .leaving p →
    p = (m.peerAt side).nodeId ∨ p = "" ∧ otherEnded = true
  known : e.table.knows (m.peerAt side).nodeId = true ↔
    e.phase = .looping (m.peerAt side).nodeId ∨ e.phase = .leaving (m.peerAt side).nodeId
  entry : ∀ entry, e.table.buckets[(m.peerAt side).nodeId]? = some entry →
    ∃ now, entry = ⟨(m.peerAt side).nodeId, (m.peerAt side).addr, (m.peerAt side).roles, now⟩

variable (m) in
/-- No loop panics, and the other tasks of a node leave the entry of its peer as it is. -/
def Calm (turn : Side × EndAct) : Prop :=
  turn.2 ≠ .fail true ∧ ∀ change, turn.2 = .others change → ∀ table : RoutingTable,
    (change table).buckets[(m.peerAt turn.1).nodeId]? = table.buckets[(m.peerAt turn.1).nodeId]?

theorem EndSound.of_same {side : Side} {otherEnded : Bool} {e e' : Endpoint}
    (h : m.EndSound side otherEnded e) (htable : e'.table = e.table)
    (hbefore : ∀ p, e.phase ≠ .looping p ∧ e.phase ≠ .leaving p)
    (hafter : ∀ p, e'.phase ≠ .looping p ∧ e'.phase ≠ .leaving p)
    (hentering : ∀ peer, e'.phase = .entering peer → peer = m.peerAt side) :
    m.EndSound side otherEnded e' where
  entering := hentering
  loops p hp := (hp.elim (hafter p).1 (hafter p).2).elim
  known := by
    rw [htable, h.known]
    simp [hbefore, hafter]
  entry := by
    rw [htable]
    exact h.entry

theorem MetTurn.sound {side : Side} {otherEnded : Bool} {a : EndAct} {e e' : Endpoint}
    (hturn : m.MetTurn side a e e') (hknow : m.Understands) (hid : (m.peerAt side).nodeId ≠ "")
    (hcalm : a ≠ .fail true) (h : m.EndSound side otherEnded e) : m.EndSound side otherEnded e' := by
  cases hturn with
  | enters peer now hphase htable hnext =>
    obtain rfl := h.entering peer hphase
    obtain hnext | ⟨-, hpanics⟩ := hnext
    · refine ⟨?_, ?_, ?_, ?_⟩
      · intro peer hentering
        rw [hnext] at hentering
        cases hentering
      · intro p hloop
        rw [hnext] at hloop
        obtain hloop | hloop := hloop
        · exact .inl (Phase.looping.inj hloop).symm
        · cases hloop
      · rw [htable, RoutingTable.knows_insert, hnext]
        simp
      · intro entry hentry
        rw [htable, RoutingTable.insert, OrderedTable.get_insert, if_pos rfl] at hentry
        exact ⟨now, (Option.some.inj hentry).symm⟩
    · exact absurd hpanics (hknow.logs side).2
  | loops p hphase htable hnext =>
    have hp := h.loops p (.inl hphase)
    have hnext : e'.phase = .looping p ∨ e'.phase = .leaving p := by
      obtain hnext | hnext | ⟨-, hpanicked⟩ := hnext
      · exact .inl hnext
      · exact .inr hnext
      · exact absurd hpanicked hcalm
    refine ⟨?_, ?_, ?_, by rw [htable]; exact h.entry⟩
    · intro peer hentering
      obtain hnext | hnext := hnext <;> rw [hnext] at hentering <;> cases hentering
    · intro q hq
      obtain rfl : p = q := by
        obtain hnext | hnext := hnext <;> rw [hnext] at hq <;> simpa using hq
      exact hp
    · rw [htable, h.known, hphase]
      obtain hnext | hnext := hnext
      · rw [hnext]
      · rw [hnext]
        simp
  | leaves p hphase htable hnext =>
    have hp := h.loops p (.inr hphase)
    refine ⟨?_, ?_, ?_, ?_⟩
    · intro peer hentering
      rw [hnext] at hentering
      cases hentering
    · intro q hq
      rw [hnext] at hq
      obtain hq | hq := hq <;> cases hq
    · rw [htable, RoutingTable.knows_remove, hnext]
      obtain rfl | ⟨rfl, -⟩ := hp
      · simp
      · have hout := h.known
        rw [hphase] at hout
        simp only [reduceCtorEq, Phase.leaving.injEq, false_or] at hout
        have hnot : ¬ e.table.knows (m.peerAt side).nodeId = true := fun hk => hid (hout.mp hk).symm
        simp [hnot]
    · intro entry hentry
      rw [htable, RoutingTable.remove, OrderedTable.get_erase] at hentry
      split at hentry
      · cases hentry
      · exact h.entry entry hentry

theorem Turn.sound {side : Side} {otherEnded : Bool} {a : EndAct} {e e' : Endpoint}
    {sent : List Frame} (hturn : m.Turn side otherEnded a e e' sent) (hknow : m.Understands)
    (hid : (m.peerAt side).nodeId ≠ "") (hcalm : m.Calm (side, a))
    (h : m.EndSound side otherEnded e) : m.EndSound side otherEnded e' := by
  cases hturn with
  | dials hphase htable hinbox hnext =>
    obtain ⟨hnext, -⟩ | ⟨hnext, -⟩ := hnext
    all_goals exact h.of_same htable (by simp [hphase]) (by simp [hnext]) (by simp [hnext])
  | meets hphase htable hinbox hnext hsent =>
    refine h.of_same htable (by simp [hphase]) (by simp [hnext]) fun peer hentering => ?_
    rw [hnext] at hentering
    exact (Phase.entering.inj hentering).symm
  | fails hphase htable hnext hsent =>
    exact h.of_same htable (by simp [hphase]) (by simp [hnext]) (by simp [hnext])
  | isAlone hphase htable hother hside hnext hsent =>
    refine ⟨by simp [hnext], ?_, ?_, by rw [htable]; exact h.entry⟩
    · intro p hp
      rw [hnext] at hp
      obtain hp | hp := hp
      · exact .inr ⟨(Phase.looping.inj hp).symm, hother⟩
      · cases hp
    · rw [htable, h.known, hphase, hnext]
      simp [hid.symm]
  | met hmet => exact hmet.sound hknow hid hcalm.1 h
  | others change hact htable hphase hinbox hsent =>
    have hsame := hcalm.2 change hact e.table
    refine ⟨?_, ?_, ?_, ?_⟩
    · rw [hphase]
      exact h.entering
    · rw [hphase]
      exact h.loops
    · rw [hphase, htable, RoutingTable.knows, hsame]
      exact h.known
    · rw [htable, hsame]
      exact h.entry

theorem Turn.ended {side : Side} {otherEnded : Bool} {a : EndAct} {e e' : Endpoint}
    {sent : List Frame} (hturn : m.Turn side otherEnded a e e' sent) (h : e.phase = .ended) :
    e'.phase = .ended := by
  cases hturn with
  | dials hphase => simp [h] at hphase
  | meets hphase => simp [h] at hphase
  | fails hphase => simp [h] at hphase
  | isAlone hphase => simp [h] at hphase
  | met hmet =>
    have hstage := hmet.stage.1
    simp [h, Phase.stage] at hstage
  | others change hact htable hphase => rw [hphase, h]

theorem EndSound.waiting {side : Side} {otherEnded otherEnded' : Bool} {e : Endpoint}
    (h : m.EndSound side otherEnded e) (hother : otherEnded = true → otherEnded' = true)
    (frames : List Frame) : m.EndSound side otherEnded' { e with inbox := e.inbox ++ frames } where
  entering := h.entering
  loops p hp := (h.loops p hp).imp id fun halone => ⟨halone.1, hother halone.2⟩
  known := h.known
  entry := h.entry

variable (m) in
structure Sound (c : Connection) : Prop where
  fits : m.Fits c
  ends : ∀ side, m.EndSound side ((c.endAt side.other).phase = .ended) (c.endAt side)

theorem sound_step (hknow : m.Understands) (hids : ∀ side, (m.peerAt side).nodeId ≠ "")
    {c c' : Connection} {turn : Side × EndAct} (hcalm : m.Calm turn)
    (hstep : m.step c turn = some c') (h : m.Sound c) : m.Sound c' := by
  refine ⟨fits_step hknow hstep h.fits, fun side => ?_⟩
  obtain ⟨e, sent, hturn, rfl⟩ := step_cases hknow hstep h.fits
  have hself : ((c.set turn.1 e).deliver turn.1.other sent).endAt turn.1 = e := by
    cases turn.1 <;> rfl
  have hother : ((c.set turn.1 e).deliver turn.1.other sent).endAt turn.1.other =
      { c.endAt turn.1.other with inbox := (c.endAt turn.1.other).inbox ++ sent } := by
    cases turn.1 <;> rfl
  obtain rfl | rfl : side = turn.1 ∨ side = turn.1.other := by
    cases side <;> cases turn.1 <;> simp [Side.other]
  · rw [hself, hother]
    exact hturn.sound hknow (hids turn.1) hcalm (h.ends turn.1)
  · have hback : turn.1.other.other = turn.1 := by cases turn.1 <;> rfl
    have hsound := h.ends turn.1.other
    rw [hback] at hsound ⊢
    rw [hself, hother]
    refine hsound.waiting (fun hended => ?_) sent
    exact decide_eq_true (hturn.ended (of_decide_eq_true hended))

theorem sound_run (hknow : m.Understands) (hids : ∀ side, (m.peerAt side).nodeId ≠ "")
    {turns : List (Side × EndAct)} (hcalm : ∀ turn ∈ turns, m.Calm turn) {c c' : Connection}
    (hrun : m.run c turns = some c') (h : m.Sound c) : m.Sound c' := by
  induction turns generalizing c with
  | nil =>
    obtain rfl := Option.some.inj hrun
    exact h
  | cons turn turns ih =>
    obtain ⟨next, hstep, hrest⟩ := Option.bind_eq_some_iff.mp hrun
    exact ih (fun t ht => hcalm t (List.mem_cons_of_mem turn ht)) hrest
      (sound_step hknow hids (hcalm turn List.mem_cons_self) hstep h)

theorem sound_start {dialerTable acceptorTable : RoutingTable}
    (hdialer : ¬ dialerTable.knows (m.peerAt .outbound).nodeId = true)
    (hacceptor : ¬ acceptorTable.knows (m.peerAt .inbound).nodeId = true) :
    m.Sound (.start dialerTable acceptorTable) := by
  refine ⟨⟨rfl, rfl⟩, fun side => ?_⟩
  have hnone : ∀ {table : RoutingTable} {id : String}, ¬ table.knows id = true →
      ∀ entry, table.buckets[id]? ≠ some entry := by
    intro table id hunknown entry hentry
    exact hunknown (by rw [RoutingTable.knows, hentry]; rfl)
  cases side with
  | inbound =>
    refine ⟨nofun, ?_, ?_, fun entry hentry => absurd hentry (hnone hacceptor entry)⟩
    · rintro p (hp | hp) <;> cases hp
    · simp [Connection.endAt, Connection.start, hacceptor]
  | outbound =>
    refine ⟨nofun, ?_, ?_, fun entry hentry => absurd hentry (hnone hdialer entry)⟩
    · rintro p (hp | hp) <;> cases hp
    · simp [Connection.endAt, Connection.start, hdialer]

/-! ## When nothing is left to do -/

end Meeting

namespace EndAct

/-- A turn that an end takes as soon as it can. -/
def Due : EndAct → Prop
  | .dial _ => True
  | .greet heard _ => heard = .frame ∨ heard = .closed
  | .enter _ => True
  | .hear _ => True
  | .leave => True
  | _ => False

/-- A turn that neither writes a frame of a loop nor belongs to another task. -/
def Advances : EndAct → Prop
  | .say _ => False
  | .others _ => False
  | _ => True

end EndAct

namespace Meeting
variable {m : Meeting}

variable (m) in
def Settled (c : Connection) : Prop := ∀ side a, a.Due → m.step c (side, a) = none

theorem Settled.act {c : Connection} (h : m.Settled c) (side : Side) {a : EndAct} (hdue : a.Due) :
    m.act side ((c.endAt side.other).phase = .ended) (c.endAt side) a = none :=
  Option.map_eq_none_iff.mp (h side a hdue)

theorem Settled.endAt {c : Connection} (h : m.Settled c) (side : Side) :
    (c.endAt side).phase = .ended ∨
      ((c.endAt side).phase = .greeting ∨ ∃ p, (c.endAt side).phase = .looping p) ∧
        (c.endAt side).inbox = [] ∧ (c.endAt side.other).phase ≠ .ended := by
  have hdial := h.act side (a := .dial (.ok ())) trivial
  have hframe := h.act side (a := .greet .frame (.ok ())) (.inl rfl)
  have hclosed := h.act side (a := .greet .closed (.ok ())) (.inr rfl)
  have henter := h.act side (a := .enter 0) trivial
  have hhear := h.act side (a := .hear true) trivial
  have hleave := h.act side (a := .leave) trivial
  cases hphase : (c.endAt side).phase with
  | dialing => simp [Meeting.act, hphase] at hdial
  | greeting =>
    refine .inr ⟨.inl rfl, ?_⟩
    cases hinbox : (c.endAt side).inbox with
    | nil =>
      refine ⟨rfl, fun hended => ?_⟩
      simp [Meeting.act, hphase, hinbox, Heard.read, hended] at hclosed
    | cons f rest => simp [Meeting.act, hphase, hinbox, Heard.read] at hframe
  | entering peer =>
    simp only [Meeting.act, hphase] at henter
    split at henter <;> cases henter
  | looping p =>
    refine .inr ⟨.inr ⟨p, rfl⟩, ?_⟩
    cases hinbox : (c.endAt side).inbox with
    | nil => simpa [Meeting.act, hphase, hinbox] using hhear
    | cons f rest => simp [Meeting.act, hphase, hinbox] at hhear
  | leaving p => simp [Meeting.act, hphase] at hleave
  | ended => exact .inl rfl

/-- Both ends loop, or both are over. -/
theorem settled_cases {c : Connection} (hsound : m.Sound c) (h : m.Settled c) :
    (∀ side, (c.endAt side).phase = .looping (m.peerAt side).nodeId) ∨
      ∀ side, (c.endAt side).phase = .ended := by
  have hfits := hsound.fits
  unfold Fits at hfits
  obtain hdialer | ⟨hdialer, hdialerInbox, hacceptorOn⟩ := h.endAt .outbound
  · obtain hacceptor | ⟨-, -, hdialerOn⟩ := h.endAt .inbound
    · right
      intro side
      cases side
      · exact hacceptor
      · exact hdialer
    · exact absurd hdialer hdialerOn
  · obtain hacceptor | ⟨hacceptor, hacceptorInbox, hdialerOn⟩ := h.endAt .inbound
    · exact absurd hacceptor hacceptorOn
    · have hloops : ∀ side p, (c.endAt side).phase = .looping p →
          (c.endAt side).phase = .looping (m.peerAt side).nodeId := by
        intro side p hp
        have hon : (c.endAt side.other).phase ≠ .ended := by cases side <;> assumption
        obtain rfl | ⟨-, hended⟩ := (hsound.ends side).loops p (.inl hp)
        · exact hp
        · exact absurd (of_decide_eq_true hended) hon
      have hdi : c.dialer.inbox = [] := hdialerInbox
      have hai : c.acceptor.inbox = [] := hacceptorInbox
      rw [hdi, hai] at hfits
      obtain hdialer | ⟨p, hdialer⟩ := hdialer <;> obtain hacceptor | ⟨q, hacceptor⟩ := hacceptor
      · -- the handshake was written and is still unread
        have hd : c.dialer.phase = .greeting := hdialer
        have ha : c.acceptor.phase = .greeting := hacceptor
        simp [hd, ha, Phase.stage, Apart] at hfits
      · have hd : c.dialer.phase = .greeting := hdialer
        have ha : c.acceptor.phase = .looping q := hacceptor
        simp [hd, ha, Phase.stage, Apart] at hfits
      · have hd : c.dialer.phase = .looping p := hdialer
        have ha : c.acceptor.phase = .greeting := hacceptor
        simp [hd, ha, Phase.stage, Apart] at hfits
      · left
        intro side
        cases side
        · exact hloops .inbound q hacceptor
        · exact hloops .outbound p hdialer

/-! ## How many turns are left -/

end Meeting

def Phase.rank : Phase → ℕ
  | dialing => 7
  | greeting => 5
  | entering _ => 3
  | looping _ => 2
  | leaving _ => 1
  | ended => 0

def Endpoint.load (e : Endpoint) : ℕ := e.phase.rank + e.inbox.length

def Connection.load (c : Connection) : ℕ := c.dialer.load + c.acceptor.load

theorem Heard.length_rest_le {heard : Heard} {otherEnded : Bool} {inbox rest : List Frame}
    {first : Except String (Option Frame)}
    (h : heard.read otherEnded inbox = some (first, rest)) : rest.length ≤ inbox.length := by
  cases heard with
  | frame =>
    cases inbox with
    | nil => cases h
    | cons f inbox =>
      obtain ⟨-, rfl⟩ := Prod.mk.inj (Option.some.inj h)
      exact Nat.le_succ _
  | closed =>
    simp only [Heard.read] at h
    split at h
    · obtain ⟨-, rfl⟩ := Prod.mk.inj (Option.some.inj h)
      exact Nat.zero_le _
    · cases h
  | broken e =>
    obtain ⟨-, rfl⟩ := Prod.mk.inj (Option.some.inj h)
    exact le_rfl

theorem rank_afterGreeting_le (side : Side) (outcome : Outcome (Option Peer)) :
    (afterGreeting side outcome).rank ≤ 3 := by
  unfold afterGreeting
  split
  · exact le_rfl
  · split <;> simp [Phase.rank]
  · exact Nat.zero_le 3

namespace Meeting
variable {m : Meeting}

/-- What a turn writes is less than what it leaves behind. -/
theorem load_act (hknow : m.Understands) {side : Side} {otherEnded : Bool} {e e' : Endpoint}
    {a : EndAct} {sent : List Frame} (hact : m.act side otherEnded e a = some (e', sent))
    (hfirst : e.phase = .greeting → e.inbox = [] ∨ e.inbox.head? = some (m.firstFrame side))
    (hadvances : a.Advances) : e'.load + sent.length < e.load := by
  cases a with
  | dial written =>
    simp only [act] at hact
    split at hact
    · next hphase =>
      obtain ⟨rfl, rfl⟩ := Prod.mk.inj (Option.some.inj hact)
      simp only [Endpoint.load, hphase, Phase.rank, List.length_singleton]
      omega
    · next hphase =>
      obtain ⟨rfl, rfl⟩ := Prod.mk.inj (Option.some.inj hact)
      simp only [Endpoint.load, hphase, Phase.rank, List.length_nil]
      omega
    · cases hact
  | greet heard written =>
    simp only [act] at hact
    split at hact
    · next first rest hphase hread =>
      obtain ⟨rfl, rfl⟩ := Prod.mk.inj (Option.some.inj hact)
      have hrest := Heard.length_rest_le hread
      have hrank := rank_afterGreeting_le side (m.greeting side first written).outcome
      have hsent : (m.greeting side first written).sent.length ≤ 1 := by
        obtain ⟨-, hmet⟩ | ⟨err, herr⟩ | ⟨-, hnone⟩ :=
          greet_cases hknow (hfirst hphase) hread written
        · rw [hmet]
          cases side <;> simp [answer]
        · rw [herr]
          exact Nat.zero_le 1
        · rw [hnone]
          exact Nat.zero_le 1
      have hgreeting : Phase.greeting.rank = 5 := rfl
      simp only [Endpoint.load, hphase, hgreeting]
      omega
    · cases hact
  | enter now =>
    simp only [act] at hact
    split at hact
    · next peer hphase =>
      split at hact <;> obtain ⟨rfl, rfl⟩ := Prod.mk.inj (Option.some.inj hact) <;>
        simp [Endpoint.load, hphase, Phase.rank]
    · cases hact
  | say frame => exact hadvances.elim
  | hear ends =>
    simp only [act] at hact
    split at hact
    · next p f rest hphase hinbox =>
      obtain ⟨rfl, rfl⟩ := Prod.mk.inj (Option.some.inj hact)
      cases ends <;> simp [Endpoint.load, hphase, hinbox, Phase.rank]
      omega
    · next p hphase hinbox =>
      split at hact
      · obtain ⟨rfl, rfl⟩ := Prod.mk.inj (Option.some.inj hact)
        simp [Endpoint.load, hphase, hinbox, Phase.rank]
      · cases hact
    · cases hact
  | fail panicked =>
    simp only [act] at hact
    split at hact
    · next p hphase =>
      obtain ⟨rfl, rfl⟩ := Prod.mk.inj (Option.some.inj hact)
      cases panicked <;> simp [Endpoint.load, hphase, Phase.rank]
    · cases hact
  | leave =>
    simp only [act] at hact
    split at hact
    · next p hphase =>
      obtain ⟨rfl, rfl⟩ := Prod.mk.inj (Option.some.inj hact)
      simp [Endpoint.load, hphase, Phase.rank]
    · cases hact
  | others change => exact hadvances.elim

theorem load_step (hknow : m.Understands) {c c' : Connection} {turn : Side × EndAct}
    (hstep : m.step c turn = some c') (hfits : m.Fits c) (hadvances : turn.2.Advances) :
    c'.load < c.load := by
  obtain ⟨⟨e, sent⟩, hact, rfl⟩ := Option.map_eq_some_iff.mp hstep
  have hload := load_act hknow hact (hfits.first turn.1) hadvances
  obtain ⟨side, a⟩ := turn
  cases side with
  | inbound =>
    simp only [Connection.load, Endpoint.load, Connection.endAt, Connection.set, Connection.deliver,
      Side.other, List.length_append] at hload ⊢
    omega
  | outbound =>
    simp only [Connection.load, Endpoint.load, Connection.endAt, Connection.set, Connection.deliver,
      Side.other, List.length_append] at hload ⊢
    omega

theorem load_run (hknow : m.Understands) {turns : List (Side × EndAct)}
    (hadvances : ∀ turn ∈ turns, turn.2.Advances) {c c' : Connection}
    (hrun : m.run c turns = some c') (hfits : m.Fits c) : turns.length + c'.load ≤ c.load := by
  induction turns generalizing c with
  | nil =>
    obtain rfl := Option.some.inj hrun
    simp
  | cons turn turns ih =>
    obtain ⟨next, hstep, hrest⟩ := Option.bind_eq_some_iff.mp hrun
    have hless := load_step hknow hstep hfits (hadvances turn List.mem_cons_self)
    have htail := ih (fun t ht => hadvances t (List.mem_cons_of_mem turn ht)) hrest
      (fits_step hknow hstep hfits)
    rw [List.length_cons]
    omega

variable (m) in
/-- The other end has let this one in or is over, or the answer to its handshake is what it reads
next. -/
def LetIn (c : Connection) (side : Side) : Prop :=
  (c.endAt side.other).phase.stage = .met ∨ (c.endAt side.other).phase.stage = .ended ∨
    side = .inbound ∧ c.dialer.phase.stage = .greeting ∧
      c.dialer.inbox.head? = some (m.firstFrame .outbound)

theorem letIn_of_known {c : Connection} (hsound : m.Sound c) {side : Side}
    (hknown : (c.endAt side).table.knows (m.peerAt side).nodeId = true) : m.LetIn c side := by
  have hfits := hsound.fits
  unfold Fits at hfits
  have hmet : (c.endAt side).phase.stage = .met := by
    obtain hphase | hphase := (hsound.ends side).known.mp hknown <;> rw [hphase] <;> rfl
  cases side with
  | inbound =>
    have hacceptor : c.acceptor.phase.stage = .met := hmet
    rw [hacceptor] at hfits
    cases hdialer : c.dialer.phase.stage with
    | dialing => simp [hdialer, Apart] at hfits
    | greeting =>
      rw [hdialer] at hfits
      exact .inr (.inr ⟨rfl, hdialer, hfits⟩)
    | met => exact .inl hdialer
    | ended => exact .inr (.inl hdialer)
  | outbound =>
    have hdialer : c.dialer.phase.stage = .met := hmet
    rw [hdialer] at hfits
    cases hacceptor : c.acceptor.phase.stage with
    | dialing => simp [hacceptor, Apart] at hfits
    | greeting => simp [hacceptor, Apart] at hfits
    | met => exact .inl hacceptor
    | ended => exact .inr (.inl hacceptor)

/-- An end that has the other one in its table has it as it introduced itself, and is let in by it.
When nothing is left to do, both have one another in their tables or neither has; and as long as the
loops write nothing, only `load` turns are left. -/
theorem connection_agrees (hknow : m.Understands) (hids : ∀ side, (m.peerAt side).nodeId ≠ "")
    {dialerTable acceptorTable : RoutingTable}
    (hdialer : ¬ dialerTable.knows (m.peerAt .outbound).nodeId = true)
    (hacceptor : ¬ acceptorTable.knows (m.peerAt .inbound).nodeId = true)
    {turns : List (Side × EndAct)} (hcalm : ∀ turn ∈ turns, m.Calm turn) {c : Connection}
    (hrun : m.run (.start dialerTable acceptorTable) turns = some c) :
    (∀ side entry, (c.endAt side).table.buckets[(m.peerAt side).nodeId]? = some entry →
      (∃ now, entry =
        ⟨(m.peerAt side).nodeId, (m.peerAt side).addr, (m.peerAt side).roles, now⟩) ∧
      m.LetIn c side) ∧
    (m.Settled c →
      (∀ side, (c.endAt side).phase = .looping (m.peerAt side).nodeId ∧
        (c.endAt side).table.knows (m.peerAt side).nodeId = true) ∨
      (∀ side, (c.endAt side).phase = .ended ∧
        ¬ (c.endAt side).table.knows (m.peerAt side).nodeId = true)) ∧
    ∀ more c', (∀ turn ∈ more, turn.2.Advances) → m.run c more = some c' → more.length ≤ c.load := by
  have hsound := sound_run hknow hids hcalm hrun (sound_start hdialer hacceptor)
  refine ⟨fun side entry hentry => ⟨(hsound.ends side).entry entry hentry, ?_⟩, fun hsettled => ?_,
    fun more c' hadvances hmore => ?_⟩
  · refine letIn_of_known hsound ?_
    rw [RoutingTable.knows, hentry]
    rfl
  · obtain hloops | hended := settled_cases hsound hsettled
    · exact .inl fun side => ⟨hloops side, (hsound.ends side).known.mpr (.inl (hloops side))⟩
    · refine .inr fun side => ⟨hended side, fun hknown => ?_⟩
      have hphase := (hsound.ends side).known.mp hknown
      rw [hended side] at hphase
      obtain hphase | hphase := hphase <;> cases hphase
  · exact (Nat.le_add_right _ _).trans (load_run hknow hadvances hmore hsound.fits)

end Meeting

/-! ## Two nodes -/

def HandshakeReader.onlyAck (ack : HandshakeAck) : HandshakeReader where
  handshake _ := .error "expected value"
  handshakeAck text := if text = ack.toJson then .ok ack else .error "expected value"

namespace Meeting

def twoNodes : Meeting where
  ctx
    | .inbound => .reading (handshakeOf "ab12cd34")
    | .outbound =>
      { ConnectionContext.reading (handshakeOf "ab12cd34") with
        localNodeId := "ab12cd34"
        reader := .onlyAck ⟨PROTOCOL_VERSION, "ef56ab78", ["full"], []⟩ }
  remoteAddr
    | .inbound => "10.0.0.7:4000"
    | .outbound => "127.0.0.1:9000"

/-- The dialer enters its peer before the acceptor does. -/
def handshakeTurns : List (Side × EndAct) :=
  [(.outbound, .dial (.ok ())), (.inbound, .greet .frame (.ok ())),
    (.outbound, .greet .frame (.ok ())), (.outbound, .enter 5), (.inbound, .enter 6)]

theorem handshakeTurns_isSome :
    (twoNodes.run (.start .new .new) handshakeTurns).isSome = true := by decide +kernel

def afterHandshake : Connection :=
  (twoNodes.run (.start .new .new) handshakeTurns).get handshakeTurns_isSome

theorem handshakeTurns_run :
    twoNodes.run (.start .new .new) handshakeTurns = some afterHandshake :=
  (Option.some_get _).symm

theorem twoNodes_understand : twoNodes.Understands where
  handshake := by decide +kernel
  handshakeAck := by decide +kernel
  logs side := by
    refine quiet_of_shortId ?_
    cases side <;> decide +kernel

theorem connection_agrees_twoNodes :
    (∀ side entry,
      (afterHandshake.endAt side).table.buckets[(twoNodes.peerAt side).nodeId]? = some entry →
      (∃ now, entry = ⟨(twoNodes.peerAt side).nodeId, (twoNodes.peerAt side).addr,
        (twoNodes.peerAt side).roles, now⟩) ∧ twoNodes.LetIn afterHandshake side) ∧
    (twoNodes.Settled afterHandshake →
      (∀ side, (afterHandshake.endAt side).phase = .looping (twoNodes.peerAt side).nodeId ∧
        (afterHandshake.endAt side).table.knows (twoNodes.peerAt side).nodeId = true) ∨
      (∀ side, (afterHandshake.endAt side).phase = .ended ∧
        ¬ (afterHandshake.endAt side).table.knows (twoNodes.peerAt side).nodeId = true)) ∧
    ∀ more c', (∀ turn ∈ more, turn.2.Advances) → twoNodes.run afterHandshake more = some c' →
      more.length ≤ afterHandshake.load := by
  have hids : ∀ side, (twoNodes.peerAt side).nodeId ≠ "" := by
    intro side
    cases side <;> decide +kernel
  have hcalm : ∀ turn ∈ handshakeTurns, twoNodes.Calm turn := by
    simp [handshakeTurns, Calm]
  exact connection_agrees twoNodes_understand hids (by decide +kernel) (by decide +kernel) hcalm
    handshakeTurns_run

end Meeting

end DSearch
