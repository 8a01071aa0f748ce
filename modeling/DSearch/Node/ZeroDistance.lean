import DSearch.Node.Handshake
import DSearch.Node.NearestPeers

/-! # Peers at distance zero

A node id is any text that a peer sends, and `hex_to_bytes` skips what does not read as a number. Only
ids with different numbers at a place that both have are told apart; an id without a number is at
distance zero from every target. -/

namespace DSearch
set_option autoImplicit false
open Transaction Sign RoutingTable

/-- An id that `handle_connection` or `connect_to_peer` puts into a table that does not know it. -/
def CanEnter (id : String) : Prop :=
  (∃ (ctx : ConnectionContext) (conn : Inbound) (s : Shared), s.routingTable.knows id = false ∧
    ((handleConnection ctx conn).run s).1.routingTable.knows id = true) ∨
  ∃ (ed : Ed25519) (store : Option (Store ed)) (ctx : ConnectionContext) (conn : Outbound) (s : Shared),
    s.routingTable.knows id = false ∧
      ((connectToPeer ctx store conn).run s).1.routingTable.knows id = true

/-- Both handlers take the id as it comes. -/
theorem canEnter (id : String) : CanEnter id := by
  have hread : (ConnectionContext.reading (handshakeOf id)).reader.handshake (handshakeOf id).toJson =
      .ok (handshakeOf id) := if_pos rfl
  have hgreeting : (greetInbound (.reading (handshakeOf id)) (.sending (handshakeOf id))).outcome =
      .ok (some ⟨id, "10.0.0.7:4000", ["full"]⟩) := by
    simp only [greetInbound, Inbound.sending, onFirstFrame, Frame.new, if_true, hread]
    simp [answerHandshake, ConnectionContext.reading, LogPanics, handshakeOf, absDiff, afterWrite]
  refine .inl ⟨.reading (handshakeOf id), .sending (handshakeOf id),
    ⟨0, .new, true, 0, .new .empty⟩, ?_, ?_⟩
  · simp [knows, new]
  · simp only [handleConnection, hgreeting, Client.run_write, Client.run_done, Shared.enter,
      knows_insert, decide_true, Bool.true_or]

/-! ## When the distance is zero -/

def noDistance : Bytes := List.replicate 32 0

/-- The numbers that an id stands for: each is a readable pair of its text. -/
def numbersOf (id : String) : Bytes := hexToBytes (asBytes id)

/-- At place `i` both ids have a number, and the numbers differ. -/
def DifferAt (a b : String) (i : ℕ) : Prop :=
  ∃ x ∈ (numbersOf a)[i]?, ∃ y ∈ (numbersOf b)[i]?, x ≠ y

theorem xorDistance_eq_noDistance_iff (a b : String) :
    xorDistance a b = noDistance ↔ ¬ ∃ i < 32, DifferAt a b i := by
  rw [noDistance, List.eq_replicate_iff]
  simp only [xorDistance, List.length_map, List.length_range, true_and, List.forall_mem_map,
    List.mem_range, not_exists, not_and]
  refine forall₂_congr fun i _ => ?_
  unfold DifferAt numbersOf
  cases (hexToBytes (asBytes a))[i]? with
  | none => simp
  | some x =>
    cases (hexToBytes (asBytes b))[i]? with
    | none => simp
    | some y => simp

/-- An id without a number has no distance to any target, and another one has some. -/
theorem far_from_some_iff (a : String) :
    (∃ target, xorDistance a target ≠ noDistance) ↔ numbersOf a ≠ [] := by
  constructor
  · rintro ⟨target, hfar⟩ hempty
    refine hfar ((xorDistance_eq_noDistance_iff a target).mpr ?_)
    rintro ⟨i, -, x, hx, -⟩
    rw [hempty] at hx
    cases hx
  · intro hsome
    obtain ⟨x, rest, hx⟩ := List.exists_cons_of_ne_nil hsome
    refine ⟨toHex [x + 1], ?_⟩
    rw [Ne, xorDistance_eq_noDistance_iff, not_not]
    refine ⟨0, by decide, x, by rw [hx]; rfl, x + 1, ?_, by simp⟩
    rw [numbersOf, hexToBytes_toHex]
    rfl

end DSearch
