import DSearch.Foundations.Framing
import DSearch.Trust.Sign

/-! # Wire frames: `proto/frame.rs`, `proto/msg_type.rs`

A frame is a version byte, a type byte, the length of the payload (u32 BE) and the payload.
`readFrame` is what one `read_frame` makes of the bytes that its two `read_exact` calls have been
given; an I/O error of the stream is not modelled. -/

namespace DSearch
set_option autoImplicit false

def PROTOCOL_VERSION : UInt8 := 1

def MAX_PAYLOAD_SIZE : ℕ := 1_048_576

inductive MsgType where
  | handshake | handshakeAck | ping | pong | findNode | findNodeReply | announce | announceAck
  | searchQuery | searchReply | recordFetch | recordReply | replicatePush | replicateAck
  | peerExchange | goodbye
  deriving DecidableEq, Repr

namespace MsgType

def fromU8 (v : UInt8) : Option MsgType :=
  match v.toNat with
  | 0x01 => some .handshake
  | 0x02 => some .handshakeAck
  | 0x03 => some .ping
  | 0x04 => some .pong
  | 0x05 => some .findNode
  | 0x06 => some .findNodeReply
  | 0x07 => some .announce
  | 0x08 => some .announceAck
  | 0x09 => some .searchQuery
  | 0x0A => some .searchReply
  | 0x0B => some .recordFetch
  | 0x0C => some .recordReply
  | 0x0D => some .replicatePush
  | 0x0E => some .replicateAck
  | 0x0F => some .peerExchange
  | 0xFF => some .goodbye
  | _ => none

def asU8 : MsgType → UInt8
  | .handshake => 0x01
  | .handshakeAck => 0x02
  | .ping => 0x03
  | .pong => 0x04
  | .findNode => 0x05
  | .findNodeReply => 0x06
  | .announce => 0x07
  | .announceAck => 0x08
  | .searchQuery => 0x09
  | .searchReply => 0x0A
  | .recordFetch => 0x0B
  | .recordReply => 0x0C
  | .replicatePush => 0x0D
  | .replicateAck => 0x0E
  | .peerExchange => 0x0F
  | .goodbye => 0xFF

theorem fromU8_asU8 (t : MsgType) : fromU8 t.asU8 = some t := by
  cases t <;> rfl

theorem asU8_of_fromU8 {v : UInt8} {t : MsgType} (h : fromU8 v = some t) : t.asU8 = v := by
  unfold fromU8 at h
  split at h
  case h_17 => cases h
  all_goals
    next hv =>
      obtain rfl := Option.some.inj h
      exact UInt8.toNat_inj.mp hv.symm

end MsgType

structure Frame where
  version : UInt8
  msgType : MsgType
  payload : Bytes
  deriving DecidableEq, Repr

namespace Frame

def new (msgType : MsgType) (payload : Bytes) : Frame := ⟨PROTOCOL_VERSION, msgType, payload⟩

/-- The header and the payload of a frame; the length is taken mod `2 ^ 32`. -/
def encode (f : Frame) : Bytes :=
  f.version :: f.msgType.asU8 :: Sign.lengthPrefix f.payload.length ++ f.payload

end Frame

inductive FrameError where
  | payloadTooLarge (got max : ℕ)
  | unknownMsgType (v : UInt8)
  deriving DecidableEq, Repr

namespace Wire
open Framing

/-- `u32::from_be_bytes`. -/
def fromBeBytes (a b c d : UInt8) : ℕ :=
  a.toNat * 2 ^ 24 + b.toNat * 2 ^ 16 + c.toNat * 2 ^ 8 + d.toNat

/-- `read_frame` on the bytes so far. With `more` it waits, or returns `None` at the end of the
stream. -/
def readFrame : Bytes → Read UInt8 Frame FrameError
  | version :: msgByte :: l₀ :: l₁ :: l₂ :: l₃ :: rest =>
    let length := fromBeBytes l₀ l₁ l₂ l₃
    if length > MAX_PAYLOAD_SIZE then .fail (.payloadTooLarge length MAX_PAYLOAD_SIZE)
    else
      match MsgType.fromU8 msgByte with
      | none => .fail (.unknownMsgType msgByte)
      | some msgType =>
        if rest.length < length then .more
        else .item ⟨version, msgType, rest.take length⟩ (rest.drop length)
  | _ => .more

/-! ## The laws of the codec -/

theorem fromBeBytes_lengthPrefix {n : ℕ} (h : n < 2 ^ 32) :
    fromBeBytes (UInt8.ofNat (n / 2 ^ 24)) (UInt8.ofNat (n / 2 ^ 16)) (UInt8.ofNat (n / 2 ^ 8))
      (UInt8.ofNat n) = n := by
  unfold fromBeBytes
  simp only [UInt8.toNat_ofNat']
  omega

theorem lengthPrefix_fromBeBytes (a b c d : UInt8) :
    Sign.lengthPrefix (fromBeBytes a b c d) = [a, b, c, d] := by
  have ha := a.toNat_lt
  have hb := b.toNat_lt
  have hc := c.toNat_lt
  have hd := d.toNat_lt
  have hbyte : ∀ {n : ℕ} {v : UInt8}, n % 2 ^ 8 = v.toNat → UInt8.ofNat n = v := by
    intro n v hn
    apply UInt8.toNat_inj.mp
    rw [UInt8.toNat_ofNat', hn]
  unfold Sign.lengthPrefix fromBeBytes
  rw [hbyte (v := a) (by omega), hbyte (v := b) (by omega), hbyte (v := c) (by omega),
    hbyte (v := d) (by omega)]

/-- A frame whose payload is within the cap. -/
def Fits (f : Frame) : Prop := f.payload.length ≤ MAX_PAYLOAD_SIZE

theorem readFrame_header {f : Frame} (h : Fits f) (rest : Bytes) :
    readFrame (f.version :: f.msgType.asU8 :: Sign.lengthPrefix f.payload.length ++ rest) =
      if rest.length < f.payload.length then .more
      else .item ⟨f.version, f.msgType, rest.take f.payload.length⟩ (rest.drop f.payload.length) := by
  unfold Fits MAX_PAYLOAD_SIZE at h
  have hlength := fromBeBytes_lengthPrefix (n := f.payload.length) (by omega)
  have hcap : ¬ f.payload.length > MAX_PAYLOAD_SIZE := by
    unfold MAX_PAYLOAD_SIZE
    omega
  unfold Sign.lengthPrefix
  simp only [List.cons_append, List.nil_append, readFrame, hlength, hcap, if_false,
    MsgType.fromU8_asU8]

theorem readFrame_encode {f : Frame} (h : Fits f) (rest : Bytes) :
    readFrame (f.encode ++ rest) = .item f rest := by
  have hheader := readFrame_header h (f.payload ++ rest)
  rw [← List.append_assoc] at hheader
  have hlong : ¬ (f.payload ++ rest).length < f.payload.length := by simp
  rw [if_neg hlong, List.take_left, List.drop_left] at hheader
  exact hheader

/-- A read waits on every proper prefix of a frame. -/
theorem readFrame_short {f : Frame} (h : Fits f) {s t : Bytes} (hsplit : f.encode = s ++ t)
    (ht : t ≠ []) : readFrame s = .more := by
  have hpositive : 0 < t.length := List.length_pos_of_ne_nil ht
  match s, hsplit with
  | [], _ => rfl
  | [_], _ => rfl
  | [_, _], _ => rfl
  | [_, _, _], _ => rfl
  | [_, _, _, _], _ => rfl
  | [_, _, _, _, _], _ => rfl
  | v :: m :: l₀ :: l₁ :: l₂ :: l₃ :: rest, hsplit =>
    simp only [Frame.encode, Sign.lengthPrefix, List.cons_append, List.nil_append,
      List.cons.injEq] at hsplit
    obtain ⟨rfl, rfl, rfl, rfl, rfl, rfl, hpayload⟩ := hsplit
    have hheader := readFrame_header h rest
    have hshort : rest.length < f.payload.length := by
      rw [hpayload, List.length_append]
      omega
    rw [if_pos hshort] at hheader
    exact hheader

theorem eq_encode_append (version : UInt8) {msgByte l₀ l₁ l₂ l₃ : UInt8} {msgType : MsgType}
    {length : ℕ} {tail : Bytes} (hbyte : MsgType.fromU8 msgByte = some msgType)
    (hlong : length ≤ tail.length) (hwritten : Sign.lengthPrefix length = [l₀, l₁, l₂, l₃]) :
    version :: msgByte :: l₀ :: l₁ :: l₂ :: l₃ :: tail =
      Frame.encode ⟨version, msgType, tail.take length⟩ ++ tail.drop length := by
  have htype := MsgType.asU8_of_fromU8 hbyte
  simp only [Frame.encode, List.length_take_of_le hlong, hwritten, htype, List.cons_append,
    List.nil_append, List.take_append_drop]

/-- The three ends of a read of a whole header. -/
theorem readFrame_cases (version msgByte l₀ l₁ l₂ l₃ : UInt8) (tail : Bytes) :
    (∃ e, ∀ t, readFrame (version :: msgByte :: l₀ :: l₁ :: l₂ :: l₃ :: (tail ++ t)) = .fail e) ∨
    readFrame (version :: msgByte :: l₀ :: l₁ :: l₂ :: l₃ :: tail) = .more ∨
    ∃ f rest, readFrame (version :: msgByte :: l₀ :: l₁ :: l₂ :: l₃ :: tail) = .item f rest ∧
      Fits f ∧ version :: msgByte :: l₀ :: l₁ :: l₂ :: l₃ :: tail = f.encode ++ rest := by
  have hwritten := lengthPrefix_fromBeBytes l₀ l₁ l₂ l₃
  simp only [readFrame]
  generalize fromBeBytes l₀ l₁ l₂ l₃ = length at hwritten ⊢
  by_cases hcap : length > MAX_PAYLOAD_SIZE
  · simp only [if_pos hcap]
    exact .inl ⟨_, fun _ => rfl⟩
  simp only [if_neg hcap]
  cases hbyte : MsgType.fromU8 msgByte with
  | none => exact .inl ⟨_, fun _ => rfl⟩
  | some msgType =>
    dsimp only
    by_cases hshort : tail.length < length
    · rw [if_pos hshort]
      exact .inr (.inl rfl)
    · rw [if_neg hshort]
      have htake : (tail.take length).length = length :=
        List.length_take_of_le (Nat.not_lt.mp hshort)
      refine .inr (.inr ⟨_, _, rfl, ?_, ?_⟩)
      · rw [Fits, htake]
        exact Nat.not_lt.mp hcap
      · exact eq_encode_append version hbyte (Nat.not_lt.mp hshort) hwritten

theorem eq_of_readFrame {s rest : Bytes} {f : Frame} (h : readFrame s = .item f rest) :
    Fits f ∧ s = f.encode ++ rest := by
  match s, h with
  | version :: msgByte :: l₀ :: l₁ :: l₂ :: l₃ :: tail, h =>
    obtain ⟨e, hfail⟩ | hmore | ⟨f', rest', hitem, hfits, heq⟩ :=
      readFrame_cases version msgByte l₀ l₁ l₂ l₃ tail
    · have hfail' := hfail []
      rw [List.append_nil, h] at hfail'
      cases hfail'
    · rw [h] at hmore
      cases hmore
    · rw [h] at hitem
      obtain ⟨rfl, rfl⟩ := Read.item.inj hitem
      exact ⟨hfits, heq⟩

/-- A read fails on the header alone, whatever follows it. -/
theorem readFrame_fail_append {s : Bytes} {e : FrameError} (h : readFrame s = .fail e) (t : Bytes) :
    readFrame (s ++ t) = .fail e := by
  match s, h with
  | version :: msgByte :: l₀ :: l₁ :: l₂ :: l₃ :: tail, h =>
    obtain ⟨e', hfail⟩ | hmore | ⟨f', rest', hitem, -, -⟩ :=
      readFrame_cases version msgByte l₀ l₁ l₂ l₃ tail
    · have hfail' := hfail []
      rw [List.append_nil, h] at hfail'
      rw [hfail']
      exact hfail t
    · rw [h] at hmore
      cases hmore
    · rw [h] at hitem
      cases hitem

def frameCodec : Codec UInt8 Frame FrameError where
  Valid := Fits
  encode := Frame.encode
  read := readFrame
  read_encode _ rest h := readFrame_encode h rest
  read_short _ _ _ h hsplit ht := readFrame_short h hsplit ht
  read_fail _ t _ h := readFrame_fail_append h t
  eq_of_read _ _ _ h := eq_of_readFrame h
  encode_ne_nil _ := List.cons_ne_nil _ _

/-- Repeated `read_frame` calls on a finished stream: the frames, and the error that ended them, if
it was not `None`. -/
def readFrames (s : Bytes) : List Frame × Option FrameError := frameCodec.readAll (s.length + 1) s

end Wire

open Wire in
/-- What is written as frames is read back as these frames, and from any shorter stream as the
frames that are in it whole, without an error. -/
theorem readFrames_encode (frames : List Frame)
    (hfits : ∀ f ∈ frames, f.payload.length ≤ MAX_PAYLOAD_SIZE) :
    readFrames (frames.flatMap Frame.encode) = (frames, none) ∧
      ∀ s t, s ++ t = frames.flatMap Frame.encode → t ≠ [] →
        ∃ done left, frames = done ++ left ∧ left ≠ [] ∧ readFrames s = (done, none) := by
  have hnothing : frameCodec.read [] = .more := rfl
  have hwhole := frameCodec.readAll_encodeAll hfits hnothing (Nat.lt_succ_self _)
  rw [List.append_nil] at hwhole
  refine ⟨hwhole, fun s t hsplit ht => ?_⟩
  obtain ⟨done, left, start, rfl, rfl, hstart, hleft⟩ :=
    frameCodec.split_encodeAll rfl hfits hsplit
  refine ⟨done, left, rfl, ?_, ?_⟩
  · rintro rfl
    exact ht (List.append_eq_nil_iff.mp hleft).2
  · exact frameCodec.readAll_encodeAll (fun f hf => hfits f (List.mem_append_left _ hf)) hstart
      (Nat.lt_succ_self _)

theorem readFrames_encode_twoFrames :
    Wire.readFrames ([⟨1, .ping, [7, 8]⟩, ⟨9, .goodbye, []⟩].flatMap Frame.encode) =
        ([⟨1, .ping, [7, 8]⟩, ⟨9, .goodbye, []⟩], none) ∧
      ∀ s t, s ++ t = [⟨1, .ping, [7, 8]⟩, ⟨9, .goodbye, []⟩].flatMap Frame.encode → t ≠ [] →
        ∃ done left, [⟨1, .ping, [7, 8]⟩, ⟨9, .goodbye, []⟩] = done ++ left ∧ left ≠ [] ∧
          Wire.readFrames s = (done, none) :=
  readFrames_encode _ (by decide)

end DSearch
