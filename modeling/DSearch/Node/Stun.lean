import DSearch.Bootstrap.Resolver
import DSearch.Trust.Sign

/-! # STUN: `node/stun.rs`

The answer to a binding request is a header of 20 bytes and a list of attributes, each padded to four
bytes. In a mapped address the first byte is reserved and zero, and the second one is the family. -/

namespace DSearch.Stun
set_option autoImplicit false
open Datagrams

/-! ## How addresses are written -/

def hexLower (n : ℕ) : String := String.ofList (Nat.toDigits 16 n)

/-- `{:04x}`. -/
def hex4 (n : ℕ) : String := String.ofList ((Nat.toDigits 16 n).leftpad 4 '0')

def ipv4Text (octets : List UInt8) : String :=
  String.intercalate "." (octets.map fun octet => toString octet.toNat)

structure Span where
  start : ℕ
  len : ℕ

/-- The longest run of zero segments, the first one if there are more. -/
def zeroSpan (segments : List ℕ) : Span :=
  let last := segments.zipIdx.foldl (fun spans row =>
    if row.1 = 0 then
      let current : Span := ⟨if spans.2.len = 0 then row.2 else spans.2.start, spans.2.len + 1⟩
      (if current.len > spans.1.len then current else spans.1, current)
    else (spans.1, ⟨0, 0⟩)) ((⟨0, 0⟩, ⟨0, 0⟩) : Span × Span)
  last.1

def segmentsOf : List UInt8 → List ℕ
  | high :: low :: octets => (256 * high.toNat + low.toNat) :: segmentsOf octets
  | _ => []

/-- `Ipv6Addr`'s `Display`. -/
def ipv6Text (octets : List UInt8) : String :=
  if octets.take 12 = List.replicate 10 0 ++ [0xFF, 0xFF] then "::ffff:" ++ ipv4Text (octets.drop 12)
  else
    let segments := segmentsOf octets
    let zeroes := zeroSpan segments
    let part (chunk : List ℕ) := String.intercalate ":" (chunk.map hexLower)
    if zeroes.len > 1 then
      part (segments.take zeroes.start) ++ "::" ++ part (segments.drop (zeroes.start + zeroes.len))
    else part segments

example : ipv6Text [0x20, 1, 0x0D, 0xB8, 0, 0, 0, 0, 0, 1, 0, 0, 0, 0, 0, 1] = "2001:db8::1:0:0:1" := by
  decide +kernel

/-! ## The parser -/

def noAddress : Stop :=
  .err "no MAPPED-ADDRESS or XOR-MAPPED-ADDRESS found in STUN response"

def cookie : List UInt8 := [0x21, 0x12, 0xA4, 0x42]

variable (txnId : Vector UInt8 12) (response : List UInt8)

/-- An XOR-MAPPED-ADDRESS whose value begins at `start`. -/
def xorMappedAddress (start len : ℕ) : Run String :=
  if len < 4 then .error (.err "XOR-MAPPED-ADDRESS too short")
  else do
    let family := (← byteAt response start) ^^^ 0x21
    let xport := (← u16At response (start + 2)) ^^^ 0x2112
    if family = 0x01 then
      if len < 8 then .error (.err "XOR-MAPPED-ADDRESS IPv4 too short")
      else
        let xip ← slice response (start + 4) (start + 8)
        return ipv4Text (List.zipWith (· ^^^ ·) xip cookie) ++ ":" ++ toString xport
    else if family = 0x02 then
      if len < 20 then .error (.err "XOR-MAPPED-ADDRESS IPv6 too short")
      else
        let xip ← slice response (start + 4) (start + 20)
        let ip := List.zipWith (· ^^^ ·) xip (cookie ++ txnId.toList)
        return "[" ++ ipv6Text ip ++ "]:" ++ toString xport
    else .error (.err ("unknown address family: " ++ toString family.toNat))

/-- A MAPPED-ADDRESS; none if its family is passed over. -/
def mappedAddress (start len : ℕ) : Run (Option String) :=
  if len < 4 then .error (.err "MAPPED-ADDRESS too short")
  else do
    let family ← byteAt response start
    let port ← u16At response (start + 2)
    if family = 0x01 then
      if len < 8 then .error (.err "MAPPED-ADDRESS IPv4 too short")
      else
        let ip ← slice response (start + 4) (start + 8)
        return some (ipv4Text ip ++ ":" ++ toString port)
    else return none

/-- `(len + 3) & !3`. -/
def paddedLen (len : ℕ) : ℕ := (len + 3) / 4 * 4

def attrBody (attrEnd offset : ℕ) : Run (Turn ℕ String) :=
  if offset + 4 ≤ attrEnd then do
    let attrType ← u16At response offset
    let attrLen ← u16At response (offset + 2)
    let start := offset + 4
    if start + attrLen > attrEnd then .error noAddress
    else if attrType = 0x0020 then
      let text ← xorMappedAddress txnId response start attrLen
      return .done text
    else if attrType = 0x0001 then
      match ← mappedAddress response start attrLen with
      | some text => return .done text
      | none => return .again (start + paddedLen attrLen)
    else return .again (start + paddedLen attrLen)
  else .error noAddress

/-- `stun_bind` after `recv_from`, which has put `n` bytes into the buffer. -/
def parseBindingResponse (turns n : ℕ) : Run String :=
  if n < 20 then .error (.err "STUN response too short")
  else do
    let msgType ← u16At response 0
    if msgType ≠ 0x0101 then .error (.err ("unexpected STUN message type: 0x" ++ hex4 msgType))
    else
      let id ← slice response 8 20
      if id ≠ txnId.toList then .error (.err "transaction ID mismatch")
      else
        let msgLen ← u16At response 2
        let attrEnd := 20 + msgLen
        if attrEnd > n then .error (.err "STUN response truncated")
        else loop (attrBody txnId response attrEnd) turns 20

/-! ## Hostile datagrams -/

variable {txnId response}

theorem xorMappedAddress_returns {start len : ℕ} (h : start + len ≤ response.length) :
    Returns (xorMappedAddress txnId response start len) := by
  unfold xorMappedAddress
  split
  · exact Returns.err _
  · refine (returns_byteAt (by omega)).bind fun family => ?_
    refine (returns_u16At (by omega)).bind fun port => ?_
    dsimp only
    split
    · split
      · exact Returns.err _
      · exact (returns_slice (by omega) (by omega)).bind fun xip => Returns.ok _
    · split
      · split
        · exact Returns.err _
        · exact (returns_slice (by omega) (by omega)).bind fun xip => Returns.ok _
      · exact Returns.err _

theorem mappedAddress_returns {start len : ℕ} (h : start + len ≤ response.length) :
    Returns (mappedAddress response start len) := by
  unfold mappedAddress
  split
  · exact Returns.err _
  · refine (returns_byteAt (by omega)).bind fun family => ?_
    refine (returns_u16At (by omega)).bind fun port => ?_
    split
    · split
      · exact Returns.err _
      · exact (returns_slice (by omega) (by omega)).bind fun ip => Returns.ok _
    · exact Returns.ok _

theorem attrBody_shrinks {attrEnd : ℕ} (hend : attrEnd ≤ response.length) :
    Shrinks (attrBody txnId response attrEnd) fun offset => attrEnd - offset := by
  intro offset
  unfold attrBody
  split
  · refine Goes.bind (returns_u16At (by omega)) fun attrType => ?_
    refine Goes.bind (returns_u16At (by omega)) fun attrLen => ?_
    dsimp only
    split
    · exact Goes.err _
    · split
      · exact Goes.bind (xorMappedAddress_returns (by omega)) fun text => Goes.done _
      · split
        · refine Goes.bind (mappedAddress_returns (by omega)) fun found => ?_
          cases found with
          | some text => exact Goes.done _
          | none => exact Goes.again (by omega)
        · exact Goes.again (by omega)
  · exact Goes.err _

theorem parseBindingResponse_settles {n : ℕ} (hn : n ≤ response.length) :
    Settles (n + 1) fun turns => parseBindingResponse txnId response turns n := by
  unfold parseBindingResponse
  by_cases hshort : n < 20
  · simp only [if_pos hshort]
    exact Settles.of_returns (Returns.err _)
  · simp only [if_neg hshort]
    refine (Settles.of_returns (returns_u16At (by omega))).bind fun msgType => ?_
    by_cases htype : msgType ≠ 0x0101
    · simp only [if_pos htype]
      exact Settles.of_returns (Returns.err _)
    · simp only [if_neg htype]
      refine (Settles.of_returns (returns_slice (by omega) (by omega))).bind fun id => ?_
      by_cases hid : id ≠ txnId.toList
      · simp only [if_pos hid]
        exact Settles.of_returns (Returns.err _)
      · simp only [if_neg hid]
        refine (Settles.of_returns (returns_u16At (by omega))).bind fun msgLen => ?_
        by_cases hend : 20 + msgLen > n
        · simp only [if_pos hend]
          exact Settles.of_returns (Returns.err _)
        · simp only [if_neg hend]
          exact Settles.of_shrinks (attrBody_shrinks (by omega)) (by omega)

/-- The buffer of the STUN client may hold anything after the datagram. -/
theorem datagrams_settle (txnId : Vector UInt8 12) (datagram spare : List UInt8) :
    Settles (datagram.length + 23) (fun turns => Resolver.parseDnsSrvResponse turns datagram) ∧
      (∀ offset, Settles (datagram.length + 23) fun turns =>
        Resolver.skipDnsName turns datagram offset) ∧
      (∀ offset, Settles (datagram.length + 23) fun turns =>
        Resolver.readDnsName turns datagram offset) ∧
      Settles (datagram.length + 1) fun turns =>
        parseBindingResponse txnId (datagram ++ spare) turns datagram.length :=
  ⟨Resolver.parseDnsSrvResponse_settles (le_refl _),
    Resolver.skipDnsName_settles (by omega),
    Resolver.readDnsName_settles (le_refl _),
    parseBindingResponse_settles (by rw [List.length_append]; omega)⟩

end DSearch.Stun
