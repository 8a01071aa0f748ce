import DSearch.Foundations.Datagrams
import DSearch.Foundations.RustText

/-! # DNS answers: `bootstrap/resolver.rs`

Every `turns` is a number of turns that a loop may take; `parseDnsSrvResponse_settles` says that as many
as the packet has bytes, and 23 more, are enough. A name is followed over at most 21 pointers, and after
the first one each label counts like a pointer, so the measure of `read_dns_name` is the rest of the
packet before the first jump and what is left of that count. -/

namespace DSearch
set_option autoImplicit false
open RustText Datagrams

structure BootstrapPeer where
  id : String
  addr : String
  note : String
  deriving DecidableEq, Repr

namespace Resolver

/-! ## Names -/

def skipBody (data : List UInt8) (offset : ℕ) : Run (Turn ℕ ℕ) :=
  if offset ≥ data.length then .error (.err "name extends past packet")
  else do
    let len ← byteAt data offset
    if len = 0 then return .done (offset + 1)
    else if len &&& 0xC0 = 0xC0 then return .done (offset + 2)
    else return .again (offset + 1 + len.toNat)

def skipDnsName (turns : ℕ) (data : List UInt8) (offset : ℕ) : Run ℕ :=
  loop (skipBody data) turns offset

structure ReadState where
  name : List Char
  offset : ℕ
  jumped : Bool
  visited : ℕ

/-- A turn at a label of `len` bytes. -/
def readLabel (data : List UInt8) (s : ReadState) (len : ℕ) : Run (Turn ReadState (List Char)) :=
  let name := if s.name ≠ [] then s.name ++ ['.'] else s.name
  let labelEnd := s.offset + 1 + len
  if labelEnd > data.length then return .done name
  else do
    let label ← slice data (s.offset + 1) labelEnd
    let name := name ++ fromUtf8Lossy label
    if s.jumped then
      if s.visited + 1 > 20 then return .done name
      else return .again { s with name := name, offset := labelEnd, visited := s.visited + 1 }
    else return .again { s with name := name, offset := labelEnd }

/-- A turn at a compression pointer whose high byte is `len`. -/
def readPointer (data : List UInt8) (s : ReadState) (len : UInt8) : Run (Turn ReadState (List Char)) :=
  if s.offset + 1 ≥ data.length then return .done s.name
  else do
    let low ← byteAt data (s.offset + 1)
    let ptr := (len &&& 0x3F).toNat <<< 8 ||| low.toNat
    if ptr ≥ data.length ∨ s.visited > 20 then return .done s.name
    else return .again { s with offset := ptr, jumped := true, visited := s.visited + 1 }

def readBody (data : List UInt8) (s : ReadState) : Run (Turn ReadState (List Char)) :=
  if s.offset ≥ data.length then return .done s.name
  else do
    let len ← byteAt data s.offset
    if len = 0 then return .done s.name
    else if len &&& 0xC0 = 0xC0 then readPointer data s len
    else readLabel data s len.toNat

def readDnsName (turns : ℕ) (data : List UInt8) (offset : ℕ) : Run (List Char) :=
  loop (readBody data) turns ⟨[], offset, false, 0⟩

/-! ## The packet -/

def skipQuestions (turns : ℕ) (data : List UInt8) : ℕ → ℕ → Run ℕ
  | 0, offset => return offset
  | count + 1, offset => do
    let offset ← skipDnsName turns data offset
    skipQuestions turns data count (offset + 4)

def srvPeer (target : List Char) (port : ℕ) : BootstrapPeer :=
  let addr := String.ofList target ++ ":" ++ toString port
  { id := "srv:" ++ addr, addr := addr, note := "DNS SRV" }

/-- The peer of the record data at `offset`; none if its target cannot be read. -/
def readSrv (turns : ℕ) (data : List UInt8) (offset : ℕ) : Run (Option BootstrapPeer) := do
  let port ← u16At data (offset + 4)
  match readDnsName turns data (offset + 6) with
  | .ok target => return some (srvPeer target port)
  | .error (.err _) => return none
  | .error stop => .error stop

def readAnswers (turns : ℕ) (data : List UInt8) : ℕ → ℕ → List BootstrapPeer → Run (List BootstrapPeer)
  | 0, _, peers => return peers
  | count + 1, offset, peers => do
    let offset ← skipDnsName turns data offset
    if offset + 10 > data.length then return peers
    else
      let rtype ← u16At data offset
      let rdlength ← u16At data (offset + 8)
      let offset := offset + 10
      if offset + rdlength > data.length then return peers
      else if rtype = 33 ∧ rdlength ≥ 6 then
        let peer ← readSrv turns data offset
        readAnswers turns data count (offset + rdlength) (peers ++ peer.toList)
      else readAnswers turns data count (offset + rdlength) peers

def parseDnsSrvResponse (turns : ℕ) (data : List UInt8) : Run (List BootstrapPeer) :=
  if data.length < 12 then .error (.err "response too short")
  else do
    let qdcount ← u16At data 4
    let ancount ← u16At data 6
    let offset ← skipQuestions turns data qdcount 12
    readAnswers turns data ancount offset []

/-! ## The loops end -/

theorem skipBody_shrinks (data : List UInt8) :
    Shrinks (skipBody data) fun offset => data.length - offset := by
  intro offset
  unfold skipBody
  split
  · exact Goes.err _
  · refine Goes.bind (returns_byteAt (by omega)) fun len => ?_
    split
    · exact Goes.done _
    · split
      · exact Goes.done _
      · exact Goes.again (by omega)

/-- What is left: the rest of the packet before the first jump, and the count of visits. -/
def readMeasure (data : List UInt8) (s : ReadState) : ℕ :=
  (if s.jumped then 0 else data.length - s.offset) + (22 - s.visited)

theorem readLabel_goes {data : List UInt8} {s : ReadState} (hin : s.offset < data.length) (len : ℕ) :
    Goes (readMeasure data) s (readLabel data s len) := by
  unfold readLabel
  dsimp only
  split
  · exact Goes.done _
  · refine Goes.bind (returns_slice (by omega) (by omega)) fun label => ?_
    split
    · split
      · exact Goes.done _
      · next hjumped hvisited =>
        refine Goes.again ?_
        simp only [readMeasure, hjumped]
        simp only [if_true]
        omega
    · next hjumped =>
      refine Goes.again ?_
      simp only [readMeasure, hjumped]
      simp only [Bool.false_eq_true, if_false]
      omega

theorem readPointer_goes (data : List UInt8) (s : ReadState) (len : UInt8) :
    Goes (readMeasure data) s (readPointer data s len) := by
  unfold readPointer
  split
  · exact Goes.done _
  · refine Goes.bind (returns_byteAt (by omega)) fun low => ?_
    dsimp only
    split
    · exact Goes.done _
    · next hvisited =>
      rw [not_or, Nat.not_lt] at hvisited
      refine Goes.again ?_
      simp only [readMeasure, if_true]
      cases s.jumped with
      | true => simp only [if_true]; omega
      | false => simp only [Bool.false_eq_true, if_false]; omega

theorem readBody_shrinks (data : List UInt8) : Shrinks (readBody data) (readMeasure data) := by
  intro s
  unfold readBody
  split
  · exact Goes.done _
  · next hin =>
    have hin : s.offset < data.length := by omega
    refine Goes.bind (returns_byteAt hin) fun len => ?_
    split
    · exact Goes.done _
    · split
      · exact readPointer_goes data s len
      · exact readLabel_goes hin len.toNat

/-! ## Hostile packets -/

variable {data : List UInt8} {bound : ℕ}

theorem skipDnsName_settles (hbound : data.length < bound) (offset : ℕ) :
    Settles bound fun turns => skipDnsName turns data offset :=
  Settles.of_shrinks (skipBody_shrinks data) (by omega)

theorem readDnsName_settles (hbound : data.length + 23 ≤ bound) (offset : ℕ) :
    Settles bound fun turns => readDnsName turns data offset := by
  refine Settles.of_shrinks (readBody_shrinks data) ?_
  simp only [readMeasure, Bool.false_eq_true, if_false]
  omega

theorem skipQuestions_settles (hbound : data.length < bound) (count offset : ℕ) :
    Settles bound fun turns => skipQuestions turns data count offset := by
  induction count generalizing offset with
  | zero => exact Settles.of_returns (Returns.ok offset)
  | succ count ih => exact (skipDnsName_settles hbound offset).bind fun offset => ih (offset + 4)

theorem readSrv_settles (hbound : data.length + 23 ≤ bound) {offset : ℕ}
    (hin : offset + 5 < data.length) : Settles bound fun turns => readSrv turns data offset := by
  refine Settles.bind (Settles.of_returns (returns_u16At hin)) fun port => ?_
  obtain ⟨answer, hread⟩ := readDnsName_settles hbound (offset + 6)
  cases answer with
  | ok target =>
    refine ⟨.ok (some (srvPeer target port)), fun turns hturns => ?_⟩
    have hname : readDnsName turns data (offset + 6) = .ok target := hread turns hturns
    simp only [hname]
    rfl
  | error text =>
    refine ⟨.ok none, fun turns hturns => ?_⟩
    have hname : readDnsName turns data (offset + 6) = .error (.err text) := hread turns hturns
    simp only [hname]
    rfl

theorem readAnswers_settles (hbound : data.length + 23 ≤ bound) (count offset : ℕ)
    (peers : List BootstrapPeer) :
    Settles bound fun turns => readAnswers turns data count offset peers := by
  induction count generalizing offset peers with
  | zero => exact Settles.of_returns (Returns.ok peers)
  | succ count ih =>
    refine (skipDnsName_settles (by omega) offset).bind fun offset => ?_
    by_cases hhead : offset + 10 > data.length
    · simp only [if_pos hhead]
      exact Settles.of_returns (Returns.ok peers)
    · simp only [if_neg hhead]
      refine (Settles.of_returns (returns_u16At (by omega))).bind fun rtype => ?_
      refine (Settles.of_returns (returns_u16At (by omega))).bind fun rdlength => ?_
      by_cases hdata : offset + 10 + rdlength > data.length
      · simp only [if_pos hdata]
        exact Settles.of_returns (Returns.ok peers)
      · simp only [if_neg hdata]
        by_cases hsrv : rtype = 33 ∧ rdlength ≥ 6
        · simp only [if_pos hsrv]
          exact (readSrv_settles hbound (by omega)).bind fun peer => ih _ _
        · simp only [if_neg hsrv]
          exact ih _ _

theorem parseDnsSrvResponse_settles (hbound : data.length + 23 ≤ bound) :
    Settles bound fun turns => parseDnsSrvResponse turns data := by
  unfold parseDnsSrvResponse
  by_cases hshort : data.length < 12
  · simp only [if_pos hshort]
    exact Settles.of_returns (Returns.err _)
  · simp only [if_neg hshort]
    refine (Settles.of_returns (returns_u16At (by omega))).bind fun qdcount => ?_
    refine (Settles.of_returns (returns_u16At (by omega))).bind fun ancount => ?_
    exact (skipQuestions_settles (by omega) qdcount 12).bind fun offset =>
      readAnswers_settles hbound ancount offset []

end Resolver

end DSearch
