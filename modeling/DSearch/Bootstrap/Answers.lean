import DSearch.Bootstrap.Resolver
import DSearch.Foundations.LossyText

/-! # What DNS answers say

A response is written with names that stand in full or end in one compression pointer. The pointer and
each label after it add one to the count of visits, so a target of 18 labels ends before the 21 visits
at which `read_dns_name` gives up. -/

namespace DSearch.Resolver
set_option autoImplicit false
open RustText Datagrams

/-! ## Names as they are written -/

structure Label where
  bytes : List UInt8
  nonempty : bytes ≠ []
  short : bytes.length ≤ 63
  ascii : ∀ b ∈ bytes, b.toNat < 0x80

namespace Label

def encode (label : Label) : List UInt8 := UInt8.ofNat label.bytes.length :: label.bytes

def chars (label : Label) : List Char := label.bytes.map fun b => Char.ofNat b.toNat

end Label

/-- The labels with dots between them. -/
def dotted (labels : List Label) : List Char := ['.'].intercalate (labels.map Label.chars)

def encodeLabels (labels : List Label) : List UInt8 := labels.flatMap Label.encode

/-- A name in full that a pointer names by its offset. -/
structure Target where
  offset : Fin (2 ^ 14)
  labels : List Label
  short : labels.length ≤ 18

def Target.pointer (target : Target) : List UInt8 :=
  [UInt8.ofNat (0xC0 + target.offset / 256), UInt8.ofNat target.offset]

/-- Labels, and the name that they go on with. -/
structure Name where
  labels : List Label
  target : Option Target

namespace Name

def ending (name : Name) : List UInt8 :=
  match name.target with
  | none => [0]
  | some target => target.pointer

def encode (name : Name) : List UInt8 := encodeLabels name.labels ++ name.ending

def allLabels (name : Name) : List Label :=
  name.labels ++ (name.target.map Target.labels).getD []

/-- The name that it points to is written in the packet. -/
def Points (data : List UInt8) (name : Name) : Prop :=
  ∀ target ∈ name.target, Holds data target.offset (encodeLabels target.labels ++ [0])

end Name

/-! ## Bytes of names -/

theorem fromUtf8Lossy_chars (label : Label) : fromUtf8Lossy label.bytes = label.chars := by
  have hall : ∀ bytes : List UInt8, (∀ b ∈ bytes, b.toNat < 0x80) →
      fromUtf8Lossy bytes = bytes.map fun b => Char.ofNat b.toNat := by
    intro bytes hascii
    induction bytes with
    | nil => rfl
    | cons b bytes ih =>
      rw [fromUtf8Lossy_cons_ascii _ (hascii b List.mem_cons_self),
        ih fun c hc => hascii c (List.mem_cons_of_mem b hc)]
      rfl
  exact hall label.bytes label.ascii

theorem lengthByte {n : ℕ} (hpos : n ≠ 0) (hshort : n ≤ 63) :
    UInt8.ofNat n ≠ 0 ∧ ¬ UInt8.ofNat n &&& 0xC0 = 0xC0 ∧ (UInt8.ofNat n).toNat = n := by
  have hall : ∀ n < 64, n ≠ 0 →
      UInt8.ofNat n ≠ 0 ∧ ¬ UInt8.ofNat n &&& 0xC0 = 0xC0 ∧ (UInt8.ofNat n).toNat = n := by decide
  exact hall n (by omega) hpos

theorem Label.lengthByte (label : Label) :
    UInt8.ofNat label.bytes.length ≠ 0 ∧ ¬ UInt8.ofNat label.bytes.length &&& 0xC0 = 0xC0 ∧
      (UInt8.ofNat label.bytes.length).toNat = label.bytes.length :=
  Resolver.lengthByte (fun h => label.nonempty (List.length_eq_zero_iff.mp h)) label.short

theorem pointerByte {q : ℕ} (h : q < 64) :
    UInt8.ofNat (0xC0 + q) ≠ 0 ∧ UInt8.ofNat (0xC0 + q) &&& 0xC0 = 0xC0 ∧
      (UInt8.ofNat (0xC0 + q) &&& 0x3F).toNat = q := by
  have hall : ∀ q < 64, UInt8.ofNat (0xC0 + q) ≠ 0 ∧ UInt8.ofNat (0xC0 + q) &&& 0xC0 = 0xC0 ∧
      (UInt8.ofNat (0xC0 + q) &&& 0x3F).toNat = q := by decide
  exact hall q h

theorem Target.pointerByte (target : Target) :
    UInt8.ofNat (0xC0 + target.offset / 256) ≠ 0 ∧
      UInt8.ofNat (0xC0 + target.offset / 256) &&& 0xC0 = 0xC0 ∧
      (UInt8.ofNat (0xC0 + target.offset / 256) &&& 0x3F).toNat = target.offset / 256 :=
  Resolver.pointerByte (by omega)

theorem Target.pointer_eq (target : Target) :
    (UInt8.ofNat (0xC0 + target.offset / 256) &&& 0x3F).toNat <<< 8 |||
      (UInt8.ofNat target.offset).toNat = target.offset := by
  have hlow : (UInt8.ofNat target.offset).toNat < 2 ^ 8 := UInt8.toNat_lt _
  rw [target.pointerByte.2.2, ← Nat.shiftLeft_add_eq_or_of_lt hlow, Nat.shiftLeft_eq,
    UInt8.toNat_ofNat']
  omega

/-! ## Skipping a name -/

variable {data : List UInt8}

theorem skipBody_label {offset : ℕ} {label : Label} (h : Holds data offset label.encode) :
    skipBody data offset = .ok (.again (offset + label.encode.length)) := by
  obtain ⟨hzero, hplain, hlength⟩ := label.lengthByte
  have hin := h.length_le
  rw [Label.encode, List.length_cons] at hin
  unfold skipBody
  rw [if_neg (by omega), h.byteAt]
  show (if _ = (0 : UInt8) then _ else if _ &&& (0xC0 : UInt8) = 0xC0 then _ else _) = _
  rw [if_neg hzero, if_neg hplain, hlength, Label.encode, List.length_cons, Nat.add_assoc,
    Nat.add_comm 1]
  rfl

theorem skipBody_ending {offset : ℕ} {name : Name} (h : Holds data offset name.ending) :
    skipBody data offset = .ok (.done (offset + name.ending.length)) := by
  have hin := h.length_le
  unfold skipBody
  unfold Name.ending at h hin ⊢
  cases htarget : name.target with
  | none =>
    rw [htarget] at h hin
    rw [if_neg (Nat.not_le.mpr hin), h.byteAt]
    rfl
  | some target =>
    rw [htarget] at h hin
    obtain ⟨hzero, hhigh, -⟩ := target.pointerByte
    simp only [Target.pointer, List.length_cons, List.length_nil] at hin
    rw [if_neg (by omega), h.byteAt]
    show (if _ = (0 : UInt8) then _ else if _ &&& (0xC0 : UInt8) = 0xC0 then _ else _) = _
    rw [if_neg hzero, if_pos hhigh]
    rfl

theorem skip_comes {name : Name} {offset : ℕ} (h : Holds data offset name.encode) :
    Comes (skipBody data) (fun offset => data.length - offset) offset
      (.ok (offset + name.encode.length)) := by
  obtain ⟨labels, target⟩ := name
  induction labels generalizing offset with
  | nil => exact Comes.done (skipBody_ending h)
  | cons label labels ih =>
    have hwhole : (Name.mk (label :: labels) target).encode =
        label.encode ++ (Name.mk labels target).encode := by
      simp only [Name.encode, encodeLabels, List.flatMap_cons, List.append_assoc]
      rfl
    rw [hwhole] at h ⊢
    refine Comes.again (skipBody_shrinks data) (skipBody_label h.front) ?_
    rw [List.length_append, ← Nat.add_assoc]
    exact ih h.back

/-! ## Reading a name -/

/-- The name with one more label. -/
def extend (name : List Char) (label : Label) : List Char :=
  (if name ≠ [] then name ++ ['.'] else name) ++ label.chars

theorem chars_ne_nil (label : Label) : label.chars ≠ [] := by
  rw [Label.chars, Ne, List.map_eq_nil_iff]
  exact label.nonempty

theorem foldl_extend {name : List Char} (hne : name ≠ []) (labels : List Label) :
    labels.foldl extend name = name ++ labels.flatMap fun label => '.' :: label.chars := by
  induction labels generalizing name with
  | nil => simp
  | cons label labels ih =>
    have hextend : extend name label = name ++ '.' :: label.chars := by simp [extend, hne]
    rw [List.foldl_cons, hextend, ih (by simp), List.flatMap_cons, List.append_assoc]

theorem dotted_cons (label : Label) (labels : List Label) :
    dotted (label :: labels) = label.chars ++ labels.flatMap fun label => '.' :: label.chars := by
  induction labels generalizing label with
  | nil => simp [dotted]
  | cons next labels ih =>
    have hstep : dotted (label :: next :: labels) =
        label.chars ++ '.' :: dotted (next :: labels) := by
      simp only [dotted, List.map_cons, List.intercalate_cons_cons, List.append_assoc,
        List.singleton_append]
    rw [hstep, ih, List.flatMap_cons]
    rfl

theorem foldl_extend_nil (labels : List Label) : labels.foldl extend [] = dotted labels := by
  cases labels with
  | nil => rfl
  | cons label labels =>
    have hextend : extend [] label = label.chars := by simp [extend]
    rw [List.foldl_cons, hextend, foldl_extend (chars_ne_nil label), dotted_cons]

/-- The name grown by one label, at the offset after it; a visit is counted after a jump. -/
def ReadState.past (s : ReadState) (label : Label) : ReadState :=
  { s with
    name := extend s.name label
    offset := s.offset + label.encode.length
    visited := if s.jumped then s.visited + 1 else s.visited }

theorem readBody_label {s : ReadState} {label : Label} (h : Holds data s.offset label.encode)
    (hvisited : s.jumped = true → s.visited + 1 ≤ 20) :
    readBody data s = .ok (.again (s.past label)) := by
  obtain ⟨hzero, hplain, hlength⟩ := label.lengthByte
  have hin := h.length_le
  have hbytes : Holds data (s.offset + 1) label.bytes := by
    have hsplit : Holds data s.offset ([UInt8.ofNat label.bytes.length] ++ label.bytes) := h
    exact hsplit.back
  have hend : s.offset + label.encode.length = s.offset + 1 + label.bytes.length := by
    rw [Label.encode, List.length_cons]
    omega
  unfold readBody
  rw [if_neg (by omega), h.byteAt]
  show (if _ = (0 : UInt8) then _ else if _ &&& (0xC0 : UInt8) = 0xC0 then _ else _) = _
  rw [if_neg hzero, if_neg hplain, hlength]
  unfold readLabel
  dsimp only
  rw [if_neg (by omega), hbytes.slice]
  show (if s.jumped = true then if s.visited + 1 > 20 then _ else _ else _ : Run _) = _
  rw [fromUtf8Lossy_chars, ReadState.past, hend]
  cases hjumped : s.jumped with
  | true =>
    have hleft := hvisited hjumped
    rw [if_pos rfl, if_neg (by omega)]
    rfl
  | false => rfl

theorem foldl_past_name (labels : List Label) (s : ReadState) :
    (labels.foldl ReadState.past s).name = labels.foldl extend s.name := by
  induction labels generalizing s with
  | nil => rfl
  | cons label labels ih => exact ih (s.past label)

theorem foldl_past_offset (labels : List Label) (s : ReadState) :
    (labels.foldl ReadState.past s).offset = s.offset + (encodeLabels labels).length := by
  induction labels generalizing s with
  | nil => rfl
  | cons label labels ih =>
    have hsplit : encodeLabels (label :: labels) = label.encode ++ encodeLabels labels :=
      List.flatMap_cons
    rw [List.foldl_cons, ih, hsplit, List.length_append, ← Nat.add_assoc]
    rfl

theorem foldl_past_visited (labels : List Label) {s : ReadState} (hjumped : s.jumped = false) :
    (labels.foldl ReadState.past s).visited = s.visited := by
  induction labels generalizing s with
  | nil => rfl
  | cons label labels ih =>
    have hsame : (s.past label).visited = s.visited := by simp [ReadState.past, hjumped]
    exact (ih (s := s.past label) hjumped).trans hsame

/-- Labels one after another, with visits to spare for them after a jump. -/
theorem labels_come {labels : List Label} {s : ReadState} {r : Run (List Char)}
    (h : Holds data s.offset (encodeLabels labels))
    (hvisited : s.jumped = true → s.visited + labels.length ≤ 20)
    (hnext : Comes (readBody data) (readMeasure data) (labels.foldl ReadState.past s) r) :
    Comes (readBody data) (readMeasure data) s r := by
  induction labels generalizing s with
  | nil => exact hnext
  | cons label labels ih =>
    rw [encodeLabels, List.flatMap_cons] at h
    refine Comes.again (readBody_shrinks data) (readBody_label h.front fun hjumped => ?_) ?_
    · have hleft := hvisited hjumped
      rw [List.length_cons] at hleft
      omega
    · refine ih h.back (fun hjumped => ?_) hnext
      have hjumped : s.jumped = true := hjumped
      have hleft := hvisited hjumped
      rw [List.length_cons] at hleft
      have hone : (s.past label).visited = s.visited + 1 := by simp [ReadState.past, hjumped]
      omega

theorem readBody_zero {s : ReadState} (h : Holds data s.offset [0]) :
    readBody data s = .ok (.done s.name) := by
  have hin := h.length_le
  unfold readBody
  rw [if_neg (Nat.not_le.mpr hin), h.byteAt]
  rfl

theorem readBody_pointer {s : ReadState} {target : Target} (h : Holds data s.offset target.pointer)
    (hin : target.offset < data.length) (hvisited : s.visited ≤ 20) :
    readBody data s = .ok (.again
      { s with offset := target.offset, jumped := true, visited := s.visited + 1 }) := by
  obtain ⟨hzero, hhigh, -⟩ := target.pointerByte
  have hlow : Holds data (s.offset + 1) [UInt8.ofNat target.offset] := by
    have hsplit : Holds data s.offset
        ([UInt8.ofNat (0xC0 + target.offset / 256)] ++ [UInt8.ofNat target.offset]) := h
    exact hsplit.back
  have hlength := hlow.length_le
  rw [List.length_singleton] at hlength
  unfold readBody
  rw [if_neg (by omega), h.byteAt]
  show (if _ = (0 : UInt8) then _ else if _ &&& (0xC0 : UInt8) = 0xC0 then _ else _) = _
  rw [if_neg hzero, if_pos hhigh]
  unfold readPointer
  rw [if_neg (by omega), hlow.byteAt]
  show (if _ ≥ data.length ∨ s.visited > 20 then _ else _ : Run _) = _
  rw [target.pointer_eq, if_neg (by omega)]
  rfl

theorem full_comes {labels : List Label} {s : ReadState}
    (h : Holds data s.offset (encodeLabels labels ++ [0]))
    (hvisited : s.jumped = true → s.visited + labels.length ≤ 20) :
    Comes (readBody data) (readMeasure data) s (.ok (labels.foldl extend s.name)) := by
  refine labels_come h.front hvisited ?_
  rw [← foldl_past_name]
  refine Comes.done (readBody_zero ?_)
  rw [foldl_past_offset]
  exact h.back

theorem pointed_comes {labels : List Label} {target : Target} {s : ReadState}
    (h : Holds data s.offset (encodeLabels labels ++ target.pointer))
    (hwritten : Holds data target.offset (encodeLabels target.labels ++ [0]))
    (hjumped : s.jumped = false) (hfirst : s.visited = 0) :
    Comes (readBody data) (readMeasure data) s
      (.ok ((labels ++ target.labels).foldl extend s.name)) := by
  refine labels_come h.front (fun hafter => absurd hafter (by simp [hjumped])) ?_
  rw [List.foldl_append, ← foldl_past_name]
  have hoffset := foldl_past_offset labels s
  have hvisited := foldl_past_visited labels hjumped
  generalize labels.foldl ReadState.past s = before at hoffset hvisited ⊢
  have hin := hwritten.length_le
  rw [List.length_append, List.length_singleton] at hin
  have hpointer : Holds data before.offset target.pointer := hoffset ▸ h.back
  have hshort := target.short
  exact Comes.again (readBody_shrinks data) (readBody_pointer hpointer (by omega) (by omega))
    (full_comes hwritten fun _ => by dsimp only; omega)

theorem read_comes {name : Name} {offset : ℕ} (h : Holds data offset name.encode)
    (hpoints : name.Points data) :
    Comes (readBody data) (readMeasure data) ⟨[], offset, false, 0⟩ (.ok (dotted name.allLabels)) := by
  obtain ⟨labels, target⟩ := name
  rw [← foldl_extend_nil]
  cases target with
  | none =>
    rw [Name.allLabels, Option.map_none, Option.getD_none, List.append_nil]
    exact full_comes h (fun hjumped => absurd hjumped Bool.false_ne_true)
  | some target => exact pointed_comes h (hpoints target rfl) rfl rfl

/-! ## The packet as it is written -/

structure Question where
  name : Name
  qtype : UInt16
  qclass : UInt16

def Question.encode (question : Question) : List UInt8 :=
  question.name.encode ++ be16 question.qtype.toNat ++ be16 question.qclass.toNat

inductive RecordData
  | srv (priority weight port : UInt16) (target : Name)
  | other (rtype : UInt16) (bytes : List UInt8) (hother : rtype ≠ 33)

namespace RecordData

def rtype : RecordData → UInt16
  | srv _ _ _ _ => 33
  | other rtype _ _ => rtype

def encode : RecordData → List UInt8
  | srv priority weight port target =>
    be16 priority.toNat ++ be16 weight.toNat ++ be16 port.toNat ++ target.encode
  | other _ bytes _ => bytes

/-- The peer that an answer stands for. -/
def peer : RecordData → Option BootstrapPeer
  | srv _ _ port target => some (srvPeer (dotted target.allLabels) port.toNat)
  | other _ _ _ => none

def Points (data : List UInt8) : RecordData → Prop
  | srv _ _ _ target => target.Points data
  | other _ _ _ => True

end RecordData

structure Answer where
  owner : Name
  rclass : UInt16
  ttl : UInt32
  rdata : RecordData
  short : rdata.encode.length < 2 ^ 16

namespace Answer

def head (answer : Answer) : List UInt8 :=
  be16 answer.rdata.rtype.toNat ++
    (be16 answer.rclass.toNat ++ be16 (answer.ttl.toNat / 2 ^ 16) ++ be16 answer.ttl.toNat) ++
    be16 answer.rdata.encode.length

def encode (answer : Answer) : List UInt8 :=
  answer.owner.encode ++ answer.head ++ answer.rdata.encode

def peer (answer : Answer) : Option BootstrapPeer := answer.rdata.peer

end Answer

/-- A response; `more` is what follows the answers, such as additional records. -/
structure Response where
  id : UInt16
  flags : UInt16
  questions : List Question
  answers : List Answer
  nscount : UInt16
  arcount : UInt16
  more : List UInt8
  fewQuestions : questions.length < 2 ^ 16
  fewAnswers : answers.length < 2 ^ 16

namespace Response

def head (response : Response) : List UInt8 :=
  (be16 response.id.toNat ++ be16 response.flags.toNat) ++ be16 response.questions.length ++
    be16 response.answers.length ++ (be16 response.nscount.toNat ++ be16 response.arcount.toNat)

def encode (response : Response) : List UInt8 :=
  response.head ++ response.questions.flatMap Question.encode ++
    response.answers.flatMap Answer.encode ++ response.more

/-- Every pointer of an answer's target points to a name that the packet has in full. -/
def Points (response : Response) : Prop :=
  ∀ answer ∈ response.answers, answer.rdata.Points response.encode

end Response

/-! ## Decoding -/

variable {turns : ℕ}

theorem skipDnsName_encode {name : Name} {offset : ℕ} (hturns : data.length + 23 ≤ turns)
    (h : Holds data offset name.encode) :
    skipDnsName turns data offset = .ok (offset + name.encode.length) := by
  refine skip_comes h turns ?_
  show data.length - offset < turns
  omega

theorem readDnsName_encode {name : Name} {offset : ℕ} (hturns : data.length + 23 ≤ turns)
    (h : Holds data offset name.encode) (hpoints : name.Points data) :
    readDnsName turns data offset = .ok (dotted name.allLabels) := by
  refine read_comes h hpoints turns ?_
  simp only [readMeasure, Bool.false_eq_true, if_false]
  omega

theorem skipQuestions_encode {questions : List Question} {offset : ℕ}
    (hturns : data.length + 23 ≤ turns)
    (h : Holds data offset (questions.flatMap Question.encode)) :
    skipQuestions turns data questions.length offset =
      .ok (offset + (questions.flatMap Question.encode).length) := by
  induction questions generalizing offset with
  | nil => rfl
  | cons question questions ih =>
    rw [List.flatMap_cons] at h ⊢
    have hname : Holds data offset question.name.encode := by
      have hfirst := h.front
      rw [Question.encode, List.append_assoc] at hfirst
      exact hfirst.front
    have hlength : question.encode.length = question.name.encode.length + 4 := by
      rw [Question.encode, List.length_append, List.length_append]
      rfl
    rw [List.length_cons, skipQuestions, skipDnsName_encode hturns hname]
    show skipQuestions turns data questions.length (offset + question.name.encode.length + 4) = _
    rw [Nat.add_assoc, ← hlength, ih h.back, List.length_append, Nat.add_assoc]

theorem readSrv_encode {priority weight port : UInt16} {target : Name} {offset : ℕ}
    (hturns : data.length + 23 ≤ turns)
    (h : Holds data offset (RecordData.srv priority weight port target).encode)
    (hpoints : target.Points data) :
    readSrv turns data offset = .ok (some (srvPeer (dotted target.allLabels) port.toNat)) := by
  have hport : u16At data (offset + 4) = .ok port.toNat := Holds.u16At port.toNat_lt h.front.back
  have hname : readDnsName turns data (offset + 6) = .ok (dotted target.allLabels) :=
    readDnsName_encode hturns h.back hpoints
  rw [readSrv, hport, hname]
  rfl

theorem readAnswers_cons {answer : Answer} {offset : ℕ} (hturns : data.length + 23 ≤ turns)
    (h : Holds data offset answer.encode) (hpoints : answer.rdata.Points data) (count : ℕ)
    (peers : List BootstrapPeer) :
    readAnswers turns data (count + 1) offset peers =
      readAnswers turns data count (offset + answer.encode.length)
        (peers ++ answer.peer.toList) := by
  have howner := skipDnsName_encode hturns h.front.front
  have hhead : Holds data (offset + answer.owner.encode.length) answer.head := h.front.back
  have hrdata := h.back
  have hlength : answer.encode.length =
      answer.owner.encode.length + 10 + answer.rdata.encode.length := by
    rw [Answer.encode, List.length_append, List.length_append]
    rfl
  have hend := h.length_le
  have htype : u16At data (offset + answer.owner.encode.length) = .ok answer.rdata.rtype.toNat :=
    Holds.u16At answer.rdata.rtype.toNat_lt hhead.front.front
  have hrdlength : u16At data (offset + answer.owner.encode.length + 8) =
      .ok answer.rdata.encode.length := Holds.u16At answer.short hhead.back
  have hdata : offset + (answer.owner.encode ++ answer.head).length =
      offset + answer.owner.encode.length + 10 := by
    rw [List.length_append, ← Nat.add_assoc]
    rfl
  rw [hdata] at hrdata
  have hafter : offset + answer.encode.length =
      offset + answer.owner.encode.length + 10 + answer.rdata.encode.length := by omega
  rw [hafter] at hend ⊢
  rw [readAnswers, howner]
  dsimp only [bind, Except.bind]
  rw [if_neg (by omega), htype]
  dsimp only
  rw [hrdlength]
  dsimp only
  rw [if_neg (by omega), Answer.peer]
  cases hkind : answer.rdata with
  | srv priority weight port target =>
    rw [hkind] at hrdata hpoints
    have hsix : (RecordData.srv priority weight port target).encode.length ≥ 6 := by
      rw [RecordData.encode, List.length_append]
      exact Nat.le_add_right 6 _
    rw [if_pos ⟨rfl, hsix⟩, readSrv_encode hturns hrdata hpoints]
    rfl
  | other rtype bytes hother =>
    have hskip : ¬ rtype.toNat = 33 := fun h => hother (UInt16.toNat_inj.mp h)
    rw [if_neg fun h => hskip h.1]
    show _ = readAnswers turns data count _ (peers ++ [])
    rw [List.append_nil]

theorem readAnswers_encode {answers : List Answer} {offset : ℕ} (hturns : data.length + 23 ≤ turns)
    (h : Holds data offset (answers.flatMap Answer.encode))
    (hpoints : ∀ answer ∈ answers, answer.rdata.Points data) (peers : List BootstrapPeer) :
    readAnswers turns data answers.length offset peers =
      .ok (peers ++ answers.filterMap Answer.peer) := by
  induction answers generalizing offset peers with
  | nil => exact congrArg Except.ok (List.append_nil peers).symm
  | cons answer answers ih =>
    rw [List.flatMap_cons] at h
    rw [List.length_cons, readAnswers_cons hturns h.front (hpoints answer List.mem_cons_self),
      ih h.back fun a ha => hpoints a (List.mem_cons_of_mem answer ha), List.append_assoc]
    refine congrArg (fun more => Except.ok (peers ++ more)) ?_
    rw [List.filterMap_cons]
    cases answer.peer with
    | none => rfl
    | some peer => rfl

/-- The peers are those of the SRV answers, in order. -/
theorem parseDnsSrvResponse_encode (response : Response) (hpoints : response.Points)
    (hturns : response.encode.length + 23 ≤ turns) :
    parseDnsSrvResponse turns response.encode =
      .ok (response.answers.filterMap Answer.peer) := by
  have hwhole : Holds response.encode 0 (response.head ++
      response.questions.flatMap Question.encode ++ response.answers.flatMap Answer.encode) :=
    ⟨[], response.more, rfl, rfl⟩
  have hhead : Holds response.encode 0 response.head := hwhole.front.front
  have hquestions : u16At response.encode 4 = .ok response.questions.length :=
    Holds.u16At response.fewQuestions hhead.front.front.back
  have hanswers : u16At response.encode 6 = .ok response.answers.length :=
    Holds.u16At response.fewAnswers hhead.front.back
  have hlong : ¬ response.encode.length < 12 := Nat.not_lt.mpr hhead.length_le
  have hafter := hwhole.back
  rw [List.length_append, ← Nat.add_assoc] at hafter
  rw [parseDnsSrvResponse, if_neg hlong, hquestions]
  dsimp only [bind, Except.bind]
  rw [hanswers]
  dsimp only
  have hskip : skipQuestions turns response.encode response.questions.length 12 = _ :=
    skipQuestions_encode hturns hwhole.front.back
  rw [hskip]
  exact readAnswers_encode hturns hafter hpoints []

/-! The answers for `_d.x`: an address, `b.x:443` in full and `a.x:80` with a pointer to `x`. -/

def service : Label := ⟨[95, 100], by simp, by simp, by simp⟩

def domain : Label := ⟨[120], by simp, by simp, by simp⟩

def fromDomain : Target := ⟨15, [domain], by decide⟩

theorem lt_of_small {n : ℕ} (h : n < 32) : n < 2 ^ 16 := Nat.lt_trans h (by norm_num)

def mixed : Response where
  id := 0x1234
  flags := 0x8180
  questions := [⟨⟨[service, domain], none⟩, 33, 1⟩]
  answers := [
    ⟨⟨[service], some fromDomain⟩, 1, 60, .other 1 [10, 0, 0, 1] (by decide),
      lt_of_small (by decide)⟩,
    ⟨⟨[service, domain], none⟩, 1, 60,
      .srv 0 0 443 ⟨[⟨[98], by simp, by simp, by simp⟩, domain], none⟩, lt_of_small (by decide)⟩,
    ⟨⟨[service, domain], none⟩, 1, 60,
      .srv 0 0 80 ⟨[⟨[97], by simp, by simp, by simp⟩], some fromDomain⟩,
      lt_of_small (by decide)⟩]
  nscount := 0
  arcount := 0
  more := []
  fewQuestions := lt_of_small (by decide)
  fewAnswers := lt_of_small (by decide)

theorem mixed_points : mixed.Points := by
  have hdomain : Holds mixed.encode 15 (encodeLabels [domain] ++ [0]) :=
    ⟨mixed.encode.take 15, mixed.encode.drop 18, by decide, by decide⟩
  refine List.forall_mem_cons.mpr ⟨trivial, List.forall_mem_cons.mpr ⟨nofun,
    List.forall_mem_singleton.mpr ?_⟩⟩
  intro target htarget
  cases htarget
  exact hdomain

theorem parseDnsSrvResponse_encode_mixed :
    mixed.Points ∧
      parseDnsSrvResponse 200 mixed.encode = .ok (mixed.answers.filterMap Answer.peer) ∧
      mixed.answers.filterMap Answer.peer =
        [⟨"srv:b.x:443", "b.x:443", "DNS SRV"⟩, ⟨"srv:a.x:80", "a.x:80", "DNS SRV"⟩] :=
  ⟨mixed_points, parseDnsSrvResponse_encode mixed mixed_points (by decide), by decide⟩

end DSearch.Resolver
