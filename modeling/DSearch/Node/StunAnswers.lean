import DSearch.Node.Stun

/-! # Binding responses

A response as RFC 5389 lays it out. The parser takes the first byte of the value for the family, which
is the reserved byte, so it reads no address from any response of this form. -/

namespace DSearch.Stun
set_option autoImplicit false
open Datagrams

/-- An attribute with the bytes that pad it to four. -/
structure Attribute where
  type : ℕ
  value : List UInt8
  padding : List UInt8
  type_lt : type < 2 ^ 16
  value_lt : value.length < 2 ^ 16
  padded : value.length + padding.length = paddedLen value.length

def Attribute.encode (a : Attribute) : List UInt8 :=
  be16 a.type ++ be16 a.value.length ++ a.value ++ a.padding

inductive Address
  | v4 (octets : Vector UInt8 4)
  | v6 (octets : Vector UInt8 16)

namespace Address

def family : Address → UInt8
  | v4 _ => 1
  | v6 _ => 2

def octets : Address → List UInt8
  | v4 octets => octets.toList
  | v6 octets => octets.toList

/-- The address and the port as the program writes them. -/
def text (port : UInt16) : Address → String
  | v4 octets => ipv4Text octets.toList ++ ":" ++ toString port.toNat
  | v6 octets => "[" ++ ipv6Text octets.toList ++ "]:" ++ toString port.toNat

end Address

def xorValue (txnId : Vector UInt8 12) (address : Address) (port : UInt16) : List UInt8 :=
  [0, address.family] ++ be16 (port ^^^ 0x2112).toNat ++
    List.zipWith (· ^^^ ·) address.octets (cookie ++ txnId.toList)

theorem length_xorValue (txnId : Vector UInt8 12) (address : Address) (port : UInt16) :
    (xorValue txnId address port).length = 8 ∨ (xorValue txnId address port).length = 20 := by
  cases address with
  | v4 octets => exact .inl (by simp [xorValue, Address.octets, be16, cookie])
  | v6 octets => exact .inr (by simp [xorValue, Address.octets, be16, cookie])

def xorAttribute (txnId : Vector UInt8 12) (address : Address) (port : UInt16) : Attribute where
  type := 0x0020
  value := xorValue txnId address port
  padding := []
  type_lt := by decide
  value_lt := by
    rcases length_xorValue txnId address port with h | h
    · omega
    · omega
  padded := by
    rcases length_xorValue txnId address port with h | h
    · rw [h]
      rfl
    · rw [h]
      rfl

def bindingResponse (txnId : Vector UInt8 12) (attributes : List Attribute) : List UInt8 :=
  let body := attributes.flatMap Attribute.encode
  be16 0x0101 ++ be16 body.length ++ cookie ++ txnId.toList ++ body

/-! ## Reading what was written -/

variable {txnId : Vector UInt8 12} {before after : List UInt8}

/-- The head of an attribute that ends before `attrEnd`. -/
theorem attrBody_head (a : Attribute) {attrEnd : ℕ}
    (hend : before.length + a.encode.length ≤ attrEnd) :
    attrBody txnId (before ++ a.encode ++ after) attrEnd before.length =
      if a.type = 0x0020 then do
        let text ← xorMappedAddress txnId (before ++ a.encode ++ after) (before.length + 4)
          a.value.length
        return .done text
      else if a.type = 0x0001 then do
        match ← mappedAddress (before ++ a.encode ++ after) (before.length + 4) a.value.length with
        | some text => return .done text
        | none => return .again (before.length + a.encode.length)
      else return .again (before.length + a.encode.length) := by
  have hlength : a.encode.length = 4 + paddedLen a.value.length := by
    rw [← a.padded]
    simp only [Attribute.encode, be16, List.length_append, List.length_cons, List.length_nil]
    omega
  have htype : u16At (before ++ a.encode ++ after) before.length = .ok a.type := by
    have hshape : before ++ a.encode ++ after = before ++ be16 a.type ++
        (be16 a.value.length ++ a.value ++ a.padding ++ after) := by
      simp only [Attribute.encode, List.append_assoc]
    rw [hshape]
    exact u16At_be16 before a.type_lt _
  have hlen : u16At (before ++ a.encode ++ after) (before.length + 2) = .ok a.value.length := by
    have hshape : before ++ a.encode ++ after = (before ++ be16 a.type) ++ be16 a.value.length ++
        (a.value ++ a.padding ++ after) := by
      simp only [Attribute.encode, List.append_assoc]
    have hbefore : before.length + 2 = (before ++ be16 a.type).length := by simp [be16]
    rw [hshape, hbefore]
    exact u16At_be16 _ a.value_lt _
  have hpadded : a.value.length ≤ paddedLen a.value.length := by
    rw [← a.padded]
    exact Nat.le_add_right _ _
  unfold attrBody
  rw [if_pos (by omega), htype, hlen, hlength, ← Nat.add_assoc]
  show (if before.length + 4 + a.value.length > attrEnd then Except.error noAddress else _) = _
  exact if_neg (by omega)

/-- An attribute of another type is passed over. -/
theorem attrBody_other {a : Attribute} (hother : a.type ≠ 0x0001 ∧ a.type ≠ 0x0020) {attrEnd : ℕ}
    (hend : before.length + a.encode.length ≤ attrEnd) :
    attrBody txnId (before ++ a.encode ++ after) attrEnd before.length =
      .ok (.again (before.length + a.encode.length)) := by
  rw [attrBody_head a hend, if_neg hother.2, if_neg hother.1]
  rfl

/-- The reserved byte of the value is zero, so the family comes out as 33. -/
theorem attrBody_xor {address : Address} {port : UInt16} {attrEnd : ℕ}
    (hend : before.length + (xorAttribute txnId address port).encode.length ≤ attrEnd) :
    attrBody txnId (before ++ (xorAttribute txnId address port).encode ++ after) attrEnd before.length =
      .error (.err "unknown address family: 33") := by
  have hlength : 4 ≤ (xorValue txnId address port).length := by
    rcases length_xorValue txnId address port with h | h
    · omega
    · omega
  have hreserved : byteAt (before ++ (xorAttribute txnId address port).encode ++ after)
      (before.length + 4) = .ok 0 := by
    have hshape : before ++ (xorAttribute txnId address port).encode ++ after =
        (before ++ (be16 0x0020 ++ be16 (xorValue txnId address port).length)) ++
          0 :: ((xorValue txnId address port).tail ++ after) := by
      simp [Attribute.encode, xorAttribute, xorValue]
    have hbefore : before.length + 4 =
        (before ++ (be16 0x0020 ++ be16 (xorValue txnId address port).length)).length := by
      simp [be16]
    rw [hshape, hbefore]
    exact byteAt_append _ _ _
  obtain ⟨xport, hport⟩ : ∃ xport, u16At (before ++ (xorAttribute txnId address port).encode ++ after)
      (before.length + 4 + 2) = .ok xport := by
    refine exists_u16At ?_
    simp only [Attribute.encode, xorAttribute, be16, List.length_append, List.length_cons,
      List.length_nil]
    omega
  have htype : (xorAttribute txnId address port).type = 0x0020 := rfl
  have hvalue : (xorAttribute txnId address port).value = xorValue txnId address port := rfl
  rw [attrBody_head _ hend, if_pos htype, hvalue, xorMappedAddress, if_neg (by omega), hreserved, hport]
  rfl

/-- The parser goes over the other attributes to the mapped address. -/
theorem loop_attrBody {others : List Attribute}
    (hothers : ∀ a ∈ others, a.type ≠ 0x0001 ∧ a.type ≠ 0x0020) {address : Address} {port : UInt16}
    {attrEnd : ℕ} (hend : attrEnd = before.length +
      ((others ++ [xorAttribute txnId address port]).flatMap Attribute.encode).length) :
    Comes (attrBody txnId (before ++
        (others ++ [xorAttribute txnId address port]).flatMap Attribute.encode ++ after) attrEnd)
      (fun offset => attrEnd - offset) before.length (.error (.err "unknown address family: 33")) := by
  induction others generalizing before with
  | nil =>
    rw [List.nil_append, List.flatMap_singleton] at hend ⊢
    exact Comes.stop (attrBody_xor hend.ge)
  | cons a others ih =>
    rw [List.cons_append, List.flatMap_cons, List.length_append] at hend
    have hshape : before ++
        (a :: others ++ [xorAttribute txnId address port]).flatMap Attribute.encode ++ after =
        before ++ a.encode ++ ((others ++ [xorAttribute txnId address port]).flatMap Attribute.encode ++ after) := by
      simp only [List.cons_append, List.flatMap_cons, List.append_assoc]
    have hbefore : attrEnd = (before ++ a.encode).length +
        ((others ++ [xorAttribute txnId address port]).flatMap Attribute.encode).length := by
      rw [hend, List.length_append, Nat.add_assoc]
    have hrest := ih (fun b hb => hothers b (List.mem_cons_of_mem a hb)) hbefore
    rw [hshape]
    rw [List.append_assoc (before ++ a.encode)] at hrest
    refine Comes.again (attrBody_shrinks ?_) (attrBody_other (hothers a List.mem_cons_self) ?_) ?_
    · rw [hend]
      simp only [List.length_append]
      omega
    · omega
    · rw [← List.length_append]
      exact hrest

theorem exists_header (txnId : Vector UInt8 12) (attributes : List Attribute) :
    ∃ header : List UInt8, header.length = 20 ∧
      bindingResponse txnId attributes = header ++ attributes.flatMap Attribute.encode := by
  refine ⟨_, ?_, rfl⟩
  simp only [be16, cookie, List.length_append, List.length_cons, List.length_nil,
    Vector.length_toList]

theorem parseBindingResponse_head (txnId : Vector UInt8 12) {attributes : List Attribute}
    (hsize : (bindingResponse txnId attributes).length ≤ 576) (tail : List UInt8) (turns : ℕ) :
    parseBindingResponse txnId (bindingResponse txnId attributes ++ tail) turns
        (bindingResponse txnId attributes).length =
      loop (attrBody txnId (bindingResponse txnId attributes ++ tail)
        (bindingResponse txnId attributes).length) turns 20 := by
  have hlength : (bindingResponse txnId attributes).length =
      20 + (attributes.flatMap Attribute.encode).length := by
    obtain ⟨header, hheader, hresponse⟩ := exists_header txnId attributes
    rw [hresponse, List.length_append, hheader]
  have htype : u16At (bindingResponse txnId attributes ++ tail) 0 = .ok 0x0101 :=
    u16At_be16 [] (by decide) _
  have hlen : u16At (bindingResponse txnId attributes ++ tail) 2 =
      .ok (attributes.flatMap Attribute.encode).length := by
    have hshape : bindingResponse txnId attributes ++ tail = be16 0x0101 ++
        be16 (attributes.flatMap Attribute.encode).length ++
        (cookie ++ txnId.toList ++ attributes.flatMap Attribute.encode ++ tail) := by
      simp only [bindingResponse, List.append_assoc]
    rw [hshape]
    exact u16At_be16 (be16 0x0101) (by omega) _
  have hid : slice (bindingResponse txnId attributes ++ tail) 8 20 = .ok txnId.toList := by
    have hshape : bindingResponse txnId attributes ++ tail = (be16 0x0101 ++
        be16 (attributes.flatMap Attribute.encode).length ++ cookie) ++ txnId.toList ++
        (attributes.flatMap Attribute.encode ++ tail) := by
      simp only [bindingResponse, List.append_assoc]
    have hend : 20 = 8 + txnId.toList.length := by rw [Vector.length_toList]
    rw [hshape, hend]
    exact slice_append _ _ _
  unfold parseBindingResponse
  rw [if_neg (by omega), htype, hid, hlen]
  show (if txnId.toList ≠ txnId.toList then _ else if _ > _ then _ else _) = _
  rw [if_neg (not_not_intro rfl), if_neg (by omega), hlength]

/-- No address is read from a response, whatever stands before the mapped address. -/
theorem bindingResponse_unread (txnId : Vector UInt8 12) {others : List Attribute}
    (hothers : ∀ a ∈ others, a.type ≠ 0x0001 ∧ a.type ≠ 0x0020) (address : Address) (port : UInt16)
    (hsize : (bindingResponse txnId (others ++ [xorAttribute txnId address port])).length ≤ 576)
    (tail : List UInt8) {turns : ℕ} (hturns : 576 < turns) :
    parseBindingResponse txnId
        (bindingResponse txnId (others ++ [xorAttribute txnId address port]) ++ tail) turns
        (bindingResponse txnId (others ++ [xorAttribute txnId address port])).length =
      .error (.err "unknown address family: 33") ∧
    parseBindingResponse txnId
        (bindingResponse txnId (others ++ [xorAttribute txnId address port]) ++ tail) turns
        (bindingResponse txnId (others ++ [xorAttribute txnId address port])).length ≠
      .ok (address.text port) := by
  have hparsed : parseBindingResponse txnId
      (bindingResponse txnId (others ++ [xorAttribute txnId address port]) ++ tail) turns
      (bindingResponse txnId (others ++ [xorAttribute txnId address port])).length =
        .error (.err "unknown address family: 33") := by
    rw [parseBindingResponse_head txnId hsize]
    obtain ⟨header, hheader, hresponse⟩ :=
      exists_header txnId (others ++ [xorAttribute txnId address port])
    have hend := congrArg List.length hresponse
    rw [List.length_append] at hend
    have hcomes : Comes (attrBody txnId (header ++ _ ++ tail) _) _ header.length _ :=
      loop_attrBody hothers hend
    rw [← hresponse, hheader] at hcomes
    exact hcomes turns (Nat.lt_of_le_of_lt (Nat.sub_le _ _) (Nat.lt_of_le_of_lt hsize hturns))
  rw [hparsed]
  refine ⟨rfl, fun hok => ?_⟩
  cases hok

/-- The name of the server's software, before the address. -/
def software : Attribute where
  type := 0x8022
  value := asBytes "dsearch"
  padding := [0]
  type_lt := by decide
  value_lt := by decide
  padded := by decide

def exampleAddress : Address := .v4 #v[192, 0, 2, 1]

theorem bindingResponse_unread_software :
    parseBindingResponse (.replicate 12 7)
        (bindingResponse (.replicate 12 7)
          ([software] ++ [xorAttribute (.replicate 12 7) exampleAddress 32853]) ++ []) 577
        (bindingResponse (.replicate 12 7)
          ([software] ++ [xorAttribute (.replicate 12 7) exampleAddress 32853])).length =
      .error (.err "unknown address family: 33") := by
  have hothers : ∀ a ∈ [software], a.type ≠ 0x0001 ∧ a.type ≠ 0x0020 := by decide
  exact (bindingResponse_unread (.replicate 12 7) hothers exampleAddress 32853 (by decide) []
    (by decide)).1

/-- A response with nothing but the mapped address. -/
theorem reserved_byte_is_family :
    exampleAddress.text 32853 = "192.0.2.1:32853" ∧
    parseBindingResponse (.replicate 12 7)
        (bindingResponse (.replicate 12 7) [xorAttribute (.replicate 12 7) exampleAddress 32853] ++
          List.replicate 544 0) 577 32 = .error (.err "unknown address family: 33") := by
  refine ⟨?_, ?_⟩
  · decide +kernel
  · decide +kernel

end DSearch.Stun
