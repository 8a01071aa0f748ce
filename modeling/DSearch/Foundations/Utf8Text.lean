import DSearch.Foundations.JsonText

/-! # Characters in UTF-8

The encodings of two different characters are not prefixes of one another, and no byte inside of one
begins another. So bytes that are text from their start determine it, and a character that stands
anywhere in the bytes of a text is a character of the text. -/

namespace DSearch.Utf8Text
set_option autoImplicit false
open String

def encode (cs : List Char) : Bytes := cs.flatMap utf8EncodeChar

theorem encode_toList (s : String) : encode s.toList = asBytes s := (asBytes_eq s).symm

theorem utf8ByteSize_ofList (cs : List Char) : (ofList cs).utf8ByteSize = (encode cs).length := by
  rw [← length_asBytes, ← encode_toList, toList_ofList]

@[simp] theorem encode_nil : encode [] = [] := rfl

@[simp] theorem encode_cons (c : Char) (cs : List Char) :
    encode (c :: cs) = utf8EncodeChar c ++ encode cs := rfl

theorem encode_append (cs ds : List Char) : encode (cs ++ ds) = encode cs ++ encode ds :=
  List.flatMap_append

theorem utf8EncodeChar_append_inj {c d : Char} {rest rest' : Bytes}
    (h : utf8EncodeChar c ++ rest = utf8EncodeChar d ++ rest') : c = d ∧ rest = rest' := by
  have hdecode := congrArg (fun bytes : Bytes => bytes.toByteArray.utf8DecodeChar? 0) h
  simp only [List.toByteArray_append, ByteArray.utf8DecodeChar?_utf8EncodeChar_append] at hdecode
  obtain rfl := Option.some.inj hdecode
  exact ⟨rfl, List.append_cancel_left h⟩

theorem encode_eq_nil {cs : List Char} : encode cs = [] ↔ cs = [] := by
  cases cs <;> simp [utf8EncodeChar_ne_nil]

/-- Bytes of a text that begin with the bytes of another text: so does the text. -/
theorem eq_append_of_encode_eq {cs ds : List Char} {rest : Bytes}
    (h : encode ds = encode cs ++ rest) : ∃ es, ds = cs ++ es ∧ encode es = rest := by
  induction cs generalizing ds with
  | nil => exact ⟨ds, rfl, h⟩
  | cons c cs ih =>
    cases ds with
    | nil => simp [utf8EncodeChar_ne_nil] at h
    | cons d ds =>
      rw [encode_cons, encode_cons, List.append_assoc] at h
      obtain ⟨rfl, hrest⟩ := utf8EncodeChar_append_inj h
      obtain ⟨es, rfl, hes⟩ := ih hrest
      exact ⟨es, rfl, hes⟩

/-- A character that is read anywhere in the bytes of a text is one of its characters. -/
theorem mem_of_encode_eq {cs : List Char} {c : Char} {before after : Bytes}
    (h : encode cs = before ++ (utf8EncodeChar c ++ after)) : c ∈ cs := by
  induction cs generalizing before with
  | nil => simp [utf8EncodeChar_ne_nil] at h
  | cons d cs ih =>
    rw [encode_cons] at h
    rcases Nat.lt_or_ge before.length (utf8EncodeChar d).length with hshort | hlong
    · -- the first byte of `c` is a byte of `d`, and so its first one
      have hc : 0 < (utf8EncodeChar c).length := by simp [c.utf8Size_pos]
      have hbyte : (utf8EncodeChar d)[before.length]? = (utf8EncodeChar c)[0]? := by
        rw [← List.getElem?_append_left hshort, h,
          List.getElem?_append_right (le_refl _), Nat.sub_self, List.getElem?_append_left hc]
      rw [List.getElem?_eq_getElem hshort, List.getElem?_eq_getElem hc] at hbyte
      have hfirst : (utf8EncodeChar d)[before.length].IsUTF8FirstByte := by
        rw [Option.some.inj hbyte]
        exact UInt8.isUTF8FirstByte_getElem_zero_utf8EncodeChar
      obtain rfl := List.eq_nil_of_length_eq_zero
        (UInt8.isUTF8FirstByte_getElem_utf8EncodeChar.mp hfirst)
      exact (utf8EncodeChar_append_inj h).1 ▸ List.mem_cons_self
    · obtain ⟨before', rfl⟩ := List.prefix_of_prefix_length_le
        (List.prefix_append (utf8EncodeChar d) (encode cs)) (h ▸ List.prefix_append before _) hlong
      rw [List.append_assoc] at h
      exact List.mem_cons_of_mem d (ih (List.append_cancel_left h))

end DSearch.Utf8Text
