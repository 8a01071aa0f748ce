import Mathlib

/-! # JSON text

The compact JSON text a serialiser writes for strings, numbers, arrays and objects with a fixed
list of fields: no white space and fields in the given order. The text is kept as its UTF-8 bytes.
In a string the quote, the backslash and the bytes below `0x20` are escaped (two characters where
JSON has such an escape, else `\u00xx`), and every other byte is copied. -/

namespace DSearch
set_option autoImplicit false

abbrev Bytes := List UInt8

def asBytes (s : String) : Bytes := s.toUTF8.data.toList

theorem asBytes_eq (s : String) : asBytes s = s.toList.flatMap String.utf8EncodeChar := by
  unfold asBytes
  rw [String.toUTF8, ← String.utf8Encode_toList, List.utf8Encode, List.toList_data_toByteArray]

theorem length_asBytes (s : String) : (asBytes s).length = s.utf8ByteSize := by
  simp [asBytes]

theorem asBytes_inj {s t : String} : asBytes s = asBytes t ↔ s = t := by
  refine ⟨fun h => ?_, congrArg asBytes⟩
  exact String.toByteArray_inj.mp (ByteArray.ext (Array.toList_inj.mp h))

namespace JsonText

def hexDigit (n : ℕ) : UInt8 := if n < 10 then UInt8.ofNat (48 + n) else UInt8.ofNat (87 + n)

/-- The escaped form of one byte of a string. -/
def escapeByte (b : UInt8) : Bytes :=
  match b.toNat with
  | 0x22 => [92, 34]
  | 0x5c => [92, 92]
  | 0x08 => [92, 98]
  | 0x09 => [92, 116]
  | 0x0a => [92, 110]
  | 0x0c => [92, 102]
  | 0x0d => [92, 114]
  | n => if n < 0x20 then [92, 117, 48, 48, hexDigit (n / 16), hexDigit (n % 16)] else [b]

def ofString (s : String) : Bytes := 34 :: (asBytes s).flatMap escapeByte ++ [34]

/-- A string that is given as its bytes. -/
def ofText (text : Bytes) : Bytes := 34 :: text.flatMap escapeByte ++ [34]

def ofNat (n : ℕ) : Bytes := asBytes (toString n)

def ofBool (b : Bool) : Bytes := asBytes (if b then "true" else "false")

def null : Bytes := asBytes "null"

def commaSeparated : List Bytes → Bytes
  | [] => []
  | [item] => item
  | item :: next :: items => item ++ 44 :: commaSeparated (next :: items)

def ofArray (items : List Bytes) : Bytes := 91 :: commaSeparated items ++ [93]

/-- An object from its field names and the texts of their values. -/
def ofFields (fields : List (String × Bytes)) : Bytes :=
  123 :: commaSeparated (fields.map fun field => ofString field.1 ++ 58 :: field.2) ++ [125]

example : ofFields [("id", ofString "a\"\n"), ("n", ofNat 12), ("tags", ofArray [])] =
    asBytes "\x7b\"id\":\"a\\\"\\n\",\"n\":12,\"tags\":[]\x7d" := by decide

/-! ## Lengths -/

/-- The length of a string's text without the quotes. -/
def escapedLength (s : String) : ℕ := ((asBytes s).flatMap escapeByte).length

theorem length_ofString (s : String) : (ofString s).length = escapedLength s + 2 := by
  simp [ofString, escapedLength]

theorem escapeByte_length_pos (b : UInt8) : 1 ≤ (escapeByte b).length := by
  unfold escapeByte
  split <;> try simp
  split <;> simp

theorem utf8ByteSize_le_escapedLength (s : String) : s.utf8ByteSize ≤ escapedLength s := by
  rw [← length_asBytes, escapedLength]
  induction asBytes s with
  | nil => simp
  | cons b bytes ih =>
    have hb := escapeByte_length_pos b
    rw [List.flatMap_cons, List.length_cons, List.length_append]
    omega

theorem escapeByte_length_le (b : UInt8) : (escapeByte b).length ≤ 6 := by
  unfold escapeByte
  split <;> try simp
  split <;> simp

theorem escapedLength_le (s : String) : escapedLength s ≤ 6 * s.utf8ByteSize := by
  rw [← length_asBytes, escapedLength]
  induction asBytes s with
  | nil => simp
  | cons b bytes ih =>
    have hb := escapeByte_length_le b
    rw [List.flatMap_cons, List.length_cons, List.length_append]
    omega

theorem utf8ByteSize_ofList_le (cs : List Char) : (String.ofList cs).utf8ByteSize ≤ 4 * cs.length := by
  induction cs with
  | nil => simp
  | cons c cs ih =>
    have hc := Char.utf8Size_le_four c
    rw [String.ofList_cons, String.utf8ByteSize_append, String.utf8ByteSize_singleton, List.length_cons]
    omega

/-- Of a literal its characters are known without decoding it. -/
theorem utf8ByteSize_literal_le {cs : List Char} {n : ℕ} (h : 4 * cs.length ≤ n) :
    (String.ofList cs).utf8ByteSize ≤ n := (utf8ByteSize_ofList_le cs).trans h

theorem utf8ByteSize_literals_le {cs cs' : List Char} {n : ℕ} (h : 4 * (cs ++ cs').length ≤ n) :
    (String.ofList cs ++ String.ofList cs').utf8ByteSize ≤ n := by
  rw [← String.ofList_append]
  exact utf8ByteSize_literal_le h

theorem length_ofArray_singleton_le {tag : String} {n : ℕ} (h : tag.utf8ByteSize ≤ n) :
    (ofArray ([tag].map ofString)).length ≤ 6 * n + 4 := by
  have hescaped := escapedLength_le tag
  simp only [ofArray, commaSeparated, List.map_cons, List.map_nil, List.length_cons,
    List.length_append, List.length_nil, length_ofString]
  omega

theorem length_ofNat_le {n k : ℕ} (hk : 0 < k) (h : n < 10 ^ k) : (ofNat n).length ≤ 4 * k := by
  have hdigits := (Nat.length_repr_le_iff hk).mpr h
  have hbytes := utf8ByteSize_ofList_le n.repr.toList
  rw [String.ofList_toList, String.length_toList] at hbytes
  rw [ofNat, length_asBytes, Nat.toString_eq_repr]
  omega

/-- Every character takes a byte at least. -/
theorem length_toList_le_escapedLength (s : String) : s.toList.length ≤ escapedLength s := by
  refine le_trans ?_ (utf8ByteSize_le_escapedLength s)
  rw [← length_asBytes, asBytes_eq, List.length_flatMap]
  have hchars : ∀ cs : List Char, cs.length ≤ (cs.map fun c => (String.utf8EncodeChar c).length).sum := by
    intro cs
    induction cs with
    | nil => exact le_refl _
    | cons c cs ih =>
      have hpos := Char.utf8Size_pos c
      simp only [List.length_cons, List.map_cons, List.sum_cons, String.length_utf8EncodeChar] at ih ⊢
      omega
  exact hchars s.toList

/-- A text of `n` letters. -/
def letters (n : ℕ) : String := String.ofList (List.replicate n 'a')

theorem asBytes_letters (n : ℕ) : asBytes (letters n) = List.replicate n 97 := by
  rw [asBytes_eq, letters, String.toList_ofList]
  induction n with
  | zero => rfl
  | succ n ih =>
    rw [List.replicate_succ, List.flatMap_cons, ih, List.replicate_succ]
    rfl

theorem utf8ByteSize_letters (n : ℕ) : (letters n).utf8ByteSize = n := by
  rw [← length_asBytes, asBytes_letters, List.length_replicate]

theorem escapedLength_letters (n : ℕ) : escapedLength (letters n) = n := by
  rw [escapedLength, asBytes_letters]
  induction n with
  | zero => rfl
  | succ n ih =>
    rw [List.replicate_succ, List.flatMap_cons, List.length_append, ih]
    exact Nat.add_comm 1 n

/-! ## A text inside a string -/

/-- No byte of the text is a control character. -/
def Printable (text : Bytes) : Prop := ∀ b ∈ text, 32 ≤ b.toNat

/-- The bytes of the text that a string writes with a backslash, if it is printable. -/
def specials (text : Bytes) : ℕ := text.countP fun b => b = 34 ∨ b = 92

theorem Printable.append {text text' : Bytes} (h : Printable text) (h' : Printable text') :
    Printable (text ++ text') := by
  intro b hb
  rcases List.mem_append.mp hb with hb | hb
  · exact h b hb
  · exact h' b hb

theorem Printable.cons {b : UInt8} {text : Bytes} (hb : 32 ≤ b.toNat) (h : Printable text) :
    Printable (b :: text) := by
  intro c hc
  rcases List.mem_cons.mp hc with rfl | hc
  · exact hb
  · exact h c hc

theorem printable_singleton {b : UInt8} (hb : 32 ≤ b.toNat) : Printable [b] :=
  Printable.cons hb fun _ hc => absurd hc List.not_mem_nil

theorem printable_hexDigit {n : ℕ} (h : n < 16) : 32 ≤ (hexDigit n).toNat := by
  unfold hexDigit
  split
  · rw [UInt8.toNat_ofNat']
    omega
  · rw [UInt8.toNat_ofNat']
    omega

theorem printable_escapeByte (b : UInt8) : Printable (escapeByte b) := by
  unfold escapeByte Printable
  split
  case h_8 =>
    split
    · next hcontrol =>
      have hhigh := printable_hexDigit (n := b.toNat / 16) (by omega)
      have hlow := printable_hexDigit (n := b.toNat % 16) (by omega)
      simp [hhigh, hlow]
    · next hcontrol => exact printable_singleton (by omega)
  all_goals simp

theorem printable_ofText (text : Bytes) : Printable (ofText text) := by
  have hinside : Printable (text.flatMap escapeByte) := by
    intro b hb
    obtain ⟨c, -, hc⟩ := List.mem_flatMap.mp hb
    exact printable_escapeByte c b hc
  unfold ofText
  exact Printable.cons (by decide) (hinside.append (printable_singleton (by decide)))

theorem printable_ofString (s : String) : Printable (ofString s) := printable_ofText (asBytes s)

theorem digit_of_mem_toString {n : ℕ} {c : Char} (hc : c ∈ (toString n).toList) :
    48 ≤ c.toNat ∧ c.toNat ≤ 57 := by
  rw [Nat.toString_eq_repr, Nat.toList_repr] at hc
  have hdigit := Nat.isDigit_of_mem_toDigits (by decide) (by decide) hc
  simpa [Char.isDigit, UInt32.le_iff_toNat_le] using hdigit

theorem digit_of_mem_ofNat {n : ℕ} {b : UInt8} (hb : b ∈ ofNat n) :
    48 ≤ b.toNat ∧ b.toNat ≤ 57 := by
  rw [ofNat, asBytes_eq] at hb
  obtain ⟨c, hc, hb⟩ := List.mem_flatMap.mp hb
  obtain ⟨hlow, hhigh⟩ := digit_of_mem_toString hc
  have hascii : c.val ≤ 127 := by
    rw [UInt32.le_iff_toNat_le]
    exact le_trans hhigh (by decide)
  rw [String.utf8EncodeChar_eq_singleton (Char.utf8Size_eq_one_iff.mpr hascii),
    List.mem_singleton] at hb
  have hbyte : b.toNat = c.toNat % 256 := by
    rw [hb]
    exact UInt32.toNat_toUInt8 c.val
  omega

theorem printable_ofNat (n : ℕ) : Printable (ofNat n) := by
  intro b hb
  have hdigit := digit_of_mem_ofNat hb
  omega

theorem printable_commaSeparated {items : List Bytes} (h : ∀ item ∈ items, Printable item) :
    Printable (commaSeparated items) := by
  fun_induction commaSeparated items with
  | case1 => exact fun b hb => absurd hb List.not_mem_nil
  | case2 item => exact h item List.mem_cons_self
  | case3 item next items ih =>
    have hrest := ih fun i hi => h i (List.mem_cons_of_mem item hi)
    exact (h item List.mem_cons_self).append (hrest.cons (by decide))

theorem printable_ofArray {items : List Bytes} (h : ∀ item ∈ items, Printable item) :
    Printable (ofArray items) := by
  have hitems := printable_commaSeparated h
  exact Printable.cons (by decide) (hitems.append (printable_singleton (by decide)))

theorem printable_ofFields {fields : List (String × Bytes)}
    (h : ∀ field ∈ fields, Printable field.2) : Printable (ofFields fields) := by
  have hfields : ∀ item ∈ fields.map fun field => ofString field.1 ++ 58 :: field.2,
      Printable item := by
    intro item hitem
    obtain ⟨field, hfield, rfl⟩ := List.mem_map.mp hitem
    exact (printable_ofString field.1).append ((h field hfield).cons (by decide))
  have hitems := printable_commaSeparated hfields
  exact Printable.cons (by decide) (hitems.append (printable_singleton (by decide)))

theorem escapeByte_length_of_printable {b : UInt8} (h : 32 ≤ b.toNat) :
    (escapeByte b).length = if b = 34 ∨ b = 92 then 2 else 1 := by
  unfold escapeByte
  split
  case h_8 hquote hbackslash _ _ _ _ _ =>
    have hplain : ¬ (b = 34 ∨ b = 92) := by
      rintro (rfl | rfl)
      · exact hquote rfl
      · exact hbackslash rfl
    rw [if_neg (Nat.not_lt.mpr h), if_neg hplain]
    rfl
  case h_1 hb =>
    rw [if_pos (.inl (UInt8.toNat_inj.mp hb))]
    rfl
  case h_2 hb =>
    rw [if_pos (.inr (UInt8.toNat_inj.mp hb))]
    rfl
  all_goals omega

/-- The length of a printable text inside a string. -/
theorem length_escaped_of_printable {text : Bytes} (h : Printable text) :
    (text.flatMap escapeByte).length = text.length + specials text := by
  induction text with
  | nil => rfl
  | cons b text ih =>
    have hb := escapeByte_length_of_printable (h b List.mem_cons_self)
    have hrest := ih fun c hc => h c (List.mem_cons_of_mem b hc)
    unfold specials at hrest ⊢
    rw [List.flatMap_cons, List.length_append, List.countP_cons, hb, hrest, List.length_cons]
    by_cases hspecial : b = 34 ∨ b = 92
    · simp only [hspecial, if_true, decide_true]
      omega
    · simp only [hspecial, if_false, decide_false, Bool.false_eq_true]
      omega

/-! ## Where a value ends -/

/-- The length of the escaped byte that a text begins with. -/
def codeLength : Bytes → ℕ
  | 92 :: 117 :: _ => 6
  | 92 :: _ => 2
  | _ => 1

theorem codeLength_escapeByte (b : UInt8) (rest : Bytes) :
    codeLength (escapeByte b ++ rest) = (escapeByte b).length := by
  unfold escapeByte
  split
  case h_8 hquote hbackslash _ _ _ _ _ =>
    split
    · rfl
    · have hne : b ≠ 92 := fun h => hbackslash (h ▸ rfl)
      simp [codeLength, hne]
  all_goals rfl

def hexValue (b : UInt8) : ℕ := if b.toNat < 58 then b.toNat - 48 else b.toNat - 87

/-- The byte that is escaped so. -/
def unescapeByte : Bytes → UInt8
  | [92, 98] => 8
  | [92, 116] => 9
  | [92, 110] => 10
  | [92, 102] => 12
  | [92, 114] => 13
  | [92, b] => b
  | [_, _, _, _, high, low] => UInt8.ofNat (hexValue high * 16 + hexValue low)
  | bytes => bytes.headD 0

theorem unescapeByte_escapeByte (b : UInt8) : unescapeByte (escapeByte b) = b := by
  rcases Nat.lt_or_ge b.toNat 0x20 with hcontrol | hprintable
  · have hall : ∀ n < 0x20, unescapeByte (escapeByte (UInt8.ofNat n)) = UInt8.ofNat n := by
      decide +kernel
    have hb := hall b.toNat hcontrol
    rwa [UInt8.ofNat_toNat] at hb
  · unfold escapeByte
    split
    case h_8 =>
      rw [if_neg (Nat.not_lt.mpr hprintable)]
      simp [unescapeByte]
    case h_1 hb => exact (UInt8.toNat_inj.mp hb).symm
    case h_2 hb => exact (UInt8.toNat_inj.mp hb).symm
    all_goals omega

theorem escapeByte_append_inj {b c : UInt8} {u v : Bytes}
    (h : escapeByte b ++ u = escapeByte c ++ v) : b = c ∧ u = v := by
  have hlength := congrArg codeLength h
  rw [codeLength_escapeByte, codeLength_escapeByte] at hlength
  obtain ⟨hcode, hrest⟩ := List.append_inj h hlength
  refine ⟨?_, hrest⟩
  rw [← unescapeByte_escapeByte b, hcode, unescapeByte_escapeByte]

/-- An escaped byte does not begin as the end of the string does. -/
theorem escapeByte_append_ne (b : UInt8) (u v : Bytes) : escapeByte b ++ u ≠ 34 :: v := by
  unfold escapeByte
  split
  case h_8 hquote _ _ _ _ _ _ =>
    split
    · simp
    · intro h
      exact hquote (congrArg UInt8.toNat (List.cons.inj h).1)
  all_goals simp

theorem escaped_append_inj {text text' u v : Bytes}
    (h : text.flatMap escapeByte ++ 34 :: u = text'.flatMap escapeByte ++ 34 :: v) :
    text = text' ∧ u = v := by
  induction text generalizing text' with
  | nil =>
    cases text' with
    | nil => exact ⟨rfl, (List.cons.inj h).2⟩
    | cons c text' =>
      rw [List.flatMap_cons, List.append_assoc] at h
      exact absurd h.symm (escapeByte_append_ne c _ _)
  | cons b text ih =>
    rw [List.flatMap_cons, List.append_assoc] at h
    cases text' with
    | nil => exact absurd h (escapeByte_append_ne b _ _)
    | cons c text' =>
      rw [List.flatMap_cons, List.append_assoc] at h
      obtain ⟨rfl, hrest⟩ := escapeByte_append_inj h
      obtain ⟨rfl, rfl⟩ := ih hrest
      exact ⟨rfl, rfl⟩

theorem ofString_append_inj {s t : String} {u v : Bytes} (h : ofString s ++ u = ofString t ++ v) :
    asBytes s = asBytes t ∧ u = v := by
  unfold ofString at h
  simp only [List.cons_append, List.append_assoc, List.nil_append, List.cons.injEq, true_and] at h
  exact escaped_append_inj h

/-- The text of an object tells the string that it begins with. -/
theorem ofFields_first_inj {name s t : String} {field field' : String × Bytes}
    {fields fields' : List (String × Bytes)}
    (h : ofFields ((name, ofString s) :: field :: fields) =
      ofFields ((name, ofString t) :: field' :: fields')) : s = t := by
  simp only [ofFields, List.map_cons, commaSeparated, List.cons_append, List.append_assoc,
    List.cons.injEq, true_and, List.append_cancel_left_eq] at h
  exact asBytes_inj.mp (ofString_append_inj h).1

/-- A number goes on to the next byte that is no digit. -/
theorem ofNat_append_comma_inj {m n : ℕ} {u v : Bytes}
    (h : ofNat m ++ 44 :: u = ofNat n ++ 44 :: v) : u = v := by
  have hcomma : ∀ n, (44 : UInt8) ∉ ofNat n := fun n hmem =>
    absurd (digit_of_mem_ofNat hmem).1 (by decide)
  rcases List.append_eq_append_iff.mp h with ⟨between, hn, hu⟩ | ⟨between, hm, hv⟩
  · cases between with
    | nil => exact (List.cons.inj hu).2
    | cons b between =>
      obtain rfl := (List.cons.inj hu).1
      exact absurd (hn ▸ List.mem_append_right _ List.mem_cons_self) (hcomma n)
  · cases between with
    | nil => exact (List.cons.inj hv).2.symm
    | cons b between =>
      obtain rfl := (List.cons.inj hv).1
      exact absurd (hm ▸ List.mem_append_right _ List.mem_cons_self) (hcomma m)

end JsonText

end DSearch
