import DSearch.Foundations.LossyText

/-! # Bytes that are a text

`from_utf8` accepts what is the UTF-8 of some characters. All JSON that is written is. -/

namespace DSearch.RustText
set_option autoImplicit false
open Utf8Text JsonText String

/-- `from_utf8`: what is no text does not come back from the characters that are read for it. -/
def fromUtf8 (bytes : List UInt8) : Option (List Char) :=
  if encode (fromUtf8Lossy bytes) = bytes then some (fromUtf8Lossy bytes) else none

def IsText (bytes : List UInt8) : Prop := ∃ cs, bytes = encode cs

theorem fromUtf8_eq_some_iff {bytes : List UInt8} {cs : List Char} :
    fromUtf8 bytes = some cs ↔ bytes = encode cs := by
  unfold fromUtf8
  constructor
  · intro h
    split at h
    · next hback =>
      rw [← Option.some.inj h]
      exact hback.symm
    · cases h
  · rintro rfl
    rw [fromUtf8Lossy_encode, if_pos rfl]

theorem isText_of_isSome {bytes : List UInt8} (h : (fromUtf8 bytes).isSome = true) :
    IsText bytes := by
  obtain ⟨cs, hcs⟩ := Option.isSome_iff_exists.mp h
  exact ⟨cs, fromUtf8_eq_some_iff.mp hcs⟩

theorem isText_asBytes (s : String) : IsText (asBytes s) := ⟨s.toList, (encode_toList s).symm⟩

theorem IsText.append {bytes bytes' : List UInt8} (h : IsText bytes) (h' : IsText bytes') :
    IsText (bytes ++ bytes') := by
  obtain ⟨cs, rfl⟩ := h
  obtain ⟨cs', rfl⟩ := h'
  exact ⟨cs ++ cs', (encode_append cs cs').symm⟩

/-- The bytes of a character: one below `0x80`, or none. -/
theorem utf8EncodeChar_bytes (c : Char) :
    (∃ byte : UInt8, byte.toNat < 0x80 ∧ utf8EncodeChar c = [byte]) ∨
      ∀ byte ∈ utf8EncodeChar c, 0x80 ≤ byte.toNat := by
  have hhigh : ∀ (n size base : ℕ), 0x80 ≤ base → base + size ≤ 256 → 0 < size →
      0x80 ≤ (UInt8.ofNat (n % size + base)).toNat := by
    intro n size base hbase hfits hpos
    have hlt := Nat.mod_lt n hpos
    rw [toNat_byte (by omega)]
    omega
  fun_cases utf8EncodeChar
  case case1 v h =>
    exact .inl ⟨_, by rw [toNat_byte (by omega)]; omega, rfl⟩
  all_goals
    refine .inr fun byte hbyte => ?_
    simp only [List.mem_cons, List.not_mem_nil, or_false] at hbyte
  case case2 v h1 h2 =>
    rcases hbyte with rfl | rfl
    · exact hhigh _ 0x20 0xc0 (by decide) (by decide) (by decide)
    · exact hhigh _ 0x40 0x80 (by decide) (by decide) (by decide)
  case case3 v h1 h2 h3 =>
    rcases hbyte with rfl | rfl | rfl
    · exact hhigh _ 0x10 0xe0 (by decide) (by decide) (by decide)
    · exact hhigh _ 0x40 0x80 (by decide) (by decide) (by decide)
    · exact hhigh _ 0x40 0x80 (by decide) (by decide) (by decide)
  case case4 v h1 h2 h3 =>
    rcases hbyte with rfl | rfl | rfl | rfl
    · exact hhigh _ 0x08 0xf0 (by decide) (by decide) (by decide)
    · exact hhigh _ 0x40 0x80 (by decide) (by decide) (by decide)
    · exact hhigh _ 0x40 0x80 (by decide) (by decide) (by decide)
    · exact hhigh _ 0x40 0x80 (by decide) (by decide) (by decide)

/-! ## JSON is text -/

theorem escapeByte_of_high {byte : UInt8} (h : 0x80 ≤ byte.toNat) : escapeByte byte = [byte] := by
  unfold escapeByte
  split <;> first | omega | exact if_neg (by omega)

theorem isText_singleton {byte : UInt8} (h : byte.toNat < 0x80) : IsText [byte] := by
  refine ⟨[Char.ofNat byte.toNat], ?_⟩
  have hval : (Char.ofNat byte.toNat).toNat = byte.toNat := by
    rw [Char.toNat_ofNat, if_pos (.inl (by omega))]
  have hsize : (Char.ofNat byte.toNat).utf8Size = 1 := by
    rw [Char.utf8Size_eq_one_iff, UInt32.le_iff_toNat_le]
    exact hval.trans_le (Nat.le_of_lt_succ h)
  have hbyte : (Char.ofNat byte.toNat).val.toUInt8 = byte := by
    rw [← UInt8.toNat_inj, UInt32.toNat_toUInt8]
    exact (congrArg (· % 2 ^ 8) hval).trans (Nat.mod_eq_of_lt byte.toNat_lt)
  rw [encode_cons, encode_nil, List.append_nil, utf8EncodeChar_eq_singleton hsize, hbyte]

theorem isText_of_low {bytes : List UInt8} (h : ∀ byte ∈ bytes, byte.toNat < 0x80) :
    IsText bytes := by
  induction bytes with
  | nil => exact ⟨[], rfl⟩
  | cons byte bytes ih =>
    obtain ⟨hbyte, hrest⟩ := List.forall_mem_cons.mp h
    exact (isText_singleton hbyte).append (ih hrest)

theorem isText_escapeByte {byte : UInt8} (h : byte.toNat < 0x80) : IsText (escapeByte byte) := by
  refine isText_of_low ?_
  have hdigit : ∀ n < 16, (hexDigit n).toNat < 0x80 := by decide
  unfold escapeByte
  split
  case h_8 =>
    split
    · have hhigh := hdigit (byte.toNat / 16) (by omega)
      have hlow := hdigit (byte.toNat % 16) (by omega)
      simp [hhigh, hlow]
    · simpa using h
  all_goals simp

theorem isText_escaped (cs : List Char) : IsText ((encode cs).flatMap escapeByte) := by
  induction cs with
  | nil => exact ⟨[], rfl⟩
  | cons c cs ih =>
    rw [encode_cons, List.flatMap_append]
    refine IsText.append ?_ ih
    rcases utf8EncodeChar_bytes c with ⟨byte, hlow, hbytes⟩ | hhigh
    · rw [hbytes, List.flatMap_singleton]
      exact isText_escapeByte hlow
    · refine ⟨[c], ?_⟩
      have hsame : (utf8EncodeChar c).flatMap escapeByte = (utf8EncodeChar c).flatMap fun b => [b] :=
        List.flatMap_congr fun byte hbyte => escapeByte_of_high (hhigh byte hbyte)
      rw [hsame, List.flatMap_singleton', encode_cons, encode_nil, List.append_nil]

theorem isText_ofString (s : String) : IsText (ofString s) := by
  have hquote : IsText [34] := ⟨['"'], rfl⟩
  have hescaped := isText_escaped s.toList
  rw [encode_toList] at hescaped
  exact (hquote.append hescaped).append hquote

theorem isText_ofNat (n : ℕ) : IsText (ofNat n) := isText_asBytes _

theorem isText_commaSeparated {items : List (List UInt8)} (h : ∀ item ∈ items, IsText item) :
    IsText (commaSeparated items) := by
  fun_induction commaSeparated items with
  | case1 => exact ⟨[], rfl⟩
  | case2 item => exact h item List.mem_cons_self
  | case3 item next items ih =>
    have hcomma : IsText [44] := ⟨[','], rfl⟩
    have hrest := ih fun other hother => h other (List.mem_cons_of_mem _ hother)
    exact (h item List.mem_cons_self).append (hcomma.append hrest)

theorem isText_ofArray {items : List (List UInt8)} (h : ∀ item ∈ items, IsText item) :
    IsText (ofArray items) := by
  have hopen : IsText [91] := ⟨['['], rfl⟩
  have hclose : IsText [93] := ⟨[']'], rfl⟩
  exact (hopen.append (isText_commaSeparated h)).append hclose

theorem isText_ofFields {fields : List (String × List UInt8)}
    (h : ∀ field ∈ fields, IsText field.2) : IsText (ofFields fields) := by
  have hopen : IsText [123] := ⟨[Char.ofNat 123], rfl⟩
  have hclose : IsText [125] := ⟨[Char.ofNat 125], rfl⟩
  have hcolon : IsText [58] := ⟨[':'], rfl⟩
  refine (hopen.append (isText_commaSeparated fun item hitem => ?_)).append hclose
  obtain ⟨field, hfield, rfl⟩ := List.mem_map.mp hitem
  exact (isText_ofString field.1).append (hcolon.append (h field hfield))

end DSearch.RustText
