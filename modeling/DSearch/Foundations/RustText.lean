import DSearch.Foundations.SeparatedText

/-! # Texts as Rust's standard library treats them

The functions of `str`, `char` and `String` that a program calls on texts, on lists of characters:
lines and pieces, numbers as `parse` reads them, and bytes as `from_utf8_lossy` reads them. -/

namespace DSearch.RustText
set_option autoImplicit false
open SeparatedText

/-- A literal has the characters that it is written with. -/
theorem of_chars {motive : List Char → Prop} {cs : List Char} (h : motive cs) :
    motive (String.ofList cs).toList := by
  rwa [String.toList_ofList]

/-! ## Pieces -/

def contains (text pattern : String) : Bool := decide (pattern.toList <:+: text.toList)

/-- `strip_prefix`. -/
def stripPrefix (pattern cs : List Char) : Option (List Char) :=
  if pattern.isPrefixOf cs then some (cs.drop pattern.length) else none

/-- The text before the first `c`, and the text after it if there is one. -/
def splitFirst (c : Char) (cs : List Char) : List Char × Option (List Char) :=
  match cs.dropWhile (· ≠ c) with
  | [] => (cs, none)
  | _ :: rest => (cs.takeWhile (· ≠ c), some rest)

/-- `splitn`: at most `n` pieces. -/
def splitN : ℕ → Char → List Char → List (List Char)
  | 0, _, _ => []
  | 1, _, cs => [cs]
  | n + 2, c, cs =>
    match splitFirst c cs with
    | (piece, none) => [piece]
    | (piece, some rest) => piece :: splitN (n + 1) c rest

def stripCarriageReturn (line : List Char) : List Char :=
  if line.getLast? = some '\r' then line.dropLast else line

/-- `str::lines`: a carriage return goes with the line feed after it, and an empty last piece is no
line. -/
def lines (cs : List Char) : List (List Char) :=
  let pieces := cs.splitOn '\n'
  let last := pieces.getLastD []
  pieces.dropLast.map stripCarriageReturn ++ if last = [] then [] else [last]

example : lines "a\r\n\nb\r".toList = ["a".toList, [], "b\r".toList] := by decide

theorem lines_append (before after : List Char) :
    lines (before ++ '\n' :: after) =
      (before.splitOn '\n').map stripCarriageReturn ++ lines after := by
  have hne := List.splitOn_ne_nil '\n' after
  simp only [lines, List.splitOn_append_cons_self]
  rw [List.dropLast_append_of_ne_nil hne, List.map_append, List.append_assoc,
    List.getLastD_eq_getLast?, List.getLastD_eq_getLast?, List.getLast?_append_of_ne_nil _ hne]

theorem splitFirst_of_not_mem {c : Char} {cs : List Char} (h : c ∉ cs) :
    splitFirst c cs = (cs, none) := by
  have hall : cs.dropWhile (· ≠ c) = [] := by
    rw [List.dropWhile_eq_nil_iff]
    intro d hd
    have hne : d ≠ c := fun hdc => h (hdc ▸ hd)
    simpa using hne
  rw [splitFirst, hall]

theorem splitFirst_append {c : Char} {a : List Char} (h : c ∉ a) (b : List Char) :
    splitFirst c (a ++ c :: b) = (a, some b) := by
  have hall : ∀ d ∈ a, decide (d ≠ c) = true := by
    intro d hd
    have hne : d ≠ c := fun hdc => h (hdc ▸ hd)
    simpa using hne
  rw [splitFirst, List.dropWhile_append_of_pos hall, List.takeWhile_append_of_pos hall]
  simp

theorem eq_append_of_splitFirst {c : Char} {cs a b : List Char} (h : splitFirst c cs = (a, some b)) :
    cs = a ++ c :: b := by
  by_cases hmem : c ∈ cs
  · obtain ⟨before, after, rfl, hbefore⟩ := List.eq_append_cons_of_mem hmem
    rw [splitFirst_append hbefore] at h
    obtain ⟨rfl, hafter⟩ := Prod.mk.inj h
    rw [Option.some.inj hafter]
  · rw [splitFirst_of_not_mem hmem] at h
    cases h

theorem splitFirst_isPrefix (c : Char) (cs : List Char) : (splitFirst c cs).1 <+: cs := by
  unfold splitFirst
  split
  · exact List.prefix_refl cs
  · exact List.takeWhile_prefix _

theorem not_mem_splitFirst (c : Char) (cs : List Char) : c ∉ (splitFirst c cs).1 := by
  by_cases hmem : c ∈ cs
  · obtain ⟨a, b, rfl, ha⟩ := List.eq_append_cons_of_mem hmem
    rwa [splitFirst_append ha]
  · rwa [splitFirst_of_not_mem hmem]

theorem stripCarriageReturn_cases (line : List Char) :
    stripCarriageReturn line = line ∨ line = stripCarriageReturn line ++ ['\r'] := by
  unfold stripCarriageReturn
  split
  next h =>
    right
    obtain ⟨ys, rfl⟩ := List.getLast?_eq_some_iff.mp h
    rw [List.dropLast_concat]
  next => exact .inl rfl

theorem lines_of_not_mem {cs : List Char} (h : '\n' ∉ cs) (hne : cs ≠ []) : lines cs = [cs] := by
  simp [lines, List.splitOn_eq_singleton h, hne]

theorem lines_cons {a : List Char} (h : '\n' ∉ a) (b : List Char) :
    lines (a ++ '\n' :: b) = stripCarriageReturn a :: lines b := by
  rw [lines_append, List.splitOn_eq_singleton h]
  rfl

theorem infix_of_mem_lines {cs line : List Char} (h : line ∈ lines cs) : line <:+: cs := by
  induction cs using piece_induction '\n' with
  | one a ha =>
    by_cases hne : a = []
    · subst hne
      simp [lines] at h
    · rw [lines_of_not_mem ha hne, List.mem_singleton] at h
      rw [h]
  | more a b ha ih =>
    rw [lines_cons ha, List.mem_cons] at h
    rcases h with rfl | h
    · refine List.IsInfix.trans ?_ (List.prefix_append a ('\n' :: b)).isInfix
      rcases stripCarriageReturn_cases a with hsame | hstrip
      · rw [hsame]
      · exact ⟨[], ['\r'], hstrip.symm⟩
    · exact (ih h).trans ((List.suffix_cons '\n' b).trans (List.suffix_append a _)).isInfix

theorem length_lines_le (cs : List Char) : (lines cs).length ≤ cs.count '\n' + 1 := by
  induction cs using piece_induction '\n' with
  | one a ha =>
    by_cases hne : a = []
    · subst hne
      simp [lines]
    · simp [lines_of_not_mem ha hne]
  | more a b ha ih =>
    rw [lines_cons ha, List.length_cons, List.count_append, List.count_cons_self]
    omega

/-! ## Numbers -/

def digitValue (c : Char) : Option ℕ :=
  if '0' ≤ c ∧ c ≤ '9' then some (c.toNat - 48) else none

/-- A non-empty text of decimal digits. -/
def parseDigits (cs : List Char) : Option ℕ :=
  if cs = [] then none
  else cs.foldlM (fun n c => (digitValue c).map fun d => 10 * n + d) 0

/-- `parse` for an unsigned type with `bound` values; a leading `+` is allowed. -/
def parseUnsigned (bound : ℕ) (cs : List Char) : Option ℕ :=
  (parseDigits (if cs.head? = some '+' then cs.tail else cs)).filter (· < bound)

theorem foldlM_digits {cs : List Char} (hdigits : ∀ c ∈ cs, c.isDigit = true) (n : ℕ) :
    cs.foldlM (fun n c => (digitValue c).map fun d => 10 * n + d) n =
      some (Nat.ofDigitChars 10 cs n) := by
  induction cs generalizing n with
  | nil => rfl
  | cons c cs ih =>
    have hvalue : digitValue c = some (c.toNat - '0'.toNat) := by
      have hc := hdigits c List.mem_cons_self
      rw [digitValue, if_pos]
      · rfl
      · simpa [Char.isDigit, Char.le_def] using hc
    rw [List.foldlM_cons, hvalue, Option.map_some]
    exact ih (fun d hd => hdigits d (List.mem_cons_of_mem c hd)) _

theorem isDigit_of_mem_toDigits {n : ℕ} {c : Char} (hc : c ∈ Nat.toDigits 10 n) :
    c.isDigit = true :=
  Nat.isDigit_of_mem_toDigits (by decide) (by decide) hc

theorem parseDigits_toString (n : ℕ) : parseDigits (toString n).toList = some n := by
  rw [Nat.toString_eq_repr, Nat.toList_repr, parseDigits, if_neg Nat.toDigits_ne_nil,
    foldlM_digits fun _ => isDigit_of_mem_toDigits, Nat.ofDigitChars_ten_toDigits]

theorem parseUnsigned_toString {n bound : ℕ} (h : n < bound) :
    parseUnsigned bound (toString n).toList = some n := by
  have hplus : (toString n).toList.head? ≠ some '+' := by
    intro hhead
    rw [Nat.toString_eq_repr, Nat.toList_repr] at hhead
    exact absurd (isDigit_of_mem_toDigits (List.mem_of_head? hhead)) (by decide)
  rw [parseUnsigned, if_neg hplus, parseDigits_toString]
  simp [h]

/-- `parse::<i32>`. -/
def parseI32 (cs : List Char) : Option ℤ :=
  if cs.head? = some '-' then
    ((parseDigits cs.tail).filter (· ≤ 2 ^ 31)).map fun n => -(n : ℤ)
  else (parseUnsigned (2 ^ 31) cs).map fun n => (n : ℤ)

example : parseUnsigned 256 "+255".toList = some 255 ∧ parseUnsigned 256 "256".toList = none ∧
    parseUnsigned 256 "+".toList = none ∧ parseI32 "-7".toList = some (-7) := by decide

/-! ## Bytes -/

def replacement : Char := Char.ofNat 0xFFFD

/-- Where a decoder stands: the characters so far, and inside a sequence its value so far, the number
of bytes that are owed and the bounds of the next one. -/
structure Decoder where
  chars : List Char
  value : ℕ
  owed : ℕ
  low : ℕ
  high : ℕ

/-- A byte where a sequence begins. -/
def Decoder.first (chars : List Char) (b : ℕ) : Decoder :=
  if b < 0x80 then ⟨chars ++ [Char.ofNat b], 0, 0, 0, 0⟩
  else if 0xC2 ≤ b ∧ b ≤ 0xDF then ⟨chars, b % 32, 1, 0x80, 0xBF⟩
  else if b = 0xE0 then ⟨chars, 0, 2, 0xA0, 0xBF⟩
  else if b = 0xED then ⟨chars, b % 16, 2, 0x80, 0x9F⟩
  else if 0xE1 ≤ b ∧ b ≤ 0xEF then ⟨chars, b % 16, 2, 0x80, 0xBF⟩
  else if b = 0xF0 then ⟨chars, 0, 3, 0x90, 0xBF⟩
  else if 0xF1 ≤ b ∧ b ≤ 0xF3 then ⟨chars, b % 8, 3, 0x80, 0xBF⟩
  else if b = 0xF4 then ⟨chars, 4, 3, 0x80, 0x8F⟩
  else ⟨chars ++ [replacement], 0, 0, 0, 0⟩

/-- A sequence that does not go on is replaced as far as it went, and the byte that ends it begins
the next one. -/
def Decoder.step (d : Decoder) (byte : UInt8) : Decoder :=
  let b := byte.toNat
  if d.owed = 0 then first d.chars b
  else if d.low ≤ b ∧ b ≤ d.high then
    let value := d.value * 64 + b % 64
    if d.owed = 1 then ⟨d.chars ++ [Char.ofNat value], 0, 0, 0, 0⟩
    else ⟨d.chars, value, d.owed - 1, 0x80, 0xBF⟩
  else first (d.chars ++ [replacement]) b

/-- `String::from_utf8_lossy`. -/
def fromUtf8Lossy (bytes : List UInt8) : List Char :=
  let d := bytes.foldl Decoder.step ⟨[], 0, 0, 0, 0⟩
  if d.owed = 0 then d.chars else d.chars ++ [replacement]

example : fromUtf8Lossy [0x61, 0xC3, 0xA9, 0xE2, 0x82, 0x62, 0xFF, 0xF0, 0x9F] =
    ['a', 'é', replacement, 'b', replacement, replacement] := by decide

end DSearch.RustText
