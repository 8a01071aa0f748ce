import DSearch.Model.Record

/-! # `sanitize.rs`

Strings lose their control and format characters, newlines apart; bodies and the two sides of a tag
have size limits. Times, the source, the refresh policy and the signature pass unchanged. -/

namespace DSearch.Sanitize
set_option autoImplicit false

def MAX_KEY_SIZE : ℕ := 256

def MAX_VALUE_SIZE : ℕ := 65_536

/-- `char::is_control`: the Unicode category Cc. -/
def isControl (ch : Char) : Bool := ch.toNat < 0x20 || (0x7f ≤ ch.toNat && ch.toNat < 0xa0)

/-- The ranges of Unicode format characters (Cf category) that the code knows. -/
def formatRanges : List (ℕ × ℕ) :=
  [(0x00AD, 0x00AD), (0x0600, 0x0605), (0x061C, 0x061C), (0x06DD, 0x06DD), (0x070F, 0x070F),
    (0x0890, 0x0891), (0x08E2, 0x08E2), (0x180E, 0x180E), (0x200B, 0x200F), (0x2028, 0x202E),
    (0x2060, 0x2064), (0x2066, 0x206F), (0xFEFF, 0xFEFF), (0xFFF9, 0xFFFB), (0x13430, 0x1343F)]

def isFormatChar (ch : Char) : Bool :=
  formatRanges.any fun range => range.1 ≤ ch.toNat && ch.toNat ≤ range.2

def sanitizeString (input : String) : String :=
  String.ofList (input.toList.filter fun ch => ch = '\n' || !(isControl ch || isFormatChar ch))

example : sanitizeString "a\x00b\nc" = "ab\nc" := by decide +kernel

def bytesText (n : ℕ) : String := "(" ++ toString n ++ " bytes)"

def validateBodySize (body : String) : Except String Unit :=
  if body.utf8ByteSize > MAX_RECORD_SIZE then
    .error ("record body exceeds 1 MB limit " ++ bytesText body.utf8ByteSize)
  else .ok ()

def validateKeySize (key : String) : Except String Unit :=
  if key.utf8ByteSize > MAX_KEY_SIZE then
    .error ("tag key exceeds 256 byte limit " ++ bytesText key.utf8ByteSize)
  else .ok ()

def validateValueSize (value : String) : Except String Unit :=
  if value.utf8ByteSize > MAX_VALUE_SIZE then
    .error ("tag value exceeds 64 KB limit " ++ bytesText value.utf8ByteSize)
  else .ok ()

/-- `split_once(':')`. -/
def splitOnce (tag : String) : Option (String × String) :=
  match tag.toList.dropWhile (· ≠ ':') with
  | [] => none
  | _ :: value => some (String.ofList (tag.toList.takeWhile (· ≠ ':')), String.ofList value)

def sanitizeTag (tag : String) : Except String String := do
  let sanitizedTag := sanitizeString tag
  match splitOnce sanitizedTag with
  | some (key, value) =>
    validateKeySize key
    validateValueSize value
  | none => pure ()
  return sanitizedTag

def sanitizeRecord (record : ContentRecord) : Except String ContentRecord := do
  let body := sanitizeString record.body
  validateBodySize body
  let tags ← record.tags.mapM sanitizeTag
  return { record with
    id := sanitizeString record.id
    sourceUrl := sanitizeString record.sourceUrl
    sourceHash := sanitizeString record.sourceHash
    schema := sanitizeString record.schema
    tags := tags
    body := body }

theorem sanitizeRecord_eq_ok {record sanitized : ContentRecord} :
    sanitizeRecord record = .ok sanitized ↔
      validateBodySize (sanitizeString record.body) = .ok () ∧
        ∃ tags, record.tags.mapM sanitizeTag = .ok tags ∧
          sanitized = { record with
            id := sanitizeString record.id
            sourceUrl := sanitizeString record.sourceUrl
            sourceHash := sanitizeString record.sourceHash
            schema := sanitizeString record.schema
            tags := tags
            body := sanitizeString record.body } := by
  unfold sanitizeRecord
  cases hbody : validateBodySize (sanitizeString record.body) with
  | error e => simp [hbody, bind, Except.bind]
  | ok _ =>
    cases htags : record.tags.mapM sanitizeTag with
    | error e => simp [hbody, bind, Except.bind]
    | ok tags => simp [hbody, bind, Except.bind, pure, Except.pure, eq_comm]

theorem sanitizeRecord_times {record sanitized : ContentRecord}
    (h : sanitizeRecord record = .ok sanitized) :
    sanitized.createdAt = record.createdAt ∧ sanitized.expiresAt = record.expiresAt := by
  obtain ⟨-, tags, -, rfl⟩ := sanitizeRecord_eq_ok.mp h
  exact ⟨rfl, rfl⟩

/-! ## What sanitizing leaves -/

def isKept (ch : Char) : Bool := ch = '\n' || !(isControl ch || isFormatChar ch)

theorem isKept_ascii {ch : Char} (hlow : 0x20 ≤ ch.toNat) (hhigh : ch.toNat < 0x7f) :
    isKept ch = true := by
  have hcontrol : isControl ch = false := by
    simp only [isControl, Bool.or_eq_false_iff, Bool.and_eq_false_iff, decide_eq_false_iff_not]
    omega
  have hformat : isFormatChar ch = false := by
    simp only [isFormatChar, formatRanges, List.any_cons, List.any_nil, Bool.or_eq_false_iff,
      Bool.and_eq_false_iff, decide_eq_false_iff_not, and_true]
    omega
  simp [isKept, hcontrol, hformat]

theorem isKept_hexadecimal {ch : Char} (h : ('0' ≤ ch ∧ ch ≤ '9') ∨ ('a' ≤ ch ∧ ch ≤ 'f')) :
    isKept ch = true := by
  rcases h with ⟨hlow, hhigh⟩ | ⟨hlow, hhigh⟩
  · have hlow : 0x30 ≤ ch.toNat := UInt32.le_iff_toNat_le.mp hlow
    have hhigh : ch.toNat ≤ 0x39 := UInt32.le_iff_toNat_le.mp hhigh
    exact isKept_ascii (by omega) (by omega)
  · have hlow : 0x61 ≤ ch.toNat := UInt32.le_iff_toNat_le.mp hlow
    have hhigh : ch.toNat ≤ 0x66 := UInt32.le_iff_toNat_le.mp hhigh
    exact isKept_ascii (by omega) (by omega)

theorem toList_sanitizeString (input : String) :
    (sanitizeString input).toList = input.toList.filter isKept := String.toList_ofList

theorem sanitizeString_eq_self_iff {input : String} :
    sanitizeString input = input ↔ ∀ ch ∈ input.toList, isKept ch = true := by
  rw [← String.toList_inj, toList_sanitizeString, List.filter_eq_self]

theorem sanitizeString_ascii {cs : List Char}
    (h : cs.all (fun ch => 0x20 ≤ ch.toNat && ch.toNat < 0x7f) = true) :
    sanitizeString (String.ofList cs) = String.ofList cs := by
  refine sanitizeString_eq_self_iff.mpr fun ch hch => ?_
  rw [String.toList_ofList] at hch
  have hrange := List.all_eq_true.mp h ch hch
  rw [Bool.and_eq_true, decide_eq_true_eq, decide_eq_true_eq] at hrange
  exact isKept_ascii hrange.1 hrange.2

theorem sanitizeString_letters (length : ℕ) :
    sanitizeString (JsonText.letters length) = JsonText.letters length := by
  refine sanitizeString_ascii (List.all_eq_true.mpr fun ch hch => ?_)
  rw [List.eq_of_mem_replicate hch]
  decide

theorem isKept_of_mem_sanitizeString {input : String} {ch : Char}
    (h : ch ∈ (sanitizeString input).toList) : isKept ch = true := by
  rw [toList_sanitizeString] at h
  exact (List.mem_filter.mp h).2

@[simp] theorem sanitizeString_idem (input : String) :
    sanitizeString (sanitizeString input) = sanitizeString input :=
  sanitizeString_eq_self_iff.mpr fun _ => isKept_of_mem_sanitizeString

theorem sanitizeTag_eq_ok {tag sanitized : String} (h : sanitizeTag tag = .ok sanitized) :
    sanitized = sanitizeString tag ∧ sanitizeTag sanitized = .ok sanitized := by
  have hself : sanitizeTag (sanitizeString tag) = sanitizeTag tag := by
    unfold sanitizeTag
    rw [sanitizeString_idem]
  have hsanitized : sanitized = sanitizeString tag := by
    unfold sanitizeTag at h
    dsimp only at h
    split at h
    · next key value _ =>
      cases hkey : validateKeySize key <;> cases hvalue : validateValueSize value <;>
        simp_all [bind, Except.bind, pure, Except.pure]
    · simp_all [pure, Except.pure]
  exact ⟨hsanitized, by rw [hsanitized, hself, h, hsanitized]⟩

theorem mapM_sanitizeTag_eq_ok {tags sanitized : List String}
    (h : tags.mapM sanitizeTag = .ok sanitized) :
    sanitized = tags.map sanitizeString ∧ sanitized.mapM sanitizeTag = .ok sanitized := by
  induction tags generalizing sanitized with
  | nil =>
    obtain rfl := Except.ok.inj h
    exact ⟨rfl, rfl⟩
  | cons tag tags ih =>
    rw [List.mapM_cons] at h
    cases htag : sanitizeTag tag with
    | error e => simp [htag, bind, Except.bind] at h
    | ok first =>
      cases htags : tags.mapM sanitizeTag with
      | error e => simp [htag, htags, bind, Except.bind] at h
      | ok rest =>
        obtain ⟨hfirst, hfirstAgain⟩ := sanitizeTag_eq_ok htag
        obtain ⟨hrest, hrestAgain⟩ := ih htags
        have hsanitized : first :: rest = sanitized := by
          simpa [htag, htags, bind, Except.bind, pure, Except.pure] using h
        subst hsanitized
        refine ⟨by rw [List.map_cons, hfirst, hrest], ?_⟩
        rw [List.mapM_cons, hfirstAgain, hrestAgain]
        rfl

theorem sanitizeTag_ascii {cs : List Char}
    (h : cs.all (fun ch => 0x20 ≤ ch.toNat && ch.toNat < 0x7f) = true) (hshort : cs.length ≤ 64) :
    sanitizeTag (String.ofList cs) = .ok (String.ofList cs) := by
  have hsize : ∀ {part : List Char}, part.length ≤ cs.length →
      (String.ofList part).utf8ByteSize ≤ MAX_KEY_SIZE := by
    intro part hpart
    have hbytes := JsonText.utf8ByteSize_ofList_le part
    unfold MAX_KEY_SIZE
    omega
  have hkey := hsize (List.takeWhile_sublist (· ≠ ':')).length_le
  unfold sanitizeTag
  simp only [sanitizeString_ascii h, splitOnce, String.toList_ofList]
  cases hrest : cs.dropWhile (· ≠ ':') with
  | nil => rfl
  | cons colon value =>
    have hlength : value.length ≤ cs.length := by
      have hle := (List.dropWhile_sublist (· ≠ ':') (l := cs)).length_le
      rw [hrest, List.length_cons] at hle
      omega
    have hvalue : (String.ofList value).utf8ByteSize ≤ MAX_VALUE_SIZE := (hsize hlength).trans (by decide)
    simp only [validateKeySize, validateValueSize, if_neg (Nat.not_lt.mpr hkey),
      if_neg (Nat.not_lt.mpr hvalue)]
    rfl

theorem mapM_sanitizeTag_literals {cs cs' : List Char}
    (h : (cs ++ cs').all (fun ch => 0x20 ≤ ch.toNat && ch.toNat < 0x7f) = true)
    (hshort : (cs ++ cs').length ≤ 64) :
    [String.ofList cs ++ String.ofList cs'].mapM sanitizeTag =
      .ok [String.ofList cs ++ String.ofList cs'] := by
  rw [List.mapM_cons, ← String.ofList_append, sanitizeTag_ascii h hshort]
  rfl

/-- No text of the record has a character that is removed, and none is too large. -/
structure Unchanged (record : ContentRecord) : Prop where
  id : sanitizeString record.id = record.id
  sourceUrl : sanitizeString record.sourceUrl = record.sourceUrl
  sourceHash : sanitizeString record.sourceHash = record.sourceHash
  schema : sanitizeString record.schema = record.schema
  tags : record.tags.mapM sanitizeTag = .ok record.tags
  body : sanitizeString record.body = record.body
  bodySize : record.body.utf8ByteSize ≤ MAX_RECORD_SIZE

theorem Unchanged.sanitizeRecord {record : ContentRecord} (h : Unchanged record) :
    sanitizeRecord record = .ok record := by
  refine sanitizeRecord_eq_ok.mpr ⟨?_, record.tags, h.tags, ?_⟩
  · rw [h.body]
    exact if_neg (Nat.not_lt.mpr h.bodySize)
  · rw [h.id, h.sourceUrl, h.sourceHash, h.schema, h.body]

/-- A sanitized record passes unchanged. -/
theorem sanitizeRecord_sanitized {record sanitized : ContentRecord}
    (h : sanitizeRecord record = .ok sanitized) : sanitizeRecord sanitized = .ok sanitized := by
  obtain ⟨hbody, tags, htags, rfl⟩ := sanitizeRecord_eq_ok.mp h
  refine sanitizeRecord_eq_ok.mpr ⟨?_, tags, (mapM_sanitizeTag_eq_ok htags).2, ?_⟩
  · rw [sanitizeString_idem]
    exact hbody
  · simp only [sanitizeString_idem]

end DSearch.Sanitize
