import DSearch.Foundations.Utf8Text
import DSearch.Model.Sanitize
import DSearch.Trust.SourceUrl

/-! # Record ids of sanitized records

A record id is the digest of the length-prefixed fields, and the scrapers compute it before they
sanitize. The prefix is the length modulo `2^32`, so the encoding is not injective on fields of every
length; what sanitizing does to the fields is enough for the encodings of a record and of its sanitized
form to be equal only if the fields are. -/

namespace DSearch
set_option autoImplicit false
open Sign Sanitize Utf8Text

/-! ## Length prefixes -/

namespace Sign

theorem length_lengthPrefix (n : ℕ) : (lengthPrefix n).length = 4 := rfl

theorem lengthPrefix_eq_iff {m n : ℕ} :
    lengthPrefix m = lengthPrefix n ↔ m % 2 ^ 32 = n % 2 ^ 32 := by
  simp only [lengthPrefix, List.cons.injEq, and_true, ← UInt8.toNat_inj, UInt8.toNat_ofNat']
  omega

/-- The length prefix of a field and the field, before the bytes of the fields after it. -/
theorem canonicalEncodeFields_cons (field : Bytes) (fields : List Bytes) :
    canonicalEncodeFields (field :: fields) =
      lengthPrefix field.length ++ (field ++ canonicalEncodeFields fields) := by
  rw [canonicalEncodeFields, List.flatMap_cons, List.append_assoc]
  rfl

theorem canonicalEncodeFields_cons_inj (field : Bytes) {fields fields' : List Bytes} :
    canonicalEncodeFields (field :: fields) = canonicalEncodeFields (field :: fields') ↔
      canonicalEncodeFields fields = canonicalEncodeFields fields' := by
  simp [canonicalEncodeFields_cons]

end Sign

/-! ## A field and its sanitized form -/

/-- A text without kept characters reads nowhere a character that is kept. -/
theorem length_removed_lt {removed : List Char} {ch : Char} {before rest rest' : Bytes}
    (hremoved : ∀ c ∈ removed, isKept c = false) (hkept : isKept ch = true)
    (h : encode removed ++ rest = before ++ (String.utf8EncodeChar ch ++ rest')) :
    (encode removed).length < before.length + 4 := by
  by_contra hlong
  have hsize := ch.utf8Size_le_four
  have hread : before ++ String.utf8EncodeChar ch <+: encode removed ++ rest := by
    rw [h, ← List.append_assoc]
    exact List.prefix_append _ _
  have hroom : (before ++ String.utf8EncodeChar ch).length ≤ (encode removed).length := by
    rw [List.length_append, String.length_utf8EncodeChar]
    omega
  obtain ⟨after, hafter⟩ := List.prefix_of_prefix_length_le hread (List.prefix_append _ _) hroom
  rw [List.append_assoc] at hafter
  have hmem := mem_of_encode_eq hafter.symm
  rw [hremoved ch hmem] at hkept
  cases hkept

/-- Two encodings that begin with a field and with its sanitized form: sanitizing changed nothing, or
it removed `2^32` bytes at least, and the bytes removed are those that follow the sanitized field. -/
theorem sanitized_field {field : String} {fields fields' : List Bytes}
    (h : canonicalEncodeFields (asBytes field :: fields) =
      canonicalEncodeFields (asBytes (sanitizeString field) :: fields')) :
    (sanitizeString field = field ∧ canonicalEncodeFields fields = canonicalEncodeFields fields') ∨
      ∃ removed, (∀ c ∈ removed, isKept c = false) ∧ 2 ^ 32 ≤ (encode removed).length ∧
        encode removed ++ canonicalEncodeFields fields = canonicalEncodeFields fields' := by
  rw [canonicalEncodeFields_cons, canonicalEncodeFields_cons] at h
  obtain ⟨hlength, hrest⟩ := List.append_inj h rfl
  rw [lengthPrefix_eq_iff] at hlength
  have hle : (asBytes (sanitizeString field)).length ≤ (asBytes field).length := by
    rw [← encode_toList, ← encode_toList, toList_sanitizeString]
    exact (List.Sublist.flatMap List.filter_sublist _).length_le
  -- the sanitized field is where the field begins
  obtain ⟨removedBytes, hfield⟩ := List.prefix_of_prefix_length_le
    (hrest ▸ List.prefix_append (asBytes (sanitizeString field)) _) (List.prefix_append _ _) hle
  rw [← encode_toList, ← encode_toList] at hfield
  obtain ⟨removed, hchars, hbytes⟩ := eq_append_of_encode_eq hfield.symm
  have hremoved : ∀ c ∈ removed, isKept c = false := by
    have hfilter : (sanitizeString field).toList =
        (sanitizeString field).toList.filter isKept ++ removed.filter isKept := by
      rw [← List.filter_append, ← hchars, toList_sanitizeString]
    rw [← toList_sanitizeString, sanitizeString_idem, List.self_eq_append_right,
      List.filter_eq_nil_iff] at hfilter
    exact fun c hc => Bool.eq_false_of_not_eq_true (hfilter c hc)
  have hwhole : (asBytes field).length =
      (asBytes (sanitizeString field)).length + (encode removed).length := by
    rw [← encode_toList, ← encode_toList, hchars, encode_append, List.length_append]
  by_cases hnone : removed = []
  · left
    have hsame : sanitizeString field = field := by
      rw [← String.toList_inj, hchars, hnone, List.append_nil]
    rw [hsame] at hrest
    exact ⟨hsame, List.append_cancel_left hrest⟩
  · right
    have hpositive : 0 < (encode removed).length :=
      List.length_pos_of_ne_nil (mt encode_eq_nil.mp hnone)
    refine ⟨removed, hremoved, by omega, ?_⟩
    rw [← encode_toList, hchars, encode_append, encode_toList, List.append_assoc] at hrest
    exact List.append_cancel_left hrest

/-! ## The fields of an id -/

theorem exists_first {text : String} (h : text ≠ "") :
    ∃ ch ∈ text.toList, ∃ rest, asBytes text = String.utf8EncodeChar ch ++ rest := by
  cases htext : text.toList with
  | nil => exact absurd (String.toList_eq_nil_iff.mp htext) h
  | cons ch chs =>
    refine ⟨ch, List.mem_cons_self, encode chs, ?_⟩
    rw [← encode_toList, htext, encode_cons]

/-- Before a field with kept characters only, there is no room for removed ones. -/
theorem sanitized_field_before_text {field next : String} {fields fields' : List Bytes}
    (hnext : next ≠ "") (hkept : ∀ ch ∈ next.toList, isKept ch = true)
    (h : canonicalEncodeFields (asBytes field :: fields) =
      canonicalEncodeFields (asBytes (sanitizeString field) :: asBytes next :: fields')) :
    sanitizeString field = field ∧
      canonicalEncodeFields fields = canonicalEncodeFields (asBytes next :: fields') := by
  refine (sanitized_field h).resolve_right ?_
  rintro ⟨removed, hremoved, hlong, hbytes⟩
  obtain ⟨ch, hch, rest, hfirst⟩ := exists_first hnext
  rw [canonicalEncodeFields_cons, hfirst, List.append_assoc] at hbytes
  have hshort := length_removed_lt hremoved (hkept ch hch) hbytes
  rw [length_lengthPrefix] at hshort
  omega

theorem sanitized_field_before_short {field : String} {fields fields' : List Bytes}
    (hshort : (canonicalEncodeFields fields').length <
      2 ^ 32 + (canonicalEncodeFields fields).length)
    (h : canonicalEncodeFields (asBytes field :: fields) =
      canonicalEncodeFields (asBytes (sanitizeString field) :: fields')) :
    sanitizeString field = field ∧ canonicalEncodeFields fields = canonicalEncodeFields fields' := by
  refine (sanitized_field h).resolve_right ?_
  rintro ⟨removed, -, hlong, hbytes⟩
  have hlength := congrArg List.length hbytes
  rw [List.length_append] at hlength
  omega

/-- Empty tags were hashed. If others are stored, their first byte is read where the high byte of the
body's length stands, and that byte is zero. -/
theorem tags_empty {tags body : String} {createdAt : Bytes}
    (hkept : ∀ ch ∈ tags.toList, isKept ch = true)
    (hbody : (sanitizeString body).utf8ByteSize ≤ MAX_RECORD_SIZE)
    (h : canonicalEncodeFields [[], asBytes body, createdAt] =
      canonicalEncodeFields [asBytes tags, asBytes (sanitizeString body), createdAt]) : tags = "" := by
  by_contra htags
  obtain ⟨ch, hch, rest, hfirst⟩ := exists_first htags
  rw [canonicalEncodeFields_cons, canonicalEncodeFields_cons (asBytes tags)] at h
  obtain ⟨hlength, hrest⟩ := List.append_inj h rfl
  rw [lengthPrefix_eq_iff] at hlength
  rw [List.nil_append, canonicalEncodeFields_cons] at hrest
  have hsizes := congrArg List.length hrest
  simp only [canonicalEncodeFields_cons, List.length_append, length_lengthPrefix] at hsizes
  rw [← length_asBytes] at hbody
  have hbodyLength : lengthPrefix (asBytes body).length =
      lengthPrefix (asBytes (sanitizeString body)).length := by
    rw [lengthPrefix_eq_iff]
    simp at hlength
    omega
  have hhigh : (asBytes (sanitizeString body)).length / 2 ^ 24 = 0 := by
    unfold MAX_RECORD_SIZE at hbody
    omega
  rw [hbodyLength, lengthPrefix, hhigh, hfirst, List.append_assoc] at hrest
  have hnull := (utf8EncodeChar_append_inj (c := '\x00') hrest).1
  have hchKept := hkept ch hch
  rw [← hnull] at hchKept
  exact absurd hchKept (by decide)

/-- The fields of an id that a scraper hashes and the fields that it stores: where the encodings are
equal, sanitizing has changed no field and the tags are empty. -/
theorem encoded_before_sanitizing_iff {sourceUrl sourceHash schema tags body : String}
    (createdAt : Bytes)
    (hhash : sourceHash ≠ "") (hhashKept : ∀ ch ∈ sourceHash.toList, isKept ch = true)
    (htags : ∀ ch ∈ tags.toList, isKept ch = true)
    (hbody : (sanitizeString body).utf8ByteSize ≤ MAX_RECORD_SIZE) :
    canonicalEncodeFields [asBytes sourceUrl, asBytes sourceHash, asBytes schema, [], asBytes body,
        createdAt] =
      canonicalEncodeFields [asBytes (sanitizeString sourceUrl), asBytes sourceHash,
        asBytes (sanitizeString schema), asBytes tags, asBytes (sanitizeString body), createdAt] ↔
    sanitizeString sourceUrl = sourceUrl ∧ sanitizeString schema = schema ∧ tags = "" ∧
      sanitizeString body = body := by
  constructor
  · intro h
    obtain ⟨hurl, hfromHash⟩ := sanitized_field_before_text hhash hhashKept h
    have hfromSchema := (canonicalEncodeFields_cons_inj _).mp hfromHash
    have hschema : sanitizeString schema = schema ∧
        canonicalEncodeFields [[], asBytes body, createdAt] =
          canonicalEncodeFields [asBytes tags, asBytes (sanitizeString body), createdAt] := by
      by_cases hempty : tags = ""
      · subst hempty
        refine sanitized_field_before_short ?_ hfromSchema
        rw [← length_asBytes, MAX_RECORD_SIZE] at hbody
        simp only [canonicalEncodeFields_cons, List.length_append, length_lengthPrefix]
        have hnil : (asBytes "").length = 0 := rfl
        omega
      · exact sanitized_field_before_text hempty htags hfromSchema
    have hnoTags := tags_empty htags hbody hschema.2
    subst hnoTags
    have hfromBody := (canonicalEncodeFields_cons_inj []).mp hschema.2
    refine ⟨hurl, hschema.1, rfl, (sanitized_field_before_short ?_ hfromBody).1⟩
    omega
  · rintro ⟨hurl, hschema, rfl, hbody⟩
    rw [hurl, hschema, hbody]
    rfl

/-! ## Ids of records -/

/-- What is assumed of the digest: no two inputs have the same, and it is written in hexadecimal. -/
structure IdealDigest (blake3 : Bytes → String) : Prop where
  injective : Function.Injective blake3
  nonempty : ∀ bytes, blake3 bytes ≠ ""
  hexadecimal : ∀ bytes, ∀ ch ∈ (blake3 bytes).toList, ('0' ≤ ch ∧ ch ≤ '9') ∨ ('a' ≤ ch ∧ ch ≤ 'f')

theorem IdealDigest.kept {blake3 : Bytes → String} (hideal : IdealDigest blake3) (bytes : Bytes) :
    ∀ ch ∈ (blake3 bytes).toList, isKept ch = true :=
  fun ch hch => isKept_hexadecimal (hideal.hexadecimal bytes ch hch)

def IdMatches (blake3 : Bytes → String) (record : ContentRecord) : Prop :=
  computeRecordId blake3 (asBytes record.sourceUrl) (asBytes record.sourceHash) (asBytes record.schema)
    (joinedTags record.tags) (asBytes record.body) (asBytes (toString record.createdAt)) = record.id

/-- The id is the digest of the fields, with no tags, and the source hash is a digest. -/
def HashedUntagged (blake3 : Bytes → String) (made : ContentRecord) : Prop :=
  IdMatches blake3 { made with tags := [] } ∧ ∃ bytes, made.sourceHash = blake3 bytes

/-- Sanitizing leaves the url, the schema and the body as they are, and no text in the tags. -/
def SanitizesToHashed (made : ContentRecord) : Prop :=
  sanitizeString made.sourceUrl = made.sourceUrl ∧ sanitizeString made.schema = made.schema ∧
    String.intercalate "," (made.tags.map sanitizeString) = "" ∧ sanitizeString made.body = made.body

theorem isKept_of_mem_joined {tags : List String} {ch : Char}
    (h : ch ∈ (String.intercalate "," (tags.map sanitizeString)).toList) : isKept ch = true := by
  induction tags with
  | nil => simp at h
  | cons tag tags ih =>
    cases tags with
    | nil => exact isKept_of_mem_sanitizeString h
    | cons next tags =>
      rw [List.map_cons, List.map_cons, String.intercalate_cons_cons, String.toList_append,
        String.toList_append, List.append_assoc] at h
      rcases List.mem_append.mp h with htag | hrest
      · exact isKept_of_mem_sanitizeString htag
      · rcases List.mem_cons.mp hrest with rfl | hrest
        · exact isKept_ascii (by decide) (by decide)
        · exact ih hrest

theorem validateBodySize_eq_ok {body : String} (h : validateBodySize body = .ok ()) :
    body.utf8ByteSize ≤ MAX_RECORD_SIZE := by
  unfold validateBodySize at h
  split at h
  · cases h
  · next hsize => exact Nat.le_of_not_lt hsize

theorem idMatches_sanitized_iff {blake3 : Bytes → String} (hideal : IdealDigest blake3)
    {made record : ContentRecord} (hmade : HashedUntagged blake3 made)
    (hsanitized : sanitizeRecord made = .ok record) (sig : String) :
    IdMatches blake3 { record with sig := sig } ↔ SanitizesToHashed made := by
  obtain ⟨hbody, tags, htags, rfl⟩ := sanitizeRecord_eq_ok.mp hsanitized
  obtain ⟨rfl, -⟩ := mapM_sanitizeTag_eq_ok htags
  obtain ⟨hid, bytes, hhash⟩ := hmade
  have hcleanId : sanitizeString made.id = made.id := by
    rw [← hid]
    exact sanitizeString_eq_self_iff.mpr (hideal.kept _)
  have hcleanHash : sanitizeString made.sourceHash = made.sourceHash := by
    rw [hhash]
    exact sanitizeString_eq_self_iff.mpr (hideal.kept _)
  have hnoTags : joinedTags [] = [] := rfl
  rw [IdMatches, computeRecordId, hnoTags] at hid
  rw [SanitizesToHashed, IdMatches, computeRecordId, hcleanId, hcleanHash, ← hid,
    hideal.injective.eq_iff, eq_comm]
  refine encoded_before_sanitizing_iff _ ?_ ?_ (fun _ => isKept_of_mem_joined)
    (validateBodySize_eq_ok hbody)
  · rw [hhash]
    exact hideal.nonempty bytes
  · rw [hhash]
    exact hideal.kept bytes

end DSearch
